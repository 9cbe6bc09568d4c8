import HashMiner.Contract.Erc20
import HashMiner.Contract.FullMath

/-!
# The price of the pool

The pool is opened at the price of the genesis. Prices are square roots with 96 bits
behind the point; those of the ticks have 128 bits behind it until the last step.
-/

namespace HashMiner.Contract

open Foundation

abbrev U160 := BitVec 160

/-- Why a call of the contract reverts. -/
inductive Failure where
  | require (message : String)
  | panic (code : Nat)
  | fullMath (reason : Revert)
  | invalidTick (tick : BitVec 24)
  | mining (reason : Revert)
  | token (reason : Erc20.Error)
  | reentrantCall
  | notPoolManager
  | invalidAction
  | genesisAlreadyComplete
  | genesisNotComplete
  | genesisSoldOut
  | txCapExceeded
  | insufficientPayment
  | genesisNotSoldOut
  | ethTransferFailed
  | notController
  | nothingToClaim
  | unsupportedSwapMode
  | insufficientLiquidity
  | wrongPairConfig
  | tooSoon
  | nothingToSeed
  | callFailed
  deriving DecidableEq

namespace Failure

def overflow : Failure := .panic 0x11

def divisionByZero : Failure := .panic 0x12

end Failure

def divChecked (a b : U256) : Except Failure U256 :=
  if b = 0 then .error .divisionByZero else .ok (a / b)

/-! ## The square root -/

/-- `while (z < y)`, with what it returns. -/
def sqrtLoop (x z y : U256) : Except Failure U256 :=
  if less : z < y then do
    let quotient ← divChecked x z
    let sum ← addChecked Failure.overflow quotient z
    sqrtLoop x (sum / 2) z
  else
    .ok y
termination_by y.toNat
decreasing_by exact less

def sqrt (x : U256) : Except Failure U256 :=
  if x = 0 then .ok 0
  else do
    let sum ← addChecked Failure.overflow x 1
    sqrtLoop x (sum / 2) x

def sqrtPriceX96FromAmounts (amount0 amount1 : U256) : Except Failure U160 := do
  revertIf (¬ 0 < amount0) (Failure.require "")
  let shifted ← divChecked (amount1 <<< 96) amount0
  let s ← sqrt (shifted <<< 96)
  revertIf (¬ s ≤ (BitVec.allOnes 160).setWidth 256) (Failure.require "")
  return s.setWidth 160

section Root

variable {x z y : U256}

theorem sqrtLoop_eq (below : x.toNat + 1 < 2 ^ 256) (positive : 0 < y.toNat)
    (le : y.toNat ≤ x.toNat) (above : Nat.sqrt x.toNat ≤ y.toNat)
    (average : z.toNat = (x.toNat / y.toNat + y.toNat) / 2) :
    sqrtLoop x z y = .ok (BitVec.ofNat 256 (Nat.sqrt x.toNat)) := by
  induction h : y.toNat using Nat.strong_induction_on generalizing y z with
  | _ n ih =>
    subst h
    rw [sqrtLoop]
    split
    · next less =>
      have cofactor : 0 < x.toNat / y.toNat := Nat.div_pos le positive
      have some : 0 < z.toNat := by omega
      have smaller : z.toNat < y.toNat := less
      have root : Nat.sqrt x.toNat ≤ z.toNat := by
        rw [average]
        exact sqrt_le_average x.toNat positive
      have nonzero : z ≠ 0 := by
        rintro rfl
        exact Nat.lt_irrefl _ some
      have divided : divChecked x z = .ok (x / z) := if_neg nonzero
      have fits : (x / z).toNat + z.toNat < 2 ^ 256 := by
        rw [BitVec.toNat_udiv]
        exact Nat.lt_of_le_of_lt (cofactor_add_le some (by omega)) below
      have added : addChecked Failure.overflow (x / z) z = .ok (x / z + z) :=
        if_neg (Nat.not_le.mpr fits)
      have half : ((x / z + z) / 2).toNat = (x.toNat / z.toNat + z.toNat) / 2 := by
        have two : (2 : U256).toNat = 2 := rfl
        rw [BitVec.toNat_udiv, BitVec.toNat_add, Nat.mod_eq_of_lt fits, BitVec.toNat_udiv, two]
      rw [divided]
      change (addChecked Failure.overflow (x / z) z >>= _) = _
      rw [added]
      exact ih z.toNat smaller some (by omega) root half rfl
    · next stops =>
      have last : y.toNat ≤ z.toNat := Nat.not_lt.mp stops
      have root : y.toNat = Nat.sqrt x.toNat := by
        refine Nat.le_antisymm (le_sqrt_of_le_average ?_) above
        rw [← average]
        exact last
      rw [← root, BitVec.ofNat_toNat, BitVec.setWidth_eq]

/-- The loop ends with the rounded square root of every number but the greatest one. -/
theorem sqrt_eq (x : U256) :
    sqrt x = if x = BitVec.allOnes 256 then .error .overflow
      else .ok (BitVec.ofNat 256 (Nat.sqrt x.toNat)) := by
  have one : (1 : U256).toNat = 1 := rfl
  have two : (2 : U256).toNat = 2 := rfl
  have greatest : (BitVec.allOnes 256).toNat = 2 ^ 256 - 1 := BitVec.toNat_allOnes
  rcases eq_or_ne x 0 with rfl | nonzero
  · rw [if_neg (by decide), sqrt, if_pos rfl]
    rfl
  have positive : 0 < x.toNat := Nat.pos_of_ne_zero fun zero => nonzero (BitVec.eq_of_toNat_eq zero)
  rw [sqrt, if_neg nonzero]
  by_cases last : x = BitVec.allOnes 256
  · have full : addChecked Failure.overflow x 1 = .error .overflow := by
      refine if_pos ?_
      rw [last, greatest, one]
      decide
    rw [if_pos last, full]
    rfl
  · have below : x.toNat + 1 < 2 ^ 256 := by
      have word := x.isLt
      have other : x.toNat ≠ 2 ^ 256 - 1 := by
        rw [← greatest]
        exact fun same => last (BitVec.eq_of_toNat_eq same)
      omega
    have added : addChecked Failure.overflow x 1 = .ok (x + 1) := if_neg (Nat.not_le.mpr below)
    have half : ((x + 1) / 2).toNat = (x.toNat / x.toNat + x.toNat) / 2 := by
      rw [BitVec.toNat_udiv, BitVec.toNat_add, one, two, Nat.mod_eq_of_lt below,
        Nat.div_self positive, Nat.add_comm]
    rw [if_neg last, added]
    exact sqrtLoop_eq below positive le_rfl (Nat.sqrt_le_self _) half

theorem sqrt_toNat_lt (x : U256) : Nat.sqrt x.toNat < 2 ^ 128 := by
  rw [Nat.sqrt_lt, ← Nat.pow_add]
  exact x.isLt

/-- A price needs some ether and nothing else: the loop always ends, and its root is short. -/
theorem sqrtPriceX96FromAmounts_eq (amount0 amount1 : U256) :
    sqrtPriceX96FromAmounts amount0 amount1 =
      if amount0 = 0 then .error (.require "")
      else .ok (BitVec.ofNat 160 (Nat.sqrt (((amount1 <<< 96) / amount0) <<< 96).toNat)) := by
  have zero : (0 : U256).toNat = 0 := rfl
  rcases eq_or_ne amount0 0 with rfl | nonzero
  · rw [if_pos rfl, sqrtPriceX96FromAmounts, revertIf, if_pos (by decide)]
    rfl
  have positive : 0 < amount0 := by
    rw [BitVec.lt_def, zero]
    exact Nat.pos_of_ne_zero fun none => nonzero (BitVec.eq_of_toNat_eq none)
  have divided : divChecked (amount1 <<< 96) amount0 = .ok ((amount1 <<< 96) / amount0) :=
    if_neg nonzero
  rw [if_neg nonzero, sqrtPriceX96FromAmounts, revertIf_of_not (not_not.mpr positive), ok_bind,
    divided, ok_bind]
  generalize (amount1 <<< 96) / amount0 = shifted
  -- the lowest bit of a number that is shifted up is clear
  have uneven : shifted <<< 96 ≠ BitVec.allOnes 256 := by
    intro same
    have bit := congrArg (BitVec.getLsbD · 0) same
    simp at bit
  have root : sqrt (shifted <<< 96) = .ok (BitVec.ofNat 256 (Nat.sqrt (shifted <<< 96).toNat)) := by
    rw [sqrt_eq, if_neg uneven]
  generalize shifted <<< 96 = x at root
  have small := sqrt_toNat_lt x
  have value : (BitVec.ofNat 256 (Nat.sqrt x.toNat)).toNat = Nat.sqrt x.toNat := by
    rw [BitVec.toNat_ofNat, Nat.mod_eq_of_lt (Nat.lt_trans small (by decide))]
  have short : BitVec.ofNat 256 (Nat.sqrt x.toNat) ≤ (BitVec.allOnes 160).setWidth 256 := by
    rw [BitVec.le_def, value]
    exact Nat.le_trans (Nat.le_of_lt small) (by decide)
  rw [root, ok_bind, revertIf_of_not (not_not.mpr short), ok_bind]
  refine congrArg Except.ok (BitVec.eq_of_toNat_eq ?_)
  rw [BitVec.toNat_setWidth, value, BitVec.toNat_ofNat]

end Root

/-! ## The price in numbers -/

section Price

variable {amount0 amount1 : U256}

/-- `(amount1 << 96) / amount0`, when no bit is shifted out. -/
theorem toNat_priceX96 (fits : amount1.toNat < 2 ^ 160) :
    ((amount1 <<< 96) / amount0).toNat = amount1.toNat * 2 ^ 96 / amount0.toNat := by
  have word : amount1.toNat * 2 ^ 96 < 2 ^ 256 := by omega
  rw [BitVec.toNat_udiv, BitVec.toNat_shiftLeft, Nat.shiftLeft_eq, Nat.mod_eq_of_lt word]

theorem sqrtPriceX96FromAmounts_of_fits (some : amount0 ≠ 0) (fits : amount1.toNat < 2 ^ 160)
    (ratio : amount1.toNat * 2 ^ 96 / amount0.toNat < 2 ^ 160) :
    sqrtPriceX96FromAmounts amount0 amount1 =
      .ok (BitVec.ofNat 160 (Nat.sqrt (amount1.toNat * 2 ^ 96 / amount0.toNat * 2 ^ 96))) := by
  have word : amount1.toNat * 2 ^ 96 / amount0.toNat * 2 ^ 96 < 2 ^ 256 := by omega
  rw [sqrtPriceX96FromAmounts_eq, if_neg some, BitVec.toNat_shiftLeft, toNat_priceX96 fits,
    Nat.shiftLeft_eq, Nat.mod_eq_of_lt word]

/-- The price is the root of the ratio of the amounts, with 96 bits behind the point, exactly
when the ratio has at most 64 bits before it; the root of a greater one does not come back
out of a word. -/
theorem sqrtPriceX96FromAmounts_exact_iff (fits : amount1.toNat < 2 ^ 160) :
    (∃ price, sqrtPriceX96FromAmounts amount0 amount1 = .ok price ∧
        price.toNat = Nat.sqrt (amount1.toNat * 2 ^ 96 / amount0.toNat * 2 ^ 96)) ↔
      amount0 ≠ 0 ∧ amount1.toNat * 2 ^ 96 / amount0.toNat < 2 ^ 160 := by
  constructor
  · rintro ⟨price, computed, value⟩
    rw [sqrtPriceX96FromAmounts_eq] at computed
    split at computed
    · cases computed
    next some =>
    have small := sqrt_toNat_lt (((amount1 <<< 96) / amount0) <<< 96)
    rw [← Except.ok.inj computed, BitVec.toNat_ofNat,
      Nat.mod_eq_of_lt (Nat.lt_trans small (by decide))] at value
    rw [value, Nat.sqrt_lt] at small
    exact ⟨some, by omega⟩
  · rintro ⟨some, ratio⟩
    refine ⟨_, sqrtPriceX96FromAmounts_of_fits some fits ratio, ?_⟩
    have small : Nat.sqrt (amount1.toNat * 2 ^ 96 / amount0.toNat * 2 ^ 96) < 2 ^ 128 := by
      rw [Nat.sqrt_lt]
      omega
    rw [BitVec.toNat_ofNat, Nat.mod_eq_of_lt (Nat.lt_trans small (by decide))]

/-- A whole genesis of ether and of tokens. -/
theorem sqrtPriceX96FromAmounts_exact_genesis :
    (1050000000000000000000000 : U256).toNat < 2 ^ 160 ∧
      ((10500000000000000000 : U256) ≠ 0 ∧
        (1050000000000000000000000 : U256).toNat * 2 ^ 96 / (10500000000000000000 : U256).toNat <
          2 ^ 160) ∧
      ∃ price, sqrtPriceX96FromAmounts 10500000000000000000 1050000000000000000000000 =
          .ok price ∧
        price.toNat = Nat.sqrt ((1050000000000000000000000 : U256).toNat * 2 ^ 96 /
          (10500000000000000000 : U256).toNat * 2 ^ 96) := by
  have fits : (1050000000000000000000000 : U256).toNat < 2 ^ 160 := by decide
  have ratio : (10500000000000000000 : U256) ≠ 0 ∧
      (1050000000000000000000000 : U256).toNat * 2 ^ 96 / (10500000000000000000 : U256).toNat <
        2 ^ 160 := by decide
  exact ⟨fits, ratio, (sqrtPriceX96FromAmounts_exact_iff fits).mpr ratio⟩

end Price

end HashMiner.Contract
