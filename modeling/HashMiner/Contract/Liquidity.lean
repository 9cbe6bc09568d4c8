import HashMiner.Contract.TickMath

/-!
# Liquidity of the pool

The liquidity of two amounts at a price. At the price of the genesis, its computation never
reverts and gives something, whatever has been sold.
-/

namespace HashMiner.Contract

open Foundation

namespace Liquidity

def q96 : U256 := 0x1000000000000000000000000

def mulDiv (a b denominator : U256) : Except Failure U256 :=
  (FullMath.mulDiv a b denominator).mapError .fullMath

def toUint128 (x : U256) : Except Failure U128 := do
  let y := x.setWidth 128
  revertIf (¬ y.setWidth 256 = x) (Failure.require "liquidity overflow")
  return y

/-- The boundaries in order. -/
def ordered (sqrtPriceAX96 sqrtPriceBX96 : U160) : U160 × U160 :=
  if sqrtPriceBX96 < sqrtPriceAX96 then (sqrtPriceBX96, sqrtPriceAX96)
  else (sqrtPriceAX96, sqrtPriceBX96)

def getLiquidityForAmount0 (sqrtPriceAX96 sqrtPriceBX96 : U160) (amount0 : U256) :
    Except Failure U128 := do
  let (sqrtPriceAX96, sqrtPriceBX96) := ordered sqrtPriceAX96 sqrtPriceBX96
  let intermediate ← mulDiv (sqrtPriceAX96.setWidth 256) (sqrtPriceBX96.setWidth 256) q96
  let difference ← subChecked Failure.overflow sqrtPriceBX96 sqrtPriceAX96
  let liquidity ← mulDiv amount0 intermediate (difference.setWidth 256)
  toUint128 liquidity

def getLiquidityForAmount1 (sqrtPriceAX96 sqrtPriceBX96 : U160) (amount1 : U256) :
    Except Failure U128 := do
  let (sqrtPriceAX96, sqrtPriceBX96) := ordered sqrtPriceAX96 sqrtPriceBX96
  let difference ← subChecked Failure.overflow sqrtPriceBX96 sqrtPriceAX96
  let liquidity ← mulDiv amount1 q96 (difference.setWidth 256)
  toUint128 liquidity

def getLiquidityForAmounts (sqrtPriceX96 sqrtPriceAX96 sqrtPriceBX96 : U160)
    (amount0 amount1 : U256) : Except Failure U128 := do
  let (sqrtPriceAX96, sqrtPriceBX96) := ordered sqrtPriceAX96 sqrtPriceBX96
  if sqrtPriceX96 ≤ sqrtPriceAX96 then
    getLiquidityForAmount0 sqrtPriceAX96 sqrtPriceBX96 amount0
  else if sqrtPriceX96 < sqrtPriceBX96 then
    let liquidity0 ← getLiquidityForAmount0 sqrtPriceX96 sqrtPriceBX96 amount0
    let liquidity1 ← getLiquidityForAmount1 sqrtPriceAX96 sqrtPriceX96 amount1
    return if liquidity0 < liquidity1 then liquidity0 else liquidity1
  else
    getLiquidityForAmount1 sqrtPriceAX96 sqrtPriceBX96 amount1

theorem mulDiv_ok (a b : U256) {d : U256} (nonzero : d ≠ 0)
    (fits : a.toNat * b.toNat / d.toNat < 2 ^ 256) :
    ∃ quotient, mulDiv a b d = .ok quotient ∧ quotient.toNat = a.toNat * b.toNat / d.toNat := by
  have exact : Contract.mulDiv a b d = .ok (BitVec.ofNat 256 (a.toNat * b.toNat / d.toNat)) :=
    if_neg (not_or.mpr ⟨nonzero, Nat.not_le.mpr fits⟩)
  refine ⟨BitVec.ofNat 256 (a.toNat * b.toNat / d.toNat), ?_, ?_⟩
  · rw [mulDiv, FullMath.mulDiv_eq, exact]
    rfl
  · rw [BitVec.toNat_ofNat, Nat.mod_eq_of_lt fits]

theorem toUint128_ok {x : U256} (fits : x.toNat < 2 ^ 128) :
    toUint128 x = .ok (x.setWidth 128) := by
  have same : (x.setWidth 128).setWidth 256 = x := by
    apply BitVec.eq_of_toNat_eq
    rw [BitVec.toNat_setWidth, BitVec.toNat_setWidth, Nat.mod_eq_of_lt fits,
      Nat.mod_eq_of_lt x.isLt]
  rw [toUint128, revertIf, if_neg (not_not.mpr same)]
  rfl

/-- A quotient that is cast down. -/
theorem mulDiv_toUint128 (a b : U256) {d : U256} (nonzero : d ≠ 0)
    (fits : a.toNat * b.toNat / d.toNat < 2 ^ 128) :
    ∃ liquidity, (mulDiv a b d >>= toUint128) = .ok liquidity ∧
      liquidity.toNat = a.toNat * b.toNat / d.toNat := by
  have small : (2 : Nat) ^ 128 < 2 ^ 256 := by decide
  obtain ⟨quotient, divides, value⟩ := mulDiv_ok a b nonzero (Nat.lt_trans fits small)
  rw [divides, ok_bind]
  refine ⟨quotient.setWidth 128, toUint128_ok (by rw [value]; exact fits), ?_⟩
  rw [BitVec.toNat_setWidth, value, Nat.mod_eq_of_lt fits]

section Amounts

variable {low high : U160} {amount : U256}

theorem ordered_of_lt (less : low < high) : ordered low high = (low, high) :=
  if_neg (BitVec.not_lt.mpr (BitVec.le_of_lt less))

/-- The difference of two prices is a word and not zero. -/
theorem difference (less : low < high) :
    subChecked Failure.overflow high low = .ok (high - low) ∧
      ((high - low).setWidth 256).toNat = high.toNat - low.toNat ∧
      (high - low).setWidth 256 ≠ 0 := by
  have le : low.toNat ≤ high.toNat := Nat.le_of_lt less
  have value : ((high - low).setWidth 256).toNat = high.toNat - low.toNat := by
    have word := high.isLt
    rw [BitVec.toNat_setWidth, BitVec.toNat_sub_of_le (BitVec.le_def.mpr le)]
    exact Nat.mod_eq_of_lt (by omega)
  refine ⟨subChecked_of_le le, value, fun zero => ?_⟩
  have nothing := congrArg BitVec.toNat zero
  rw [value] at nothing
  exact Nat.ne_of_gt (Nat.sub_pos_of_lt less) nothing

theorem getLiquidityForAmount0_ok (less : low < high)
    (fits : amount.toNat * (low.toNat * high.toNat / 2 ^ 96) / (high.toNat - low.toNat) < 2 ^ 128) :
    ∃ liquidity, getLiquidityForAmount0 low high amount = .ok liquidity ∧
      liquidity.toNat =
        amount.toNat * (low.toNat * high.toNat / 2 ^ 96) / (high.toNat - low.toNat) := by
  obtain ⟨subtracts, value, nonzero⟩ := difference less
  have wide : ∀ x : U160, (x.setWidth 256).toNat = x.toNat := by
    intro x
    rw [BitVec.toNat_setWidth]
    exact Nat.mod_eq_of_lt (Nat.lt_of_lt_of_le x.isLt (by decide))
  have product : low.toNat * high.toNat / 2 ^ 96 < 2 ^ 256 := by
    refine Nat.div_lt_of_lt_mul (Nat.lt_of_lt_of_le (Nat.mul_lt_mul'' low.isLt high.isLt) ?_)
    decide
  have point : q96.toNat = 2 ^ 96 := rfl
  rw [← wide low, ← wide high, ← point] at product
  obtain ⟨intermediate, first, word⟩ :=
    mulDiv_ok (low.setWidth 256) (high.setWidth 256) (by decide) product
  rw [wide, wide, point] at word
  rw [← value, ← word] at fits
  obtain ⟨liquidity, second, result⟩ := mulDiv_toUint128 amount intermediate nonzero fits
  rw [value, word] at result
  refine ⟨liquidity, ?_, result⟩
  rw [getLiquidityForAmount0, ordered_of_lt less]
  dsimp only
  rw [first, ok_bind, subtracts, ok_bind]
  exact second

theorem getLiquidityForAmount1_ok (less : low < high)
    (fits : amount.toNat * 2 ^ 96 / (high.toNat - low.toNat) < 2 ^ 128) :
    ∃ liquidity, getLiquidityForAmount1 low high amount = .ok liquidity ∧
      liquidity.toNat = amount.toNat * 2 ^ 96 / (high.toNat - low.toNat) := by
  obtain ⟨subtracts, value, nonzero⟩ := difference less
  have point : q96.toNat = 2 ^ 96 := rfl
  rw [← value, ← point] at fits
  obtain ⟨liquidity, divides, result⟩ := mulDiv_toUint128 amount q96 nonzero fits
  rw [value, point] at result
  refine ⟨liquidity, ?_, result⟩
  rw [getLiquidityForAmount1, ordered_of_lt less]
  dsimp only
  rw [subtracts, ok_bind]
  exact divides

/-- Between the boundaries, the scarcer amount counts. -/
theorem getLiquidityForAmounts_ok (price low high : U160) (amount0 amount1 : U256)
    (above : low < price) (below : price < high)
    (fits0 : amount0.toNat * (price.toNat * high.toNat / 2 ^ 96) / (high.toNat - price.toNat) <
      2 ^ 128)
    (fits1 : amount1.toNat * 2 ^ 96 / (price.toNat - low.toNat) < 2 ^ 128) :
    ∃ liquidity, getLiquidityForAmounts price low high amount0 amount1 = .ok liquidity ∧
      liquidity.toNat =
        min (amount0.toNat * (price.toNat * high.toNat / 2 ^ 96) / (high.toNat - price.toNat))
          (amount1.toNat * 2 ^ 96 / (price.toNat - low.toNat)) := by
  obtain ⟨liquidity0, first, value0⟩ := getLiquidityForAmount0_ok below fits0
  obtain ⟨liquidity1, second, value1⟩ := getLiquidityForAmount1_ok above fits1
  refine ⟨if liquidity0 < liquidity1 then liquidity0 else liquidity1, ?_, ?_⟩
  · rw [getLiquidityForAmounts, ordered_of_lt (BitVec.lt_trans above below)]
    dsimp only
    rw [if_neg (BitVec.not_le.mpr above), if_pos below, first, ok_bind, second, ok_bind]
    rfl
  · rw [← value0, ← value1]
    split
    · next less => exact (Nat.min_eq_left (Nat.le_of_lt less)).symm
    · next least => exact (Nat.min_eq_right (Nat.not_lt.mp least)).symm

end Amounts

end Liquidity

/-! ## The opening of the pool -/

def tickLower : BitVec 24 := BitVec.ofInt 24 (-887200)

def tickUpper : BitVec 24 := BitVec.ofInt 24 887200

/-- The square root of 100000, the tokens for a unit of the currency. -/
def openingPrice : U160 := 25054144837504793118641380156960

theorem getSqrtPriceAtTick_lower :
    TickMath.getSqrtPriceAtTick tickLower = .ok 4310618292 := by decide +kernel

theorem getSqrtPriceAtTick_upper :
    TickMath.getSqrtPriceAtTick tickUpper =
      .ok 1456195216270955103206513029158776779468408838535 := by decide +kernel

section Opening

variable {eth hashLP : U256} {units : Nat}

/-- The price of the genesis does not depend on how much of it has been sold. -/
theorem sqrtPriceX96_opening (some : 0 < units) (within : units ≤ 1050)
    (raised : eth.toNat = units * 10 ^ 16) (minted : hashLP.toNat = units * 10 ^ 21) :
    sqrtPriceX96FromAmounts eth hashLP = .ok openingPrice := by
  have positive : 0 < eth := by
    rw [BitVec.lt_def, raised]
    exact Nat.mul_pos some (by decide)
  have nonzero : eth ≠ 0 := by
    rintro rfl
    exact BitVec.lt_irrefl _ positive
  have fits : hashLP.toNat < 2 ^ 160 := by omega
  have ratio : hashLP.toNat * 2 ^ 96 / eth.toNat = 100000 * 2 ^ 96 := by
    rw [minted, raised, show units * 10 ^ 21 * 2 ^ 96 = units * 10 ^ 16 * (100000 * 2 ^ 96) by ring]
    exact Nat.mul_div_cancel_left _ (Nat.mul_pos some (by decide))
  have root : Nat.sqrt (100000 * 2 ^ 96 * 2 ^ 96) = openingPrice.toNat := by
    symm
    rw [Nat.eq_sqrt]
    decide
  have below : hashLP.toNat * 2 ^ 96 / eth.toNat < 2 ^ 160 := by
    rw [ratio]
    decide
  rw [sqrtPriceX96FromAmounts_of_fits nonzero fits below, ratio, root, BitVec.ofNat_toNat,
    BitVec.setWidth_eq]

/-- The liquidity of the genesis is never nothing, and its computation never reverts. -/
theorem liquidity_opening (some : 0 < units) (within : units ≤ 1050)
    (raised : eth.toNat = units * 10 ^ 16) (minted : hashLP.toNat = units * 10 ^ 21) :
    ∃ liquidity, Liquidity.getLiquidityForAmounts openingPrice 4310618292
      1456195216270955103206513029158776779468408838535 eth hashLP = .ok liquidity ∧
      liquidity ≠ 0 := by
  have low : (4310618292 : U160).toNat = 4310618292 := rfl
  have high : (1456195216270955103206513029158776779468408838535 : U160).toNat =
      1456195216270955103206513029158776779468408838535 := rfl
  have price : openingPrice.toNat = 25054144837504793118641380156960 := rfl
  obtain ⟨liquidity, computed, value⟩ := Liquidity.getLiquidityForAmounts_ok openingPrice 4310618292
    1456195216270955103206513029158776779468408838535 eth hashLP (by decide) (by decide)
    (by rw [high, price, raised]; omega) (by rw [low, price, minted]; omega)
  refine ⟨liquidity, computed, ?_⟩
  rintro rfl
  rw [low, high, price, raised, minted, show (0 : U128).toNat = 0 from rfl] at value
  omega

end Opening

end HashMiner.Contract
