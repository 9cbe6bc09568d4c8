import HashMiner.Contract.Price

/-!
# Fees of swaps

The hooks take one percent of an amount of the currency: of a buy that specifies its input
before the swap, of what is specified, and otherwise after it, of what the pool has computed.
-/

namespace HashMiner.Contract

open Foundation

def swapFeeBps : U256 := 100

/-- Of a swap, whether it sells the currency and how much it specifies, as an input when
negative. -/
structure SwapParams where
  zeroForOne : Bool
  amountSpecified : BitVec 256

/-- The negation of a signed integer, which the least one does not have. -/
def negChecked {w : Nat} (x : BitVec w) : Except Failure (BitVec w) :=
  if x = BitVec.intMin w then .error .overflow else .ok (-x)

/-- `(amount * SWAP_FEE_BPS) / 10_000` -/
def feeOf (amount : U256) : Except Failure U256 := do
  let product ← mulChecked Failure.overflow amount swapFeeBps
  return product / 10000

/-- What `beforeSwap` takes, zero for nothing. -/
def feeBeforeSwap (params : SwapParams) : Except Failure U256 := do
  let isBuy := params.zeroForOne
  let isExactInput : Bool := params.amountSpecified.toInt < 0
  revertIf (!isBuy ∧ !isExactInput) Failure.unsupportedSwapMode
  if !isBuy || !isExactInput then
    return 0
  else
    let ethIn ← negChecked params.amountSpecified
    feeOf ethIn

/-- What `afterSwap` takes, zero for nothing. -/
def feeAfterSwap (params : SwapParams) (amount0 : BitVec 128) : Except Failure U256 := do
  let isBuy := params.zeroForOne
  let isExactInput : Bool := params.amountSpecified.toInt < 0
  let ethIsUnspecified := (isBuy && !isExactInput) || (!isBuy && isExactInput)
  if !ethIsUnspecified then
    return 0
  else
    let ethDelta ← if amount0.toInt < 0 then negChecked amount0 else .ok amount0
    let ethAmount := ethDelta.signExtend 256
    if ethAmount = 0 then return 0 else feeOf ethAmount

/-- Two signed amounts in one word. -/
def toBeforeSwapDelta (deltaSpecified deltaUnspecified : BitVec 128) : BitVec 256 :=
  (deltaSpecified.signExtend 256 <<< 128) |||
    (((1 <<< 128) - 1) &&& deltaUnspecified.signExtend 256)

def getSpecifiedDelta (delta : BitVec 256) : BitVec 128 := (delta.sshiftRight 128).setWidth 128

def getUnspecifiedDelta (delta : BitVec 256) : BitVec 128 := delta.setWidth 128

/-- `BalanceDelta.amount0` -/
def amount0 (delta : BitVec 256) : BitVec 128 := (delta.sshiftRight 128).setWidth 128

/-- What `beforeSwap` tells the pool: `toBeforeSwapDelta(int128(int256(fee)), 0)`. -/
def deltaBeforeSwap (fee : U256) : BitVec 256 :=
  if fee = 0 then 0 else toBeforeSwapDelta (fee.setWidth 128) 0

/-- What `afterSwap` tells the pool: `int128(int256(fee))`. -/
def deltaAfterSwap (fee : U256) : BitVec 128 := fee.setWidth 128

/-! ## What is taken -/

/-- One percent, rounded down. -/
theorem feeOf_eq (amount : U256) : feeOf amount =
    if 2 ^ 256 ≤ 100 * amount.toNat then .error .overflow
    else .ok (BitVec.ofNat 256 (amount.toNat / 100)) := by
  have bps : swapFeeBps.toNat = 100 := rfl
  have parts : (10000 : U256).toNat = 10000 := rfl
  rw [feeOf, mulChecked, bps, Nat.mul_comm]
  split
  · rfl
  · next fits =>
    rw [ok_bind]
    refine congrArg Except.ok (BitVec.eq_of_toNat_eq ?_)
    have word := amount.isLt
    rw [BitVec.toNat_udiv, BitVec.toNat_mul, bps, parts, BitVec.toNat_ofNat, Nat.mul_comm,
      Nat.mod_eq_of_lt (Nat.not_le.mp fits), Nat.mod_eq_of_lt (by omega)]
    omega

theorem toNat_neg_of_neg {w : Nat} {x : BitVec w} (negative : x.toInt < 0) :
    (-x).toNat = x.toInt.natAbs := by
  have word := x.isLt
  rw [BitVec.toInt_eq_toNat_cond] at negative ⊢
  split at negative
  · omega
  · next high =>
    rw [if_neg high, BitVec.toNat_neg, Nat.mod_eq_of_lt (by omega)]
    omega

theorem toNat_of_nonneg {w : Nat} {x : BitVec w} (positive : ¬ x.toInt < 0) :
    x.toNat = x.toInt.natAbs := by
  have word := x.isLt
  rw [BitVec.toInt_eq_toNat_cond] at positive ⊢
  split at positive
  · next low =>
    rw [if_pos low]
    rfl
  · omega

/-- What `beforeSwap` takes of a swap. -/
theorem feeBeforeSwap_eq (params : SwapParams) : feeBeforeSwap params =
    if params.amountSpecified.toInt < 0 then
      if params.zeroForOne then
        if 2 ^ 256 ≤ 100 * params.amountSpecified.toInt.natAbs then .error .overflow
        else .ok (BitVec.ofNat 256 (params.amountSpecified.toInt.natAbs / 100))
      else .ok 0
    else if params.zeroForOne then .ok 0 else .error .unsupportedSwapMode := by
  obtain ⟨isBuy, amount⟩ := params
  by_cases negative : amount.toInt < 0
  · cases isBuy with
    | false => simp [feeBeforeSwap, negative, revertIf]
    | true =>
      simp only [feeBeforeSwap, negative, decide_true, revertIf_of_not, Bool.not_true,
        Bool.false_eq_true, and_self, not_false_eq_true, ok_bind, Bool.or_self, if_false, if_true]
      by_cases least : amount = BitVec.intMin 256
      · have most : 2 ^ 256 ≤ 100 * amount.toInt.natAbs := by
          rw [least]
          decide
        rw [if_pos most, negChecked, if_pos least]
        rfl
      · rw [negChecked, if_neg least, ok_bind, feeOf_eq, toNat_neg_of_neg negative]
  · cases isBuy <;> simp [feeBeforeSwap, negative, revertIf]

theorem natAbs_lt {x : BitVec 128} (above : x ≠ BitVec.intMin 128) : x.toInt.natAbs < 2 ^ 127 := by
  have least : (BitVec.intMin 128).toNat = 2 ^ 127 := by decide
  have other : x.toNat ≠ 2 ^ 127 :=
    fun same => above (BitVec.eq_of_toNat_eq (same.trans least.symm))
  have word := x.isLt
  rw [BitVec.toInt_eq_toNat_cond]
  split <;> omega

/-- The fee of what an unsigned amount of the pool comes to. -/
theorem feeOf_signExtend {ethDelta : BitVec 128} (small : ethDelta.toNat < 2 ^ 127) :
    (if ethDelta.signExtend 256 = 0 then .ok 0 else feeOf (ethDelta.signExtend 256)) =
      (.ok (BitVec.ofNat 256 (ethDelta.toNat / 100)) : Except Failure U256) := by
  have positive : ethDelta.msb = false := by
    rw [BitVec.msb_eq_decide, decide_eq_false_iff_not, Nat.not_le]
    exact small
  have value : (ethDelta.signExtend 256).toNat = ethDelta.toNat := by
    rw [BitVec.signExtend_eq_setWidth_of_msb_false positive, BitVec.toNat_setWidth]
    exact Nat.mod_eq_of_lt (by omega)
  split
  · next zero =>
    rw [← value, zero]
    rfl
  · rw [feeOf_eq, value, if_neg (by omega)]

/-- What `afterSwap` takes of a swap. -/
theorem feeAfterSwap_eq (params : SwapParams) (amount0 : BitVec 128) :
    feeAfterSwap params amount0 =
      if params.zeroForOne = decide (params.amountSpecified.toInt < 0) then .ok 0
      else if amount0 = BitVec.intMin 128 then .error .overflow
      else .ok (BitVec.ofNat 256 (amount0.toInt.natAbs / 100)) := by
  obtain ⟨isBuy, amount⟩ := params
  have unspecified : ∀ exact : Bool, ((isBuy && !exact) || (!isBuy && exact)) =
      !decide (isBuy = exact) := by
    cases isBuy <;> decide
  simp only [feeAfterSwap, unspecified, Bool.not_not, decide_eq_true_eq]
  split
  · rfl
  · by_cases least : amount0 = BitVec.intMin 128
    · have negative : amount0.toInt < 0 := by
        rw [least]
        decide
      rw [if_pos least, if_pos negative, negChecked, if_pos least]
      rfl
    · have small := natAbs_lt least
      rw [if_neg least]
      by_cases negative : amount0.toInt < 0
      · rw [if_pos negative, negChecked, if_neg least, ok_bind, ← toNat_neg_of_neg negative]
        exact feeOf_signExtend (toNat_neg_of_neg negative ▸ small)
      · rw [if_neg negative, ok_bind, ← toNat_of_nonneg negative]
        exact feeOf_signExtend (toNat_of_nonneg negative ▸ small)

theorem ok_ofNat_iff {n : Nat} {fee : U256} (fits : n < 2 ^ 256) :
    (.ok (BitVec.ofNat 256 n) : Except Failure U256) = .ok fee ↔ fee.toNat = n := by
  rw [Except.ok.injEq]
  constructor
  · rintro rfl
    rw [BitVec.toNat_ofNat, Nat.mod_eq_of_lt fits]
  · intro value
    rw [← value, BitVec.ofNat_toNat, BitVec.setWidth_eq]

section Fees

variable {params : SwapParams} {amount0 : BitVec 128} {before after : U256}

/-- Before the swap it is a buy that specifies its input which is charged. A sale that
specifies its output is turned down. -/
theorem feeBeforeSwap_ok : feeBeforeSwap params = .ok before ↔
    if params.zeroForOne = true ∧ params.amountSpecified.toInt < 0 then
      100 * params.amountSpecified.toInt.natAbs < 2 ^ 256 ∧
        before.toNat = params.amountSpecified.toInt.natAbs / 100
    else (params.zeroForOne = true ∨ params.amountSpecified.toInt < 0) ∧ before = 0 := by
  have nothing : (.ok 0 : Except Failure U256) = .ok before ↔ before = 0 := by
    rw [Except.ok.injEq, eq_comm]
  rw [feeBeforeSwap_eq]
  by_cases negative : params.amountSpecified.toInt < 0
  · rw [if_pos negative]
    cases buys : params.zeroForOne with
    | false =>
      rw [if_neg Bool.false_ne_true, if_neg fun both => Bool.false_ne_true both.1, nothing]
      exact (and_iff_right (.inr negative)).symm
    | true =>
      rw [if_pos rfl, if_pos (And.intro rfl negative)]
      split
      · next above =>
        exact iff_of_false (fun failed => by cases failed)
          fun fits => Nat.not_lt.mpr above fits.1
      · next fits =>
        rw [ok_ofNat_iff (by omega)]
        exact (and_iff_right (Nat.not_le.mp fits)).symm
  · have other : ¬ (params.zeroForOne = true ∧ params.amountSpecified.toInt < 0) :=
      fun both => negative both.2
    rw [if_neg negative, if_neg other]
    cases buys : params.zeroForOne with
    | false =>
      rw [if_neg Bool.false_ne_true]
      refine iff_of_false (fun failed => by cases failed) fun ⟨accepted, _⟩ => ?_
      rcases accepted with sells | exactInput
      · exact Bool.false_ne_true sells
      · exact negative exactInput
    | true =>
      rw [if_pos rfl, nothing]
      exact (and_iff_right (.inl rfl)).symm

/-- After the swap every other one is charged. -/
theorem feeAfterSwap_ok : feeAfterSwap params amount0 = .ok after ↔
    if params.zeroForOne = decide (params.amountSpecified.toInt < 0) then after = 0
    else amount0 ≠ BitVec.intMin 128 ∧ after.toNat = amount0.toInt.natAbs / 100 := by
  rw [feeAfterSwap_eq]
  split
  · rw [Except.ok.injEq, eq_comm]
  · split
    · next least =>
      exact iff_of_false (fun failed => by cases failed) fun fits => fits.1 least
    · next above =>
      have small := natAbs_lt above
      rw [ok_ofNat_iff (by omega)]
      exact (and_iff_right above).symm

/-- What the fee of a swap is a part of: the amount that a buy specifies as its input, also
when the pool fills it in part, or else the currency that the pool moves. -/
def feeBase (params : SwapParams) (amount0 : BitVec 128) : Nat :=
  if params.zeroForOne = true ∧ params.amountSpecified.toInt < 0 then
    params.amountSpecified.toInt.natAbs
  else amount0.toInt.natAbs

/-- A swap that is accepted and specifies the currency is a buy that specifies its input. -/
theorem both_of_same (accepted : params.zeroForOne = true ∨ params.amountSpecified.toInt < 0)
    (same : params.zeroForOne = decide (params.amountSpecified.toInt < 0)) :
    params.zeroForOne = true ∧ params.amountSpecified.toInt < 0 := by
  rcases accepted with buys | negative
  · exact ⟨buys, of_decide_eq_true (same.symm.trans buys)⟩
  · exact ⟨same.trans (decide_eq_true negative), negative⟩

/-- Which hook charges what. -/
theorem charged_iff :
    feeBeforeSwap params = .ok before ∧ feeAfterSwap params amount0 = .ok after ↔
      if params.zeroForOne = true ∧ params.amountSpecified.toInt < 0 then
        100 * params.amountSpecified.toInt.natAbs < 2 ^ 256 ∧
          before.toNat = params.amountSpecified.toInt.natAbs / 100 ∧ after = 0
      else (params.zeroForOne = true ∨ params.amountSpecified.toInt < 0) ∧
        amount0 ≠ BitVec.intMin 128 ∧ before = 0 ∧ after.toNat = amount0.toInt.natAbs / 100 := by
  rw [feeBeforeSwap_ok, feeAfterSwap_ok]
  split
  · next exactInput =>
    rw [if_pos (exactInput.1.trans (decide_eq_true exactInput.2).symm), and_assoc]
  · next other =>
    constructor
    · rintro ⟨⟨accepted, rfl⟩, charged⟩
      rw [if_neg fun same => other (both_of_same accepted same)] at charged
      exact ⟨accepted, charged.1, rfl, charged.2⟩
    · rintro ⟨accepted, above, rfl, value⟩
      rw [if_neg fun same => other (both_of_same accepted same)]
      exact ⟨⟨accepted, rfl⟩, above, value⟩

theorem fees_eq (taken : feeBeforeSwap params = .ok before)
    (takenAfter : feeAfterSwap params amount0 = .ok after) :
    before.toNat + after.toNat = feeBase params amount0 / 100 := by
  have charged := charged_iff.mp ⟨taken, takenAfter⟩
  unfold feeBase
  split at charged
  · next exactInput =>
    obtain ⟨_, value, rfl⟩ := charged
    rw [if_pos exactInput, value]
    rfl
  · next other =>
    obtain ⟨_, _, rfl, value⟩ := charged
    rw [if_neg other, value]
    exact Nat.zero_add _

end Fees

/-! ## What the pool is told -/

theorem getLsbD_low (i : Nat) : (((1 <<< 128) - 1 : BitVec 256)).getLsbD i = decide (i < 128) := by
  have mask : ((1 <<< 128) - 1 : BitVec 256) = BitVec.ofNat 256 (2 ^ 128 - 1) := by decide
  rw [mask, BitVec.getLsbD_ofNat, Nat.testBit_two_pow_sub_one]
  by_cases low : i < 128
  · simp [low, Nat.lt_trans low (by decide : 128 < 256)]
  · simp [low]

theorem toBeforeSwapDelta_eq (deltaSpecified deltaUnspecified : BitVec 128) :
    toBeforeSwapDelta deltaSpecified deltaUnspecified = deltaSpecified ++ deltaUnspecified := by
  apply BitVec.eq_of_getLsbD_eq
  intro i within
  rw [toBeforeSwapDelta, BitVec.getLsbD_or, BitVec.getLsbD_and, BitVec.getLsbD_shiftLeft,
    getLsbD_low, BitVec.getLsbD_append, BitVec.getLsbD_signExtend, BitVec.getLsbD_signExtend]
  by_cases low : i < 128
  · simp [low, within]
  · have rest : i - 128 < 128 := by omega
    have inside : i - 128 < 256 := by omega
    simp [low, within, rest, inside]

theorem getSpecifiedDelta_toBeforeSwapDelta (deltaSpecified deltaUnspecified : BitVec 128) :
    getSpecifiedDelta (toBeforeSwapDelta deltaSpecified deltaUnspecified) = deltaSpecified := by
  apply BitVec.eq_of_getLsbD_eq
  intro i within
  have inside : ¬ 256 ≤ i := by omega
  have high : 128 + i < 256 := by omega
  have upper : ¬ 128 + i < 128 := by omega
  rw [toBeforeSwapDelta_eq, getSpecifiedDelta, BitVec.getLsbD_setWidth, BitVec.getLsbD_sshiftRight,
    BitVec.getLsbD_append]
  simp [within, inside, high, upper]

theorem getUnspecifiedDelta_toBeforeSwapDelta (deltaSpecified deltaUnspecified : BitVec 128) :
    getUnspecifiedDelta (toBeforeSwapDelta deltaSpecified deltaUnspecified) = deltaUnspecified := by
  apply BitVec.eq_of_getLsbD_eq
  intro i within
  rw [toBeforeSwapDelta_eq, getUnspecifiedDelta, BitVec.getLsbD_setWidth, BitVec.getLsbD_append]
  simp [within]

theorem toInt_setWidth_of_lt {fee : U256} (small : fee.toNat < 2 ^ 127) :
    (fee.setWidth 128).toInt = fee.toNat := by
  have value : (fee.setWidth 128).toNat = fee.toNat := by
    rw [BitVec.toNat_setWidth]
    exact Nat.mod_eq_of_lt (by omega)
  rw [BitVec.toInt_eq_toNat_cond, value, if_pos (by omega)]

/-- A fee of half the width and more is told as another number. -/
theorem told_beforeSwap_iff (fee : U256) :
    (getSpecifiedDelta (deltaBeforeSwap fee)).toInt = fee.toNat ↔ fee.toNat < 2 ^ 127 := by
  unfold deltaBeforeSwap
  split
  · next zero =>
    rw [zero]
    decide
  · rw [getSpecifiedDelta_toBeforeSwapDelta]
    constructor
    · intro same
      have most := BitVec.toInt_lt (x := fee.setWidth 128)
      omega
    · exact toInt_setWidth_of_lt

theorem told_unspecified (fee : U256) : getUnspecifiedDelta (deltaBeforeSwap fee) = 0 := by
  unfold deltaBeforeSwap
  split
  · rfl
  · exact getUnspecifiedDelta_toBeforeSwapDelta _ _

theorem told_afterSwap {params : SwapParams} {amount0 : BitVec 128} {after : U256}
    (takenAfter : feeAfterSwap params amount0 = .ok after) :
    (deltaAfterSwap after).toInt = after.toNat := by
  rw [feeAfterSwap_ok] at takenAfter
  split at takenAfter
  · rw [takenAfter]
    rfl
  · have small := natAbs_lt takenAfter.1
    exact toInt_setWidth_of_lt (by omega)

/-- Which hook charges what, one percent rounded down: before the swap a buy that specifies
its input, of what it specifies, and after it any other one, of what the pool has computed.
The pool is told so as long as the fee is not of half the width. -/
theorem swap_charged_iff (params : SwapParams) (amount0 : BitVec 128) (before after : U256) :
    (feeBeforeSwap params = .ok before ∧ feeAfterSwap params amount0 = .ok after ↔
      if params.zeroForOne = true ∧ params.amountSpecified.toInt < 0 then
        100 * params.amountSpecified.toInt.natAbs < 2 ^ 256 ∧
          before.toNat = params.amountSpecified.toInt.natAbs / 100 ∧ after = 0
      else (params.zeroForOne = true ∨ params.amountSpecified.toInt < 0) ∧
        amount0 ≠ BitVec.intMin 128 ∧ before = 0 ∧ after.toNat = amount0.toInt.natAbs / 100) ∧
    ((getSpecifiedDelta (deltaBeforeSwap before)).toInt = before.toNat ↔ before.toNat < 2 ^ 127) ∧
    getUnspecifiedDelta (deltaBeforeSwap before) = 0 ∧
    (feeAfterSwap params amount0 = .ok after → (deltaAfterSwap after).toInt = after.toNat) :=
  ⟨charged_iff, told_beforeSwap_iff before, told_unspecified before, told_afterSwap⟩

end HashMiner.Contract
