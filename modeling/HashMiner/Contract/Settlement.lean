import HashMiner.Contract.Hooks

/-!
# Swaps that are settled

A swap asks the contract before and after it. The pool manager adds what the contract answers
to the amounts of the swap: it accounts that to the contract, and the rest to who swaps.
-/

namespace HashMiner.Contract.Hooks

open Foundation Hash Erc20

/-! ## Signed amounts -/

/-- The sum of two signed integers, when it is one. -/
def addSigned {w : Nat} (a b : BitVec w) : Except Error (BitVec w) :=
  if a.saddOverflow b then .error .overflow else .ok (a + b)

/-- `SafeCast.toInt128` -/
def toInt128 (x : BitVec 256) : Except Error (BitVec 128) := do
  let y := x.setWidth 128
  revertIf (y.signExtend 256 ≠ x) .safeCastOverflow
  return y

/-- Two signed amounts in one word. -/
def toBalanceDelta (amount0 amount1 : BitVec 128) : BitVec 256 :=
  (amount0.signExtend 256 <<< 128) ||| (((1 <<< 128) - 1) &&& amount1.signExtend 256)

/-- `BalanceDelta.amount1` -/
def amount1 (delta : BitVec 256) : BitVec 128 := delta.setWidth 128

/-- The difference of two pairs of amounts. -/
def sub (a b : BitVec 256) : Except Error (BitVec 256) := do
  let a0 := a.sshiftRight 128
  let a1 := (a.setWidth 128).signExtend 256
  let b0 := b.sshiftRight 128
  let b1 := (b.setWidth 128).signExtend 256
  let res0 ← toInt128 (a0 - b0)
  let res1 ← toInt128 (a1 - b1)
  return toBalanceDelta res0 res1

theorem amount0_toBalanceDelta (a b : BitVec 128) : amount0 (toBalanceDelta a b) = a :=
  getSpecifiedDelta_toBeforeSwapDelta a b

theorem amount1_toBalanceDelta (a b : BitVec 128) : amount1 (toBalanceDelta a b) = b :=
  getUnspecifiedDelta_toBeforeSwapDelta a b

theorem toInt_addSigned {w : Nat} {a b c : BitVec w} (added : addSigned a b = .ok c) :
    c.toInt = a.toInt + b.toInt := by
  unfold addSigned at added
  split at added
  · cases added
  · next fits =>
    cases added
    exact BitVec.toInt_add_of_not_saddOverflow fits

theorem toInt_extended (x : BitVec 128) : (x.signExtend 256).toInt = x.toInt :=
  BitVec.toInt_signExtend_of_le (by decide)

theorem toInt_toInt128 {x : BitVec 256} {y : BitVec 128} (cast : toInt128 x = .ok y) :
    y.toInt = x.toInt := by
  obtain ⟨_, fits, same⟩ := bind_returns.mp cast
  cases same
  have extended := not_not.mp (revertIf_ok.mp fits)
  calc (x.setWidth 128).toInt = ((x.setWidth 128).signExtend 256).toInt := (toInt_extended _).symm
    _ = x.toInt := congrArg BitVec.toInt extended

theorem toInt128_extended (x : BitVec 128) : toInt128 (x.signExtend 256) = .ok x := by
  have same : (x.signExtend 256).setWidth 128 = x := by
    apply BitVec.eq_of_getLsbD_eq
    intro i within
    have inside : i < 256 := by omega
    rw [BitVec.getLsbD_setWidth, BitVec.getLsbD_signExtend]
    simp [within, inside]
  simp only [toInt128, same, ne_eq, not_true, revertIf_of_not, not_false_eq_true, ok_bind]
  rfl

theorem toInt128_of_fits {x : BitVec 256} (least : -2 ^ 127 ≤ x.toInt) (most : x.toInt < 2 ^ 127) :
    toInt128 x = .ok (BitVec.ofInt 128 x.toInt) := by
  have same : (BitVec.ofInt 128 x.toInt).signExtend 256 = x := by
    apply BitVec.eq_of_toInt_eq
    rw [toInt_extended]
    exact BitVec.toInt_ofInt_eq_self (by decide) least most
  calc toInt128 x = toInt128 ((BitVec.ofInt 128 x.toInt).signExtend 256) := by rw [same]
    _ = .ok (BitVec.ofInt 128 x.toInt) := toInt128_extended _

theorem sshiftRight_eq (delta : BitVec 256) :
    delta.sshiftRight 128 = (amount0 delta).signExtend 256 := by
  apply BitVec.eq_of_getLsbD_eq
  intro i within
  rw [amount0, BitVec.getLsbD_signExtend, BitVec.getLsbD_setWidth, BitVec.getLsbD_sshiftRight]
  by_cases low : i < 128
  · have inside : 128 + i < 256 := by omega
    simp [within, low, inside]
  · have outside : ¬ 128 + i < 256 := by omega
    have inside : ¬ 256 ≤ i := by omega
    simp [within, low, outside, inside, BitVec.msb_eq_getLsbD_last, BitVec.getElem_sshiftRight]

theorem toInt_extended_sub (a b : BitVec 128) :
    (a.signExtend 256 - b.signExtend 256).toInt = a.toInt - b.toInt := by
  have most := a.toInt_lt
  have least := a.le_toInt
  have most' := b.toInt_lt
  have least' := b.le_toInt
  rw [BitVec.toInt_sub, toInt_extended, toInt_extended]
  exact Int.bmod_eq_of_le (by omega) (by omega)

theorem toInt_sub {a b c : BitVec 256} (subtracted : sub a b = .ok c) :
    (amount0 c).toInt = (amount0 a).toInt - (amount0 b).toInt ∧
      (amount1 c).toInt = (amount1 a).toInt - (amount1 b).toInt := by
  obtain ⟨res0, cast0, rest⟩ := bind_returns.mp subtracted
  obtain ⟨res1, cast1, same⟩ := bind_returns.mp rest
  cases same
  rw [amount0_toBalanceDelta, amount1_toBalanceDelta, toInt_toInt128 cast0, toInt_toInt128 cast1,
    sshiftRight_eq, sshiftRight_eq]
  exact ⟨toInt_extended_sub _ _, toInt_extended_sub _ _⟩

theorem sub_of_fits {a b : BitVec 256}
    (least : -2 ^ 127 ≤ (amount0 a).toInt - (amount0 b).toInt)
    (most : (amount0 a).toInt - (amount0 b).toInt < 2 ^ 127) (token : amount1 b = 0) :
    ∃ c, sub a b = .ok c := by
  have currency := toInt_extended_sub (amount0 a) (amount0 b)
  have first := toInt128_of_fits (currency ▸ least) (currency ▸ most)
  have second : toInt128 ((a.setWidth 128).signExtend 256 - (b.setWidth 128).signExtend 256) =
      .ok (amount1 a) := by
    rw [show b.setWidth 128 = 0 from token, show (0 : BitVec 128).signExtend 256 = 0 from rfl,
      sub_zero]
    exact toInt128_extended _
  rw [sub, sshiftRight_eq, sshiftRight_eq, first, second]
  exact ⟨_, rfl⟩

/-! ## What the contract answers -/

section Answers

variable (d : Deployment) (b : Block) (s : State) (sender : Address)

/-- What a call of a hook returns, and how much of the currency the contract has the pool
manager pay out to it before. Others may have acted when that is done. -/
inductive Answers (call : Hash.Call) : Returned → U256 → Prop
  | atOnce (t : State) (returned : Returned) : start d b s sender call = .ok (.done t returned) →
      Answers call returned 0
  | taken (t t' u : State) (returned : Returned) (origin : Address) (fee : U256) :
      start d b s sender call = .ok (.waits t (.takeBeforeSwap origin fee)) →
      resume d b t' (.takeBeforeSwap origin fee) = .ok (.done u returned) →
      Answers call returned fee
  | takenAfter (t t' u : State) (returned : Returned) (origin : Address) (isBuy : Bool)
      (fee : U256) :
      start d b s sender call = .ok (.waits t (.takeAfterSwap origin isBuy fee)) →
      resume d b t' (.takeAfterSwap origin isBuy fee) = .ok (.done u returned) →
      Answers call returned fee

variable {d b s sender} {origin : Address} {params : SwapParams} {returned : Returned} {fee : U256}

theorem start_beforeSwap {turn : Outcome State Pending Returned}
    (started : start d b s sender (.beforeSwap origin params) = .ok turn) :
    ∃ fee, feeBeforeSwap params = .ok fee ∧ turn =
      if fee = 0 then .done (leave { s with entered := true }) (.beforeSwap (deltaBeforeSwap fee))
      else .waits { s with entered := true } (.takeBeforeSwap origin fee) := by
  obtain ⟨t, entered, rest⟩ := bind_returns.mp started
  obtain ⟨_, entered, same⟩ := bind_returns.mp entered
  cases same
  obtain ⟨_, manager, rest⟩ := bind_returns.mp rest
  obtain ⟨_, complete, rest⟩ := bind_returns.mp rest
  obtain ⟨fee, computed, rest⟩ := bind_returns.mp rest
  refine ⟨fee, computed, ?_⟩
  by_cases zero : fee = 0
  · rw [if_pos zero] at rest ⊢
    cases rest
    rfl
  · rw [if_neg zero] at rest ⊢
    cases rest
    rfl

theorem start_afterSwap {delta : BitVec 256} {turn : Outcome State Pending Returned}
    (started : start d b s sender (.afterSwap origin params delta) = .ok turn) :
    ∃ fee, feeAfterSwap params (amount0 delta) = .ok fee ∧
      turn = if fee = 0 then .done s (.afterSwap (deltaAfterSwap fee))
        else .waits s (.takeAfterSwap origin params.zeroForOne fee) := by
  obtain ⟨_, manager, rest⟩ := bind_returns.mp started
  obtain ⟨fee, computed, rest⟩ := bind_returns.mp rest
  refine ⟨fee, computed, ?_⟩
  by_cases zero : fee = 0
  · rw [if_pos zero] at rest ⊢
    cases rest
    rfl
  · rw [if_neg zero] at rest ⊢
    cases rest
    rfl

theorem Answers.beforeSwap
    (answers : Answers d b s sender (.beforeSwap origin params) returned fee) :
    feeBeforeSwap params = .ok fee ∧ returned = .beforeSwap (deltaBeforeSwap fee) := by
  cases answers with
  | atOnce t _ started =>
    obtain ⟨fee, computed, same⟩ := start_beforeSwap started
    split at same <;> cases same
    next zero => exact ⟨zero ▸ computed, by rw [zero]⟩
  | taken t t' u _ origin' _ started resumed =>
    obtain ⟨fee, computed, same⟩ := start_beforeSwap started
    split at same <;> cases same
    cases resumed
    exact ⟨computed, rfl⟩
  | takenAfter t t' u _ origin' isBuy _ started =>
    obtain ⟨fee, computed, same⟩ := start_beforeSwap started
    split at same <;> cases same

theorem Answers.afterSwap {delta : BitVec 256}
    (answers : Answers d b s sender (.afterSwap origin params delta) returned fee) :
    feeAfterSwap params (amount0 delta) = .ok fee ∧
      returned = .afterSwap (deltaAfterSwap fee) := by
  cases answers with
  | atOnce t _ started =>
    obtain ⟨fee, computed, same⟩ := start_afterSwap started
    split at same <;> cases same
    next zero => exact ⟨zero ▸ computed, by rw [zero]⟩
  | taken t t' u _ origin' _ started resumed =>
    obtain ⟨fee, computed, same⟩ := start_afterSwap started
    split at same <;> cases same
  | takenAfter t t' u _ origin' isBuy _ started resumed =>
    obtain ⟨fee, computed, same⟩ := start_afterSwap started
    split at same <;> cases same
    cases resumed
    exact ⟨computed, rfl⟩

end Answers

/-! ## The calls of the pool manager -/

/-- `LPFeeLibrary.isDynamicFee` -/
def isDynamicFee (fee : BitVec 24) : Bool := fee == 0x800000

/-- `Hooks.beforeSwap`, called by `sender`. -/
def beforeSwap (self sender : Address) (fee : BitVec 24) (params : SwapParams)
    (hook : Except Failure (BitVec 256 × BitVec 24)) :
    Except Error (BitVec 256 × BitVec 256 × BitVec 24) := do
  if sender = self then return (params.amountSpecified, 0, 0)
  else if hasPermission self beforeSwapFlag then
    let (delta, lpFee) ← hook.mapError .hookCallFailed
    let lpFeeOverride := if isDynamicFee fee then lpFee else 0
    if hasPermission self beforeSwapReturnsDeltaFlag then
      let hookDeltaSpecified := getSpecifiedDelta delta
      if hookDeltaSpecified ≠ 0 then
        let exactInput : Bool := params.amountSpecified.toInt < 0
        let amountToSwap ← addSigned params.amountSpecified (hookDeltaSpecified.signExtend 256)
        revertIf (if exactInput then 0 < amountToSwap.toInt else amountToSwap.toInt < 0)
          Error.hookDeltaExceedsSwapAmount
        return (amountToSwap, delta, lpFeeOverride)
      else return (params.amountSpecified, delta, lpFeeOverride)
    else return (params.amountSpecified, 0, lpFeeOverride)
  else return (params.amountSpecified, 0, 0)

/-- `callHookWithReturnDelta` of a hook that returns one signed amount. -/
def callHookWithReturnDelta (hook : Except Failure (BitVec 128)) (parseReturn : Bool) :
    Except Error (BitVec 256) := do
  let result ← hook.mapError .hookCallFailed
  return if parseReturn then result.signExtend 256 else 0

/-- The amounts of the hooks, in the order of the two currencies. -/
def hookDeltaOf (params : SwapParams) (hookDeltaSpecified hookDeltaUnspecified : BitVec 128) :
    BitVec 256 :=
  if decide (params.amountSpecified.toInt < 0) = params.zeroForOne then
    toBalanceDelta hookDeltaSpecified hookDeltaUnspecified
  else toBalanceDelta hookDeltaUnspecified hookDeltaSpecified

/-- `Hooks.afterSwap`: what is accounted to the caller and to the contract. -/
def afterSwap (self sender : Address) (params : SwapParams) (swapDelta : BitVec 256)
    (beforeSwapHookReturn : BitVec 256) (hook : Except Failure (BitVec 128)) :
    Except Error (BitVec 256 × BitVec 256) := do
  if sender = self then return (swapDelta, 0)
  else
    let hookDeltaSpecified := getSpecifiedDelta beforeSwapHookReturn
    let hookDeltaUnspecified ←
      if hasPermission self afterSwapFlag then do
        let result ← callHookWithReturnDelta hook (hasPermission self afterSwapReturnsDeltaFlag)
        let returned ← toInt128 result
        addSigned (getUnspecifiedDelta beforeSwapHookReturn) returned
      else pure (getUnspecifiedDelta beforeSwapHookReturn)
    if hookDeltaUnspecified ≠ 0 ∨ hookDeltaSpecified ≠ 0 then
      let hookDelta := hookDeltaOf params hookDeltaSpecified hookDeltaUnspecified
      let swapDelta ← sub swapDelta hookDelta
      return (swapDelta, hookDelta)
    else return (swapDelta, 0)

/-! ## What a swap costs -/

section Settlement

variable {self sender : Address} {params : SwapParams} {fee : U256}

theorem hasPermission_of_low (hooked : (word self).setWidth 14 = 0x20cc) (i : Nat)
    (within : i < 14) : hasPermission self (flag i) = (0x20cc : BitVec 14).getLsbD i := by
  rw [hasPermission_flag self i (by omega)]
  exact (low_bits_iff _).mp hooked i within

theorem feeBeforeSwap_part (computed : feeBeforeSwap params = .ok fee) :
    fee = 0 ∨ params.amountSpecified.toInt < 0 ∧
      fee.toNat = params.amountSpecified.toInt.natAbs / 100 ∧
      100 * params.amountSpecified.toInt.natAbs < 2 ^ 256 := by
  rw [feeBeforeSwap_ok] at computed
  split at computed
  · next exactInput => exact .inr ⟨exactInput.2, computed.2, computed.1⟩
  · exact .inl computed.2

theorem told_le (fee : U256) : (getSpecifiedDelta (deltaBeforeSwap fee)).toInt ≤ fee.toNat := by
  by_cases small : fee.toNat < 2 ^ 127
  · exact le_of_eq ((told_beforeSwap_iff fee).mpr small)
  · have most := (getSpecifiedDelta (deltaBeforeSwap fee)).toInt_lt
    omega

/-- The fee is part of the amount, and the swap stays of its kind. -/
theorem beforeSwap_answered (hooked : (word self).setWidth 14 = 0x20cc) (other : sender ≠ self)
    (computed : feeBeforeSwap params = .ok fee) (lpFee : BitVec 24) :
    ∃ amountToSwap, beforeSwap self sender lpFee params (.ok (deltaBeforeSwap fee, 0)) =
        .ok (amountToSwap, deltaBeforeSwap fee, 0) ∧
      amountToSwap.toInt =
        params.amountSpecified.toInt + (getSpecifiedDelta (deltaBeforeSwap fee)).toInt := by
  have called : hasPermission self beforeSwapFlag = true :=
    hasPermission_of_low hooked 7 (by decide)
  have returns : hasPermission self beforeSwapReturnsDeltaFlag = true :=
    hasPermission_of_low hooked 3 (by decide)
  have told := told_le fee
  have least := (getSpecifiedDelta (deltaBeforeSwap fee)).le_toInt
  have noOverride : (if isDynamicFee lpFee then 0 else 0 : BitVec 24) = 0 := ite_self _
  rw [beforeSwap, if_neg other, if_pos called]
  simp only [Except.mapError, ok_bind, if_pos returns, noOverride]
  by_cases zero : getSpecifiedDelta (deltaBeforeSwap fee) = 0
  · rw [if_neg (not_not.mpr zero), zero]
    exact ⟨_, rfl, (Int.add_zero _).symm⟩
  · rw [if_pos zero]
    rcases feeBeforeSwap_part computed with rfl | ⟨negative, part, fits⟩
    · exact absurd rfl zero
    · have sum : addSigned params.amountSpecified
          ((getSpecifiedDelta (deltaBeforeSwap fee)).signExtend 256) = .ok (params.amountSpecified +
            (getSpecifiedDelta (deltaBeforeSwap fee)).signExtend 256) := by
        refine if_neg fun outside => ?_
        rw [BitVec.saddOverflow, toInt_extended, Bool.or_eq_true, decide_eq_true_eq,
          decide_eq_true_eq] at outside
        omega
      have value := (toInt_addSigned sum).trans (congrArg (_ + ·) (toInt_extended _))
      refine ⟨_, ?_, value⟩
      rw [sum, ok_bind, revertIf_of_not, ok_bind]
      · rfl
      · rw [decide_eq_true negative, if_pos rfl, value]
        omega

/-- A swap is charged by the hook on the currency's side of it. -/
theorem charged_side {currency : BitVec 128} {before after : U256}
    (taken : feeBeforeSwap params = .ok before)
    (takenAfter : feeAfterSwap params currency = .ok after) :
    if decide (params.amountSpecified.toInt < 0) = params.zeroForOne then after = 0
    else before = 0 := by
  have charged := charged_iff.mp ⟨taken, takenAfter⟩
  split
  · next same =>
    rw [feeAfterSwap_ok, if_pos same.symm] at takenAfter
    exact takenAfter
  · next other =>
    rw [if_neg fun both => other ((decide_eq_true both.2).trans both.1.symm)] at charged
    exact charged.2.2.1

theorem addSigned_zero (x : BitVec 128) : addSigned 0 x = .ok x := by
  have most := x.toInt_lt
  have least := x.le_toInt
  have fits : ¬ (0 : BitVec 128).saddOverflow x := by
    rw [BitVec.saddOverflow, Bool.or_eq_true, decide_eq_true_eq, decide_eq_true_eq]
    have zero : (0 : BitVec 128).toInt = 0 := rfl
    omega
  rw [addSigned, if_neg fits, zero_add]

/-- What the manager charges the contract, when this has answered so. -/
def charge (delta : BitVec 256) (unspecified : BitVec 128) : Int :=
  (getSpecifiedDelta delta).toInt + unspecified.toInt

/-- Both hooks' amounts are one amount of the currency. -/
theorem hookDeltaOf_amounts {delta : BitVec 256} {unspecified : BitVec 128}
    (side : if decide (params.amountSpecified.toInt < 0) = params.zeroForOne then unspecified = 0
      else getSpecifiedDelta delta = 0) :
    (amount0 (hookDeltaOf params (getSpecifiedDelta delta) unspecified)).toInt =
        charge delta unspecified ∧
      amount1 (hookDeltaOf params (getSpecifiedDelta delta) unspecified) = 0 := by
  unfold hookDeltaOf charge
  split at side
  · next same =>
    rw [if_pos same, amount0_toBalanceDelta, amount1_toBalanceDelta, side]
    exact ⟨(Int.add_zero _).symm, rfl⟩
  · next other =>
    rw [if_neg other, amount0_toBalanceDelta, amount1_toBalanceDelta, side]
    exact ⟨(Int.zero_add _).symm, rfl⟩

/-- What is left of the amounts of a swap is accounted to the caller, if it fits. -/
theorem sub_hookDeltaOf (swapDelta : BitVec 256) {hookDelta : BitVec 256} {charged : Int}
    (currency : (amount0 hookDelta).toInt = charged) (token : amount1 hookDelta = 0) :
    ((∃ callerDelta, sub swapDelta hookDelta = .ok callerDelta) ↔
      -2 ^ 127 ≤ (amount0 swapDelta).toInt - charged ∧
        (amount0 swapDelta).toInt - charged < 2 ^ 127) ∧
      ∀ callerDelta, sub swapDelta hookDelta = .ok callerDelta →
        (amount0 callerDelta).toInt = (amount0 swapDelta).toInt - charged ∧
          amount1 callerDelta = amount1 swapDelta := by
  subst currency
  refine ⟨⟨?_, fun fits => sub_of_fits fits.1 fits.2 token⟩, fun callerDelta subtracted => ?_⟩
  · rintro ⟨callerDelta, subtracted⟩
    rw [← (toInt_sub subtracted).1]
    exact ⟨(amount0 callerDelta).le_toInt, (amount0 callerDelta).toInt_lt⟩
  · obtain ⟨left0, left1⟩ := toInt_sub subtracted
    refine ⟨left0, BitVec.eq_of_toInt_eq ?_⟩
    rw [left1, token]
    exact Int.sub_zero _

theorem afterSwap_answered (hooked : (word self).setWidth 14 = 0x20cc) (other : sender ≠ self)
    {swapDelta delta : BitVec 256} {unspecified : BitVec 128}
    (alone : getUnspecifiedDelta delta = 0)
    (side : if decide (params.amountSpecified.toInt < 0) = params.zeroForOne then unspecified = 0
      else getSpecifiedDelta delta = 0) :
    ((∃ deltas, afterSwap self sender params swapDelta delta (.ok unspecified) = .ok deltas) ↔
      -2 ^ 127 ≤ (amount0 swapDelta).toInt - charge delta unspecified ∧
        (amount0 swapDelta).toInt - charge delta unspecified < 2 ^ 127) ∧
      ∀ callerDelta hookDelta, afterSwap self sender params swapDelta delta (.ok unspecified) =
          .ok (callerDelta, hookDelta) →
        (amount0 hookDelta).toInt = charge delta unspecified ∧ amount1 hookDelta = 0 ∧
          (amount0 callerDelta).toInt = (amount0 swapDelta).toInt - charge delta unspecified ∧
          amount1 callerDelta = amount1 swapDelta := by
  have called : hasPermission self afterSwapFlag = true :=
    hasPermission_of_low hooked 6 (by decide)
  have returns : hasPermission self afterSwapReturnsDeltaFlag = true :=
    hasPermission_of_low hooked 2 (by decide)
  obtain ⟨currency, token⟩ := hookDeltaOf_amounts side
  obtain ⟨settles, left⟩ := sub_hookDeltaOf swapDelta currency token
  rw [afterSwap, if_neg other, if_pos called]
  simp only [callHookWithReturnDelta, Except.mapError, ok_bind, returns, if_true, pure,
    Except.pure, toInt128_extended, alone, addSigned_zero]
  split
  · refine ⟨?_, fun callerDelta hookDelta settled => ?_⟩
    · rw [← settles]
      constructor
      · rintro ⟨deltas, settled⟩
        obtain ⟨callerDelta, subtracted, _⟩ := bind_returns.mp settled
        exact ⟨callerDelta, subtracted⟩
      · rintro ⟨callerDelta, subtracted⟩
        exact ⟨_, bind_returns.mpr ⟨callerDelta, subtracted, rfl⟩⟩
    · obtain ⟨rest, subtracted, same⟩ := bind_returns.mp settled
      cases same
      exact ⟨currency, token, left _ subtracted⟩
  · next nothing =>
    obtain ⟨noAfter, noBefore⟩ := not_or.mp nothing
    have none : charge delta unspecified = 0 := by
      rw [charge, not_not.mp noAfter, not_not.mp noBefore]
      rfl
    rw [none, Int.sub_zero]
    refine ⟨⟨fun _ => ⟨(amount0 swapDelta).le_toInt, (amount0 swapDelta).toInt_lt⟩,
      fun _ => ⟨_, rfl⟩⟩, fun callerDelta hookDelta settled => ?_⟩
    cases settled
    exact ⟨rfl, rfl, rfl, rfl⟩

end Settlement

/-- A swap that somebody else makes goes through the hooks of the contract: they take one
percent of what a buy specifies as its input, or of what the pool has computed for another
swap. The contract is charged what it has taken as long as that fits, and who swaps bears
this in the currency alone. The manager turns down no answer, but for amounts that do not
fit. -/
theorem swap_settles {c : Creation} {d : Deployment} (built : construct c = .ok d)
    {b b' : Block} {s s' : State} {origin : Address} (other : origin ≠ d.self)
    {params : SwapParams} {delta swapDelta : BitVec 256} {unspecified : BitVec 128}
    {before after : U256}
    (answers : Answers d b s d.poolManager (.beforeSwap origin params) (.beforeSwap delta) before)
    (answersAfter : Answers d b' s' d.poolManager (.afterSwap origin params swapDelta)
      (.afterSwap unspecified) after) (lpFee : BitVec 24) :
    before.toNat + after.toNat = feeBase params (amount0 swapDelta) / 100 ∧
      (charge delta unspecified = before.toNat + after.toNat ↔ before.toNat < 2 ^ 127) ∧
      (∃ amountToSwap, beforeSwap d.self origin lpFee params (.ok (delta, 0)) =
          .ok (amountToSwap, delta, 0) ∧
        amountToSwap.toInt = params.amountSpecified.toInt + (getSpecifiedDelta delta).toInt) ∧
      ((∃ deltas, afterSwap d.self origin params swapDelta delta (.ok unspecified) = .ok deltas) ↔
        -2 ^ 127 ≤ (amount0 swapDelta).toInt - charge delta unspecified ∧
          (amount0 swapDelta).toInt - charge delta unspecified < 2 ^ 127) ∧
      ∀ callerDelta hookDelta, afterSwap d.self origin params swapDelta delta (.ok unspecified) =
          .ok (callerDelta, hookDelta) →
        (amount0 hookDelta).toInt = charge delta unspecified ∧ amount1 hookDelta = 0 ∧
          (amount0 callerDelta).toInt = (amount0 swapDelta).toInt - charge delta unspecified ∧
          amount1 callerDelta = amount1 swapDelta := by
  obtain ⟨_, _, _, same, low⟩ := construct_ok built
  have hooked := same ▸ low
  obtain ⟨taken, told⟩ := answers.beforeSwap
  obtain ⟨takenAfter, toldAfter⟩ := answersAfter.afterSwap
  cases told
  cases toldAfter
  have side : if decide (params.amountSpecified.toInt < 0) = params.zeroForOne then
      deltaAfterSwap after = 0 else getSpecifiedDelta (deltaBeforeSwap before) = 0 := by
    have charged := charged_side taken takenAfter
    split at charged
    · next buys => rw [if_pos buys, charged]; rfl
    · next sells => rw [if_neg sells, charged]; rfl
  refine ⟨fees_eq taken takenAfter, ?_, beforeSwap_answered hooked other taken lpFee,
    afterSwap_answered hooked other (told_unspecified before) side⟩
  rw [← told_beforeSwap_iff before, charge, told_afterSwap takenAfter]
  constructor <;> intro same <;> omega

/-- A creation at the address on the chain. -/
def chainCreation : Creation :=
  ⟨1, Chain.contract, Chain.layoutMiner, Chain.layoutMiner, Chain.layoutMiner, Chain.layoutMiner, 0⟩

theorem layoutMiner_ne : Chain.layoutMiner ≠ zeroAddress := by decide

def chainDeployment : Deployment where
  chainId := 1
  self := Chain.contract
  poolManager := Chain.layoutMiner
  positionManager := Chain.layoutMiner
  permit2 := Chain.layoutMiner
  controller := Chain.layoutMiner
  deployedAt := 0
  self_ne := ne_zeroAddress low_contract
  poolManager_ne := layoutMiner_ne
  positionManager_ne := layoutMiner_ne
  permit2_ne := layoutMiner_ne

/-- The state in which the genesis is complete. -/
def openedState : State :=
  { State.initial 0 with mining := { (State.initial 0).mining with genesisComplete := true } }

/-- A swap of 10000 wei. -/
def exactInput : SwapParams := ⟨true, BitVec.ofInt 256 (-10000)⟩

theorem feeBeforeSwap_exactInput : feeBeforeSwap exactInput = .ok 100 := by
  rw [feeBeforeSwap_eq, if_pos (by decide), show exactInput.zeroForOne = true from rfl, if_pos rfl,
    if_neg (by decide)]
  exact congrArg Except.ok (by decide)

theorem start_exactInput :
    start chainDeployment ⟨0, 0⟩ openedState Chain.layoutMiner
      (.beforeSwap zeroAddress exactInput) =
      .ok (.waits { openedState with entered := true } (.takeBeforeSwap zeroAddress 100)) := by
  have entered : enter openedState = .ok { openedState with entered := true } := rfl
  rw [start, Hash.beforeSwap, entered, ok_bind, feeBeforeSwap_exactInput]
  rfl

/-- Who swaps 10000 wei gives 9900 of them to the pool and 100 to the contract. -/
theorem swap_settles_exactInput :
    construct chainCreation = .ok chainDeployment ∧ ∃ callerDelta hookDelta,
      afterSwap Chain.contract zeroAddress exactInput
        (toBalanceDelta (BitVec.ofInt 128 (-9900)) 5) (deltaBeforeSwap 100) (.ok 0) =
          .ok (callerDelta, hookDelta) ∧
      (amount0 hookDelta).toInt = 100 ∧ (amount0 callerDelta).toInt = -10000 := by
  have built : construct chainCreation = .ok chainDeployment := rfl
  have answers : Answers chainDeployment ⟨0, 0⟩ openedState Chain.layoutMiner
      (.beforeSwap zeroAddress exactInput) (.beforeSwap (deltaBeforeSwap 100)) 100 :=
    .taken { openedState with entered := true } openedState _ _ zeroAddress 100 start_exactInput rfl
  have answersAfter : Answers chainDeployment ⟨0, 0⟩ openedState Chain.layoutMiner
      (.afterSwap zeroAddress exactInput (toBalanceDelta (BitVec.ofInt 128 (-9900)) 5))
      (.afterSwap 0) 0 :=
    .atOnce openedState _ rfl
  have other : zeroAddress ≠ chainDeployment.self := by decide
  obtain ⟨_, charged, _, settles, left⟩ := swap_settles built other answers answersAfter 0
  have fee : charge (deltaBeforeSwap 100) 0 = 100 := charged.mpr (by decide)
  rw [fee, amount0_toBalanceDelta] at settles left
  obtain ⟨⟨callerDelta, hookDelta⟩, settled⟩ := settles.mpr (by decide)
  obtain ⟨currency, _, rest, _⟩ := left _ _ settled
  exact ⟨built, callerDelta, hookDelta, settled, currency, rest.trans (by decide)⟩

end HashMiner.Contract.Hooks
