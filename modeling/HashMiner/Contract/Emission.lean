import HashMiner.Contract.FullMath

/-!
# Emission and difficulty

The numbers that the storage of the mining part stands for, and what a call of `mine`
makes of them.
-/

namespace HashMiner.Contract

open Foundation Chain

/-- The reward of the `n`-th mint. -/
def reward (n : Nat) : Nat := 100 * 10 ^ 18 / 2 ^ (n / 100000)

/-- What the first `n` mints bring. -/
def emitted (n : Nat) : Nat := ∑ k ∈ Finset.range n, reward (k + 1)

/-- The mint that exhausts the supply. -/
def lastMint : Nat := 424015

theorem emitted_succ (n : Nat) : emitted (n + 1) = emitted n + reward (n + 1) :=
  Finset.sum_range_succ ..

theorem emitted_mono {m n : Nat} (le : m ≤ n) : emitted m ≤ emitted n :=
  Finset.sum_le_sum_of_subset (Finset.range_mono le)

/-- The first era is a mint shorter than the others. -/
theorem emitted_eras (n eras rest : Nat) (mints : n + 1 = 100000 * eras + rest)
    (within : rest ≤ 100000) :
    emitted n + 100 * 10 ^ 18 =
      100000 * ∑ era ∈ Finset.range eras, 100 * 10 ^ 18 / 2 ^ era +
        rest * (100 * 10 ^ 18 / 2 ^ eras) := by
  rw [← sum_div_range (fun era => 100 * 10 ^ 18 / 2 ^ era) 100000 eras within, ← mints,
    Finset.sum_range_succ']
  rfl

theorem emitted_lastMint : emitted lastMint = miningSupply.toNat := by
  have whole := emitted_eras lastMint 4 24016 rfl (by decide)
  have eras : ∑ era ∈ Finset.range 4, 100 * 10 ^ 18 / 2 ^ era = 187500000000000000000 := by decide
  have supply : miningSupply.toNat = 18900000 * 10 ^ 18 := by decide
  rw [eras] at whole
  rw [supply]
  -- as a number, the sum would be evaluated term by term
  generalize emitted lastMint = total at whole ⊢
  omega

theorem reward_pos {n : Nat} (early : n ≤ lastMint) : 0 < reward n := by
  unfold reward lastMint at *
  have era : n / 100000 ≤ 4 := by omega
  refine Nat.div_pos ?_ (Nat.two_pow_pos _)
  calc 2 ^ (n / 100000) ≤ 2 ^ 4 := Nat.pow_le_pow_right (by decide) era
    _ ≤ 100 * 10 ^ 18 := by decide

/-- The supply is not exhausted before the last mint. -/
theorem emitted_lt_iff {n : Nat} (within : n ≤ lastMint) :
    emitted n < miningSupply.toNat ↔ n < lastMint := by
  rw [← emitted_lastMint]
  constructor
  · intro below
    refine Nat.lt_of_le_of_ne within ?_
    rintro rfl
    exact Nat.lt_irrefl _ below
  · intro before
    calc emitted n < emitted (n + 1) := by
          rw [emitted_succ]
          exact Nat.lt_add_of_pos_right (reward_pos before)
      _ ≤ emitted lastMint := emitted_mono before

theorem rewardOf_eq {total : U256} (within : total.toNat ≤ lastMint) :
    (rewardOf (total / eraMints)).toNat = reward total.toNat := by
  have period : eraMints.toNat = 100000 := rfl
  have era : (total / eraMints).toNat = total.toNat / 100000 := by
    rw [BitVec.toNat_udiv, period]
  have early : total / eraMints < 64 := by
    have bound : (64 : U256).toNat = 64 := rfl
    rw [BitVec.lt_def, era, bound]
    unfold lastMint at within
    omega
  have base : baseReward.toNat = 100 * 10 ^ 18 := by decide
  rw [rewardOf, if_pos early, BitVec.toNat_ushiftRight, era, base, Nat.shiftRight_eq_div_pow]
  rfl

/-- The next difficulty: within a factor four of the old one, and not zero. -/
def retarget (old taken : Nat) : Nat := max 1 (min (4 * old) (max (old / 4) (old * taken / 10080)))

theorem retarget_bounds {old taken : Nat} (positive : 0 < old) :
    old / 4 ≤ retarget old taken ∧ retarget old taken ≤ 4 * old ∧ 0 < retarget old taken := by
  unfold retarget
  omega

section Adjustment

variable (env : Env) (s : Storage)

/-- The blocks since the last adjustment. -/
def sinceBlock : Nat := env.blockNumber.toNat - s.lastAdjustmentBlock.toNat

/-- The arithmetic of an adjustment does not fit in words. -/
def Stuck : Prop :=
  2 ^ 256 ≤ s.currentDifficulty.toNat * 4 ∨
    2 ^ 256 ≤ s.currentDifficulty.toNat * sinceBlock env s / 10080

instance : Decidable (Stuck env s) := inferInstanceAs (Decidable (_ ∨ _))

variable {env s}

theorem toNat_atLeast (low x : U256) :
    (if x < low then low else x).toNat = max low.toNat x.toNat := by
  split
  · next below => exact (Nat.max_eq_left (Nat.le_of_lt below)).symm
  · next above => exact (Nat.max_eq_right (Nat.not_lt.mp above)).symm

theorem toNat_atMost (high x : U256) :
    (if high < x then high else x).toNat = min high.toNat x.toNat := by
  split
  · next above => exact (Nat.min_eq_left (Nat.le_of_lt above)).symm
  · next below => exact (Nat.min_eq_right (Nat.not_lt.mp below)).symm

theorem toNat_atLeast_one (x : U256) : (if x = 0 then 1 else x).toNat = max 1 x.toNat := by
  split
  · next zero =>
    rw [zero]
    rfl
  · next nonzero =>
    have positive : x.toNat ≠ 0 := fun zero => nonzero (BitVec.eq_of_toNat_eq zero)
    omega

/-- Without a block in between, the bound below takes the place of the quotient. -/
theorem scaled_ok {old taken : U256} (fits : old.toNat * taken.toNat / 10080 < 2 ^ 256) :
    ∃ next : U256, scaled old taken 10080 = .ok next ∧
      max (old.toNat / 4) next.toNat = max (old.toNat / 4) (old.toNat * taken.toNat / 10080) := by
  have target : (10080 : U256).toNat = 10080 := rfl
  have four : (4 : U256).toNat = 4 := rfl
  unfold scaled
  split
  · next zero =>
    refine ⟨old / 4, rfl, ?_⟩
    have nothing : taken.toNat = 0 := congrArg BitVec.toNat zero
    rw [BitVec.toNat_udiv, four, nothing, Nat.mul_zero, Nat.zero_div]
    omega
  · refine ⟨BitVec.ofNat 256 (old.toNat * taken.toNat / 10080), ?_, ?_⟩
    · rw [mulDiv, target]
      exact if_neg (not_or.mpr ⟨by decide, Nat.not_le.mpr fits⟩)
    · rw [BitVec.toNat_ofNat, Nat.mod_eq_of_lt fits]

theorem adjustDifficulty_ok (ordered : s.lastAdjustmentBlock.toNat ≤ env.blockNumber.toNat)
    (fits : ¬ Stuck env s) : ∃ next : U256,
      next.toNat = retarget s.currentDifficulty.toNat (sinceBlock env s) ∧
      adjustDifficulty env s = .ok ({ s with
        currentDifficulty := next
        lastAdjustmentMint := s.totalMints
        lastAdjustmentBlock := env.blockNumber },
        [.difficultyAdjusted s.currentDifficulty next
          (env.blockNumber - s.lastAdjustmentBlock)]) := by
  obtain ⟨small, quotient⟩ := not_or.mp fits
  rw [Nat.not_le] at small quotient
  have took : subChecked overflow env.blockNumber s.lastAdjustmentBlock = .ok _ :=
    subChecked_of_le ordered
  have taken := (toNat_of_subChecked took).2
  have target : mulChecked overflow adjustmentInterval targetBlocksPerMint = .ok 10080 := by decide
  have most : mulChecked overflow s.currentDifficulty 4 = .ok (s.currentDifficulty * 4) :=
    if_neg (Nat.not_le.mpr small)
  have four : (4 : U256).toNat = 4 := rfl
  rw [sinceBlock, ← taken] at quotient
  obtain ⟨next, scales, value⟩ := scaled_ok quotient
  refine ⟨_, ?_, by
    rw [adjustDifficulty, took, ok_bind, target, ok_bind, scales, ok_bind, most, ok_bind]
    rfl⟩
  rw [toNat_atLeast_one, toNat_atMost, toNat_atLeast, BitVec.toNat_mul, BitVec.toNat_udiv, four,
    value, taken, Nat.mod_eq_of_lt small, retarget, Nat.mul_comm 4]
  rfl

theorem adjustDifficulty_error (stuck : Stuck env s) : ∃ e, adjustDifficulty env s = .error e := by
  cases result : adjustDifficulty env s with
  | error e => exact ⟨e, rfl⟩
  | ok p =>
    exfalso
    simp only [adjustDifficulty] at result
    obtain ⟨taken, took, result⟩ := bind_returns.mp result
    obtain ⟨target, multiplied, result⟩ := bind_returns.mp result
    obtain ⟨next, scales, result⟩ := bind_returns.mp result
    obtain ⟨most, quadrupled, result⟩ := bind_returns.mp result
    have product : mulChecked overflow adjustmentInterval targetBlocksPerMint = .ok 10080 := by
      decide
    cases product.symm.trans multiplied
    rcases stuck with large | large
    · have failed : mulChecked overflow s.currentDifficulty 4 = .error overflow := if_pos large
      cases failed.symm.trans quadrupled
    · rw [sinceBlock, ← (toNat_of_subChecked took).2] at large
      have nonzero : taken ≠ 0 := by
        rintro rfl
        rw [show (0 : U256).toNat = 0 from rfl, Nat.mul_zero, Nat.zero_div] at large
        cases large
      rw [scaled, if_neg nonzero, mulDiv] at scales
      cases (if_pos (Or.inr large)).symm.trans scales

end Adjustment

/-! ## One call -/

/-- The hash of a proof, as a number. -/
def workOf (env : Env) (nonce : U256) : Nat :=
  B256.value (Keccak.keccak256 (Abi.encode innerTypes (challenge env env.sender, nonce, ⟨⟩)))

/-- A miner can use a nonce once in an epoch. -/
def proofKey (env : Env) (nonce : U256) : B256 :=
  Keccak.keccak256
    (Abi.encode [.address, Abi.uint256, Abi.uint256] (env.sender, nonce, epoch env, ⟨⟩))

/-- The storage in a block, as numbers. -/
structure Counts (s : Storage) (head : U256) : Prop where
  emission : s.totalMiningMinted.toNat = emitted s.totalMints.toNat
  within : s.totalMints.toNat ≤ lastMint
  room : ∀ b, (s.mintsInBlock b).toNat ≤ 10
  ahead : AtHead s head.toNat
  adjusted : s.lastAdjustmentMint.toNat ≤ s.totalMints.toNat
  recent : s.totalMints.toNat < s.lastAdjustmentMint.toNat + 2016
  ordered : s.lastAdjustmentBlock.toNat ≤ head.toNat
  pace : s.totalMints.toNat ≤ s.lastAdjustmentMint.toNat +
    10 * (head.toNat - s.lastAdjustmentBlock.toNat) + (s.mintsInBlock head).toNat

/-- The storage of a call once the mint is counted. -/
def counted (env : Env) (s : Storage) (nonce mints total : U256) : Storage :=
  { s with
    usedProofs := Function.update s.usedProofs (proofKey env nonce) true
    mintsInBlock := Function.update s.mintsInBlock env.blockNumber mints
    totalMints := total }

/-- The next mint adjusts the difficulty. -/
def Due (s : Storage) : Prop := s.totalMints.toNat + 1 = s.lastAdjustmentMint.toNat + 2016

instance (s : Storage) : Decidable (Due s) := inferInstanceAs (Decidable (_ = _))

section Call

variable {env : Env} {s t : Storage} {Ledger : Type} {token : Token Ledger}
variable {ledger ledger' : Ledger} {nonce : U256} {events : List Event}

/-- What a call needs to succeed. -/
structure Accepts (env : Env) (s : Storage) (token : Token Ledger) (ledger : Ledger)
    (nonce : U256) : Prop where
  genesis : s.genesisComplete = true
  supply : s.totalMints.toNat < lastMint
  room : (s.mintsInBlock env.blockNumber).toNat < 10
  work : workOf env nonce < s.currentDifficulty.toNat
  unused : s.usedProofs (proofKey env nonce) = false
  adjusts : Due s → ¬ Stuck env s
  pays : ∃ ledger', token.transfer env.self env.sender
    (BitVec.ofNat 256 (reward (s.totalMints.toNat + 1))) ledger = .ok ledger'

/-- What a call tells of an adjustment. -/
def adjustmentEvents (env : Env) (s t : Storage) : List Event :=
  if Due s then
    [.difficultyAdjusted s.currentDifficulty t.currentDifficulty
      (env.blockNumber - s.lastAdjustmentBlock)]
  else []

/-- What the `n`-th mint tells of a halving. -/
def halvingEvents (n : Nat) : List Event :=
  if n % 100000 = 0 then
    [.halving (BitVec.ofNat 256 (n / 100000)) (BitVec.ofNat 256 (reward n))]
  else []

/-- What a call that succeeds does. -/
structure Mined (env : Env) (s : Storage) (token : Token Ledger) (ledger : Ledger) (nonce : U256)
    (t : Storage) (ledger' : Ledger) (events : List Event) : Prop where
  genesis : t.genesisComplete = s.genesisComplete
  total : t.totalMints.toNat = s.totalMints.toNat + 1
  minted : t.totalMiningMinted.toNat = emitted t.totalMints.toNat
  mints : (t.mintsInBlock env.blockNumber).toNat = (s.mintsInBlock env.blockNumber).toNat + 1
  others : ∀ b, b ≠ env.blockNumber → t.mintsInBlock b = s.mintsInBlock b
  proofs : t.usedProofs = Function.update s.usedProofs (proofKey env nonce) true
  retargets : if Due s then
      t.currentDifficulty.toNat = retarget s.currentDifficulty.toNat (sinceBlock env s) ∧
        t.lastAdjustmentMint = t.totalMints ∧ t.lastAdjustmentBlock = env.blockNumber
    else
      t.currentDifficulty = s.currentDifficulty ∧
        t.lastAdjustmentMint = s.lastAdjustmentMint ∧
        t.lastAdjustmentBlock = s.lastAdjustmentBlock
  paid : token.transfer env.self env.sender
    (BitVec.ofNat 256 (reward (s.totalMints.toNat + 1))) ledger = .ok ledger'
  tells : events = adjustmentEvents env s t ++ halvingEvents t.totalMints.toNat ++
    [.mined env.sender nonce (BitVec.ofNat 256 (reward t.totalMints.toNat))
      (BitVec.ofNat 256 (t.totalMints.toNat / 100000))]

theorem era_eq (total : U256) : total / eraMints = BitVec.ofNat 256 (total.toNat / 100000) := by
  have period : eraMints.toNat = 100000 := rfl
  have word := total.isLt
  apply BitVec.eq_of_toNat_eq
  rw [BitVec.toNat_udiv, period, BitVec.toNat_ofNat, Nat.mod_eq_of_lt (by omega)]

theorem halvingEvents_eq {total reward' : U256} (some : 0 < total.toNat)
    (value : reward' = BitVec.ofNat 256 (reward total.toNat)) :
    (if 0 < total / eraMints ∧ total % eraMints = 0 then
      [Event.halving (total / eraMints) reward'] else []) = halvingEvents total.toNat := by
  have period : eraMints.toNat = 100000 := rfl
  have rest : total % eraMints = 0 ↔ total.toNat % 100000 = 0 := by
    rw [← BitVec.toNat_inj, BitVec.toNat_umod, period]
    rfl
  unfold halvingEvents
  by_cases whole : total.toNat % 100000 = 0
  · have positive : 0 < total / eraMints := by
      rw [BitVec.lt_def, BitVec.toNat_udiv, period]
      exact Nat.div_pos (by omega) (by decide)
    rw [if_pos ⟨positive, rest.mpr whole⟩, if_pos whole, ← era_eq, value]
  · rw [if_neg fun both => whole (rest.mp both.2), if_neg whole]

/-- Mining neither opens nor closes the genesis. -/
theorem mine_genesis (mined : mine env s token ledger nonce = .ok (t, ledger', events)) :
    t.genesisComplete = s.genesisComplete := by
  simp only [mine] at mined
  obtain ⟨_, _, mined⟩ := bind_returns.mp mined
  obtain ⟨_, _, mined⟩ := bind_returns.mp mined
  obtain ⟨_, _, mined⟩ := bind_returns.mp mined
  obtain ⟨_, _, mined⟩ := bind_returns.mp mined
  obtain ⟨_, _, mined⟩ := bind_returns.mp mined
  obtain ⟨_, _, mined⟩ := bind_returns.mp mined
  obtain ⟨_, _, mined⟩ := bind_returns.mp mined
  obtain ⟨_, _, mined⟩ := bind_returns.mp mined
  obtain ⟨⟨u, _⟩, adjusts, mined⟩ := bind_returns.mp mined
  rw [adjustWhenDue_ok adjusts] at mined
  obtain ⟨_, _, mined⟩ := bind_returns.mp mined
  obtain ⟨_, _, mined⟩ := bind_returns.mp mined
  obtain ⟨_, _, mined⟩ := bind_returns.mp mined
  obtain ⟨_, _, mined⟩ := bind_returns.mp mined
  cases mined
  rfl

/-- The whole reward is left for every mint. -/
theorem reward_le_left (counts : Counts s env.blockNumber) {total left : U256}
    (before : s.totalMints.toNat < lastMint) (counted : total.toNat = s.totalMints.toNat + 1)
    (remains : left.toNat = miningSupply.toNat - s.totalMiningMinted.toNat) :
    (if left < rewardOf (total / eraMints) then left else rewardOf (total / eraMints)) =
      BitVec.ofNat 256 (reward (s.totalMints.toNat + 1)) := by
  have value : (rewardOf (total / eraMints)).toNat = reward total.toNat := rewardOf_eq (by omega)
  have enough : emitted (s.totalMints.toNat + 1) ≤ miningSupply.toNat := by
    rw [← emitted_lastMint]
    exact emitted_mono before
  rw [emitted_succ, ← counts.emission] at enough
  rw [counted] at value
  rw [if_neg, ← value, BitVec.ofNat_toNat, BitVec.setWidth_eq]
  rw [BitVec.lt_def, value, remains]
  omega

theorem adjustWhenDue_of_not_due (counts : Counts s env.blockNumber) {u : Storage} {since : U256}
    (after : since.toNat = s.totalMints.toNat + 1 - s.lastAdjustmentMint.toNat) (rests : ¬ Due s) :
    adjustWhenDue env u since = .ok (u, []) := by
  have interval : adjustmentInterval.toNat = 2016 := rfl
  have before := counts.recent
  unfold Due at rests
  refine if_neg (Nat.not_le.mpr ?_)
  rw [interval]
  omega

theorem adjustWhenDue_of_due {u : Storage} {since : U256}
    (after : since.toNat = s.totalMints.toNat + 1 - s.lastAdjustmentMint.toNat) (due : Due s) :
    adjustWhenDue env u since = adjustDifficulty env u := by
  have interval : adjustmentInterval.toNat = 2016 := rfl
  unfold Due at due
  refine if_pos (show adjustmentInterval.toNat ≤ since.toNat from ?_)
  rw [interval]
  omega

/-- A call that passes every check comes to its end. -/
theorem mine_of_accepts (counts : Counts s env.blockNumber)
    (accepts : Accepts env s token ledger nonce) :
    ∃ t ledger' events, mine env s token ledger nonce = .ok (t, ledger', events) := by
  cases result : mine env s token ledger nonce with
  | ok r => exact ⟨r.1, r.2.1, r.2.2, rfl⟩
  | error e =>
    exfalso
    obtain ⟨genesis, supply, room, work, unused, adjusts, ledger', pays⟩ := accepts
    have last : lastMint = 424015 := rfl
    have cap : maxMintsPerBlock.toNat = 10 := rfl
    have left : s.totalMiningMinted.toNat < miningSupply.toNat := by
      rw [counts.emission]
      exact (emitted_lt_iff counts.within).mpr supply
    simp only [mine] at result
    rcases bind_reverts.mp result with early | ⟨_, _, result⟩
    · exact absurd genesis (by rw [(revertIf_error.mp early).1]; decide)
    rcases bind_reverts.mp result with early | ⟨_, _, result⟩
    · exact Nat.not_le.mpr left (revertIf_error.mp early).1
    rcases bind_reverts.mp result with early | ⟨_, _, result⟩
    · exact Nat.not_le.mpr room (revertIf_error.mp early).1
    rcases bind_reverts.mp result with early | ⟨_, _, result⟩
    · exact Nat.not_le.mpr work (revertIf_error.mp early).1
    rcases bind_reverts.mp result with early | ⟨_, _, result⟩
    · exact absurd ((revertIf_error.mp early).1.symm.trans unused) (by decide)
    rcases bind_reverts.mp result with early | ⟨mints, _, result⟩
    · have full := (addChecked_error.mp early).1
      rw [show (1 : U256).toNat = 1 from rfl] at full
      omega
    rcases bind_reverts.mp result with early | ⟨total, totalled, result⟩
    · have full := (addChecked_error.mp early).1
      rw [show (1 : U256).toNat = 1 from rfl] at full
      omega
    have total' : total.toNat = s.totalMints.toNat + 1 := toNat_of_addChecked totalled
    rcases bind_reverts.mp result with early | ⟨since, subtracted, result⟩
    · have below : total.toNat < s.lastAdjustmentMint.toNat := (subChecked_error.mp early).1
      have := counts.adjusted
      omega
    have after : since.toNat = s.totalMints.toNat + 1 - s.lastAdjustmentMint.toNat := by
      rw [← total']
      exact (toNat_of_subChecked subtracted).2
    rcases bind_reverts.mp result with early | ⟨⟨u, adjusted⟩, adjusts', result⟩
    · by_cases due : Due s
      · obtain ⟨next, _, ok⟩ := adjustDifficulty_ok
          (s := counted env s nonce mints total) counts.ordered (adjusts due)
        cases ((adjustWhenDue_of_due after due).symm.trans early).symm.trans ok
      · cases early.symm.trans (adjustWhenDue_of_not_due counts after due)
    rw [adjustWhenDue_ok adjusts'] at result
    rcases bind_reverts.mp result with early | ⟨left', remains, result⟩
    · exact Nat.lt_asymm left (subChecked_error.mp early).1
    have whole := reward_le_left counts supply total' (toNat_of_subChecked remains).2
    have some : reward (s.totalMints.toNat + 1) ≠ 0 := Nat.ne_of_gt (reward_pos supply)
    have most : emitted (s.totalMints.toNat + 1) ≤ miningSupply.toNat := by
      rw [← emitted_lastMint]
      exact emitted_mono supply
    have supplied : miningSupply.toNat < 2 ^ 256 := miningSupply.isLt
    have word : (BitVec.ofNat 256 (reward (s.totalMints.toNat + 1))).toNat =
        reward (s.totalMints.toNat + 1) := by
      rw [BitVec.toNat_ofNat]
      refine Nat.mod_eq_of_lt ?_
      rw [emitted_succ] at most
      omega
    simp only [whole] at result
    rcases bind_reverts.mp result with early | ⟨_, _, result⟩
    · have nothing := congrArg BitVec.toNat (revertIf_error.mp early).1
      exact some (word.symm.trans nothing)
    rcases bind_reverts.mp result with early | ⟨minted, _, result⟩
    · have full := (addChecked_error.mp early).1
      rw [word, counts.emission, ← emitted_succ] at full
      omega
    rcases bind_reverts.mp result with early | ⟨moved, _, result⟩
    · obtain ⟨reason, failed, _⟩ := mapError_reverts.mp early
      cases failed.symm.trans pays
    cases result

/-- A call that comes to its end has passed every check. -/
theorem accepts_of_mine (counts : Counts s env.blockNumber)
    (mined : mine env s token ledger nonce = .ok (t, ledger', events)) :
    Accepts env s token ledger nonce ∧ Mined env s token ledger nonce t ledger' events := by
  have cap : maxMintsPerBlock.toNat = 10 := rfl
  simp only [mine] at mined
  obtain ⟨_, genesis, mined⟩ := bind_returns.mp mined
  obtain ⟨_, supplied, mined⟩ := bind_returns.mp mined
  obtain ⟨_, room, mined⟩ := bind_returns.mp mined
  obtain ⟨_, work, mined⟩ := bind_returns.mp mined
  obtain ⟨_, unused, mined⟩ := bind_returns.mp mined
  obtain ⟨mints, counted', mined⟩ := bind_returns.mp mined
  obtain ⟨total, totalled, mined⟩ := bind_returns.mp mined
  obtain ⟨since, subtracted, mined⟩ := bind_returns.mp mined
  obtain ⟨⟨u, adjusted⟩, adjusts, mined⟩ := bind_returns.mp mined
  have total' : total.toNat = s.totalMints.toNat + 1 := toNat_of_addChecked totalled
  have supply : s.totalMints.toNat < lastMint := by
    rw [revertIf_ok, BitVec.not_le, BitVec.lt_def, counts.emission] at supplied
    exact (emitted_lt_iff counts.within).mp supplied
  have after : since.toNat = s.totalMints.toNat + 1 - s.lastAdjustmentMint.toNat := by
    rw [← total']
    exact (toNat_of_subChecked subtracted).2
  have same := adjustWhenDue_ok adjusts
  rw [same] at mined
  obtain ⟨left, remains, mined⟩ := bind_returns.mp mined
  have whole := reward_le_left counts supply total' (toNat_of_subChecked remains).2
  simp only [whole] at mined
  obtain ⟨_, positive, mined⟩ := bind_returns.mp mined
  obtain ⟨minted, added, mined⟩ := bind_returns.mp mined
  obtain ⟨moved, transferred, mined⟩ := bind_returns.mp mined
  have paid := mapError_returns.mp transferred
  have word : (BitVec.ofNat 256 (reward (s.totalMints.toNat + 1))).toNat =
      reward (s.totalMints.toNat + 1) := by
    have most : emitted (s.totalMints.toNat + 1) ≤ miningSupply.toNat := by
      rw [← emitted_lastMint]
      exact emitted_mono supply
    rw [emitted_succ] at most
    rw [BitVec.toNat_ofNat]
    exact Nat.mod_eq_of_lt (Nat.lt_of_le_of_lt (Nat.le_trans (Nat.le_add_left _ _) most)
      miningSupply.isLt)
  cases mined
  have adjusts' : (Due s → ¬ Stuck env s) ∧ (if Due s then
      u.currentDifficulty.toNat = retarget s.currentDifficulty.toNat (sinceBlock env s) ∧
        u.lastAdjustmentMint = total ∧ u.lastAdjustmentBlock = env.blockNumber
    else
      u.currentDifficulty = s.currentDifficulty ∧
        u.lastAdjustmentMint = s.lastAdjustmentMint ∧
        u.lastAdjustmentBlock = s.lastAdjustmentBlock) ∧
      adjusted = adjustmentEvents env s u := by
    by_cases due : Due s
    · rw [adjustWhenDue_of_due after due] at adjusts
      have fits : ¬ Stuck env s := by
        intro stuck
        obtain ⟨e, failed⟩ := adjustDifficulty_error
          (s := counted env s nonce mints total) stuck
        cases failed.symm.trans adjusts
      obtain ⟨next, value, ok⟩ := adjustDifficulty_ok
        (s := counted env s nonce mints total) counts.ordered fits
      cases ok.symm.trans adjusts
      rw [if_pos due, adjustmentEvents, if_pos due]
      exact ⟨fun _ => fits, ⟨value, rfl, rfl⟩, rfl⟩
    · cases adjusts.symm.trans (adjustWhenDue_of_not_due counts after due)
      rw [if_neg due, adjustmentEvents, if_neg due]
      exact ⟨fun yes => absurd yes due, ⟨rfl, rfl, rfl⟩, rfl⟩
  refine ⟨⟨?_, supply, ?_, ?_, ?_, adjusts'.1, ledger', paid⟩, ?_⟩
  · exact Bool.eq_true_of_not_eq_false (revertIf_ok.mp genesis)
  · exact Nat.not_le.mp (revertIf_ok.mp room)
  · exact Nat.not_le.mp (revertIf_ok.mp work)
  · exact Bool.eq_false_of_not_eq_true (revertIf_ok.mp unused)
  · have own : Function.update s.mintsInBlock env.blockNumber mints env.blockNumber = mints :=
      Function.update_self ..
    exact {
      genesis := rfl
      total := total'
      minted := by
        rw [toNat_of_addChecked added, word, counts.emission, ← emitted_succ, ← total']
      mints := (congrArg BitVec.toNat own).trans (toNat_of_addChecked counted')
      others := fun b other => Function.update_of_ne other ..
      proofs := rfl
      retargets := adjusts'.2.1
      paid
      tells := by
        have whole : BitVec.ofNat 256 (reward (s.totalMints.toNat + 1)) =
            BitVec.ofNat 256 (reward total.toNat) := by rw [total']
        rw [adjusts'.2.2, halvingEvents_eq (by omega) whole, era_eq, whole]
        rfl }

/-- A call that succeeds keeps the numbers. -/
theorem Counts.mine (counts : Counts s env.blockNumber)
    (mined : mine env s token ledger nonce = .ok (t, ledger', events)) :
    Counts t env.blockNumber := by
  obtain ⟨accepts, effect⟩ := accepts_of_mine counts mined
  have total := effect.total
  have mints := effect.mints
  have room := accepts.room
  have recent := counts.recent
  have pace := counts.pace
  have retargets := effect.retargets
  have last : t.lastAdjustmentMint.toNat ≤ t.totalMints.toNat ∧
      t.totalMints.toNat < t.lastAdjustmentMint.toNat + 2016 ∧
      t.lastAdjustmentBlock.toNat ≤ env.blockNumber.toNat ∧
      t.totalMints.toNat ≤ t.lastAdjustmentMint.toNat +
        10 * (env.blockNumber.toNat - t.lastAdjustmentBlock.toNat) +
        (t.mintsInBlock env.blockNumber).toNat := by
    by_cases due : Due s
    · rw [if_pos due] at retargets
      obtain ⟨_, mint, block⟩ := retargets
      rw [mint, block]
      omega
    · rw [if_neg due] at retargets
      obtain ⟨_, mint, block⟩ := retargets
      have adjusted := counts.adjusted
      have ordered := counts.ordered
      unfold Due at due
      rw [mint, block]
      omega
  refine ⟨effect.minted, ?_, ?_, counts.ahead.mine mined, last.1, last.2.1, last.2.2.1, last.2.2.2⟩
  · rw [total]
    exact accepts.supply
  · intro b
    rcases eq_or_ne b env.blockNumber with rfl | other
    · omega
    · rw [effect.others b other]
      exact counts.room b

theorem Counts.next {head : U256} (counts : Counts s head) (fits : head.toNat + 1 < 2 ^ 256) :
    Counts s (head + 1) := by
  have next : (head + 1).toNat = head.toNat + 1 := by
    rw [BitVec.toNat_add]
    exact Nat.mod_eq_of_lt fits
  have room := counts.room head
  have pace := counts.pace
  have ordered := counts.ordered
  refine ⟨counts.emission, counts.within, counts.room, ?_, counts.adjusted, counts.recent, ?_, ?_⟩
  · rw [next]
    exact counts.ahead.next
  · omega
  · omega

/-- Many blocks lie between two adjustments. -/
theorem Counts.sinceBlock (counts : Counts s env.blockNumber) (due : Due s) :
    201 ≤ sinceBlock env s := by
  have room := counts.room env.blockNumber
  have pace := counts.pace
  unfold Due at due
  unfold Contract.sinceBlock
  omega

end Call

end HashMiner.Contract
