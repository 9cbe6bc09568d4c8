import HashMiner.Tx.Gate
import HashMiner.Tx.Receipt

/-!
# The reward of a mined hit

A call reports the reward of the snapshot that it took before it sent anything. The
contract computes the reward of a mint from the count that includes it, and cuts it to
what is left of the supply.
-/

namespace HashMiner.Contract

open Foundation

structure Transfer where
  sender : Address
  recipient : Address
  value : U256
  deriving DecidableEq

variable {Ledger : Type}

/-- The token that keeps a list of its transfers. -/
def Token.recording (token : Token Ledger) : Token (Ledger × List Transfer) where
  transfer sender recipient value p :=
    (token.transfer sender recipient value p.1).map fun ledger =>
      (ledger, p.2 ++ [⟨sender, recipient, value⟩])

/-- The next mint is not the first one of an era, and the supply covers the reward of the
era. -/
def PaysSnapshot (s : Storage) : Prop :=
  (s.totalMints.toNat + 1) % eraMints.toNat ≠ 0 ∧
    s.totalMiningMinted.toNat + (rewardOf (s.totalMints / eraMints)).toNat ≤ miningSupply.toNat

variable {env : Env} {s t : Storage} {token : Token Ledger} {ledger ledger' : Ledger}
  {nonce left reward : U256} {events : List Event}

theorem recorded {transfers : List Transfer}
    (mined : mine env s token.recording (ledger, []) nonce =
      .ok (t, (ledger', transfers), events)) :
    ∃ left reward, Mines env s token.recording (ledger, []) nonce t (ledger', transfers) left
      reward ∧ transfers = [⟨env.self, env.sender, reward⟩] := by
  obtain ⟨left, reward, mines⟩ := mine_ok mined
  refine ⟨left, reward, mines, ?_⟩
  have transferred := mines.transferred
  simp only [Token.recording] at transferred
  cases moved : token.transfer env.self env.sender reward ledger with
  | error e =>
    rw [moved] at transferred
    cases transferred
  | ok after =>
    rw [moved] at transferred
    cases transferred
    rfl

theorem toNat_rewardOf {era : U256} (early : era.toNat < 64) :
    (rewardOf era).toNat = 100 * 10 ^ 18 / 2 ^ era.toNat := by
  have bound : era < 64 := early
  rw [rewardOf, if_pos bound, BitVec.toNat_ushiftRight, Nat.shiftRight_eq_div_pow]
  rfl

theorem rewardOf_next_lt {era next : U256} (follows : next.toNat = era.toNat + 1)
    (pays : rewardOf next ≠ 0) : (rewardOf next).toNat < (rewardOf era).toNat := by
  have early : next.toNat < 64 := by
    by_contra late
    exact pays ((rewardOf_eq_zero_iff next).mpr (Nat.not_lt.mp late))
  have positive : 0 < (rewardOf next).toNat :=
    Nat.pos_of_ne_zero fun none => pays (BitVec.eq_of_toNat_eq none)
  have double : 2 ^ (era.toNat + 1) = 2 ^ era.toNat * 2 := Nat.pow_succ ..
  have half : (rewardOf next).toNat = (rewardOf era).toNat / 2 := by
    rw [toNat_rewardOf early, toNat_rewardOf (by omega), follows, double, Nat.div_div_eq_div_mul]
  omega

theorem Mines.le_rewardOf (mines : Mines env s token ledger nonce t ledger' left reward) :
    reward.toNat ≤ (rewardOf (t.totalMints / eraMints)).toNat := by
  rw [mines.rewarded]
  split
  · next less => exact Nat.le_of_lt less
  · exact Nat.le_refl _

theorem Mines.toNat_era (mines : Mines env s token ledger nonce t ledger' left reward) :
    (t.totalMints / eraMints).toNat = (s.totalMints / eraMints).toNat +
      if (s.totalMints.toNat + 1) % eraMints.toNat = 0 then 1 else 0 := by
  rw [BitVec.toNat_udiv, BitVec.toNat_udiv, mines.total, Nat.succ_div]
  simp only [Nat.dvd_iff_mod_eq_zero]

theorem Mines.pays_iff (mines : Mines env s token ledger nonce t ledger' left reward) :
    rewardOf (s.totalMints / eraMints) = reward ↔ PaysSnapshot s := by
  have era := mines.toNat_era
  by_cases opens : (s.totalMints.toNat + 1) % eraMints.toNat = 0
  · rw [if_pos opens] at era
    refine iff_of_false (fun same => ?_) fun pays => pays.1 opens
    have most := mines.le_rewardOf
    have pays : rewardOf (t.totalMints / eraMints) ≠ 0 := by
      intro none
      rw [none] at most
      exact mines.positive (BitVec.eq_of_toNat_eq (Nat.le_zero.mp most))
    have less := rewardOf_next_lt era pays
    rw [same] at less
    exact Nat.not_le.mpr less most
  · rw [if_neg opens] at era
    have same : t.totalMints / eraMints = s.totalMints / eraMints := BitVec.eq_of_toNat_eq era
    have rewarded := mines.rewarded
    have remains := mines.remains
    rw [same] at rewarded
    rw [PaysSnapshot, and_iff_right opens, ← remains, Nat.add_le_add_iff_left, rewarded]
    split
    · next less =>
      refine iff_of_false (fun same => ?_) (Nat.not_le.mpr less)
      rw [same] at less
      exact Nat.lt_irrefl _ less
    · next covers => exact iff_of_true rfl (Nat.not_lt.mp covers)

end HashMiner.Contract

namespace HashMiner.Tx

open Foundation Chain Contract

/-- What a call reports once it has read the snapshot. -/
def Carries (st : MiningState) : Progress → Prop
  | .on .snapshot => False
  | .on (.gasPrice st') | .on (.evGate st' _ _) | .on (.reserve st' _) | .on (.sign st' _)
  | .on (.send st' _ _ _ _ _) | .on (.receipt st' _ _ _) | .on (.head st' _ _ _ _)
  | .on (.resync st' _ _ _ _) => st' = st
  | .on (.resyncFailed _ _) => True
  | .done result => ∀ tx block rewardWei relay,
      result = .ok (.included tx block rewardWei relay) → rewardWei = st.rewardWei

variable {cfg : SubmitterCfg} {view : ChainView} {next : Option U64} {hit : Hit}
variable {phase : Phase} {e : SubmitEvent} {r : Resumed} {st : MiningState}

theorem carries_sending {req : TransactionRequest} (winner : Option (String × TxHash))
    (errors : List (String × MinerError)) (relays : List String) :
    Carries st (.on (sending st req winner errors relays)) := by
  cases relays with
  | cons => rfl
  | nil =>
    cases winner with
    | none => trivial
    | some => rfl

theorem carries_outcomeOf (relay : String) (tx : TxHash) (outcome : Option TransactionReceipt) :
    Carries st (.done (.ok (outcomeOf st relay tx outcome))) := by
  intro tx' block rewardWei relay' included
  unfold outcomeOf at included
  split at included
  · split at included <;> cases included
    rfl
  · cases included

theorem Carries.kept (carries : Carries st (.on phase))
    (resumes : Resumes cfg view next hit phase e r) : Carries st r.2 := by
  cases resumes with
  | noState | stale | fresh => exact carries.elim
  | noPrice | priceOverflow | noMints | mintsOverflow | gated | uncounted | unsigned | gaveUp
  | noReceipt | noHead => exact nofun
  | priced | unheld | timedOut | unmined | mined | confirmed | unconfirmed => exact carries
  | held st' maxFee _ _ _ _ n | counted st' maxFee n =>
    rcases reserved_cases cfg next hit st' maxFee n with panicked | ⟨after, _, signing⟩
    · rw [panicked]
      exact nofun
    · rw [signing]
      exact carries
  | signed | accepted | rejected =>
    cases carries
    exact carries_sending _ _ _
  | settled =>
    cases carries
    exact carries_outcomeOf _ _ _

/-- The reward that a call reports is that of its snapshot. -/
theorem run_carries {next next' : Option U64} {es : List (ChainView × SubmitEvent)}
    {tx : TxHash} {block : U64} {rewardWei : U256} {relay : String}
    (stored : view.miningState = .ok st)
    (reached : (returning cfg hit).run (next, .on .snapshot) ((view, .snapshot) :: es) =
      some (next', .done (.ok (.included tx block rewardWei relay)))) :
    rewardWei = st.rewardWei := by
  obtain ⟨p, taken, rest⟩ := (Machine.run_cons _).mp reached
  have begins : Carries st p.2 := by
    obtain ⟨phase, here, resumes⟩ := returning_step taken
    cases here
    cases resumes with
    | noState e failed => cases failed.symm.trans stored
    | stale => exact nofun
    | fresh st' read =>
      cases read.symm.trans stored
      rfl
  have kept : ∀ (p : Option U64 × Progress) (e : ChainView × SubmitEvent)
      (q : Option U64 × Progress), Carries st p.2 → (returning cfg hit).step p e = some q →
      Carries st q.2 := by
    intro p e q carries taken
    obtain ⟨phase, here, resumes⟩ := returning_step taken
    rw [here] at carries
    exact carries.kept resumes
  have ended : Carries st (.done (.ok (.included tx block rewardWei relay))) :=
    Machine.invariant_run _ kept begins rest
  exact ended tx block rewardWei relay rfl

theorem Snapshot.reward {s : Storage} {h : U64} (snapshot : Snapshot s h st) :
    st.rewardWei = rewardOf (s.totalMints / eraMints) := by
  obtain ⟨sender, ret, read, decoded⟩ := snapshot
  simp only [Contract.miningState] at read
  obtain ⟨remaining, _, read⟩ := bind_returns.mp read
  obtain ⟨blocksLeft, _, read⟩ := bind_returns.mp read
  cases read
  simp only [MiningState.decode?, Option.bind_eq_bind, Option.bind_eq_some_iff] at decoded
  obtain ⟨_, _, _, _, _, _, same⟩ := decoded
  cases same
  rfl

variable {Ledger : Type}

/-- For every storage, and whatever happens to the call meanwhile: the reward that it
reports is what `mine` on the storage of its snapshot pays exactly when the mint does not
open an era and the supply covers the reward. -/
theorem included_reward_iff (cfg : SubmitterCfg) (hit : Hit) (view : ChainView) (st : MiningState)
    (stored : view.miningState = .ok st) (s : Storage) (h : U64) (snapshot : Snapshot s h st)
    (next next' : Option U64) (es : List (ChainView × SubmitEvent)) (tx : TxHash) (block : U64)
    (rewardWei : U256) (relay : String)
    (reached : (returning cfg hit).run (next, .on .snapshot) ((view, .snapshot) :: es) =
      some (next', .done (.ok (.included tx block rewardWei relay))))
    (token : Token Ledger) (ledger ledger' : Ledger) (env : Env) (t : Storage)
    (transfers : List Transfer) (events : List Contract.Event) (miner : env.sender = cfg.signer)
    (mined : mine env s token.recording (ledger, []) hit.nonce =
      .ok (t, (ledger', transfers), events)) :
    ∃ paid, transfers = [⟨env.self, cfg.signer, paid⟩] ∧ (rewardWei = paid ↔ PaysSnapshot s) := by
  obtain ⟨left, reward, mines, transferred⟩ := recorded mined
  rw [miner] at transferred
  refine ⟨reward, transferred, ?_⟩
  rw [run_carries stored reached, snapshot.reward]
  exact mines.pays_iff

/-- A storage of era 3, with the next mint at the end of it. -/
def eraStorage (totalMints minted : U256) : Storage :=
  { layoutStorage totalMints minted 0 with lastAdjustmentMint := 399168 }

def eraSnapshot (minted : U256) : MiningState :=
  ⟨3, 12500000000000000000, BitVec.allOnes 256, minted, miningSupply - minted, 250707, 50⟩

theorem snapshot_eraStorage {totalMints minted : U256}
    (supplied : minted.toNat ≤ miningSupply.toNat) (era : totalMints / eraMints = 3) :
    Snapshot (eraStorage totalMints minted) 25070750 (eraSnapshot minted) := by
  have reward : rewardOf 3 = 12500000000000000000 := by decide +kernel
  have third : U256.toU64? 3 = some 3 := by decide +kernel
  rw [eraSnapshot, ← reward, ← era]
  exact snapshot_of_era (era ▸ third) supplied

/-- A call that is included two blocks deep. -/
theorem run_eraSnapshot (minted : U256) :
    ∃ next es, (returning layoutCfg layoutProof).run (none, .on .snapshot)
      ((⟨25070750, .ok (eraSnapshot minted)⟩, .snapshot) :: es) = some (next, .done (.ok
        (.included B256.zero 25070751 12500000000000000000 "mev-blocker"))) := by
  let answers : List SubmitEvent :=
    [.gasPrice (.ok 0), .mintsInBlock (.ok 0) true, .transactionCount (.ok 0), .signed (.ok ()),
      .sendRaw (.ok B256.zero), .sendRaw (.ok B256.zero), .sendRaw (.ok B256.zero),
      .receipt (.ok (some ⟨true, some 25070751⟩)), .blockNumber (.ok 25070753),
      .transactionCount (.ok 1)]
  exact ⟨some 1, answers.map fun e => (⟨25070750, .ok (eraSnapshot minted)⟩, e), rfl⟩

/-- The next block is in the epoch of the hit. -/
theorem challenge_layoutMiner :
    challenge (envAt layoutMiner 25070751) layoutMiner = layoutChallenge := by
  have epoch : Contract.epoch (envAt layoutMiner 25070751) = (250707 : U64).setWidth 256 := by
    decide
  rw [← computeChallenge_layoutMiner, computeChallenge, encode_challengeWords, challenge, epoch]
  rfl

theorem eraStorage_works (totalMints minted : U256) :
    ¬ (eraStorage totalMints minted).currentDifficulty.toNat ≤
      B256.value (Keccak.keccak256 (Abi.encode innerTypes
        (challenge (envAt layoutMiner 25070751) (envAt layoutMiner 25070751).sender,
          layoutProof.nonce, ⟨⟩))) := by
  have works := layoutProof_works totalMints minted 0
  have hash : layoutProof.hash = Keccak.keccak256 (Abi.encode innerTypes
      (innerWords (layoutChallenge, layoutProof.nonce))) :=
    congrArg Keccak.keccak256 (encode_innerWords _ _)
  have same : challenge (envAt layoutMiner 25070751) (envAt layoutMiner 25070751).sender =
      layoutChallenge := challenge_layoutMiner
  rw [hash] at works
  rw [same]
  exact Nat.not_le.mpr works

/-- The transfers of the hit in the next block. -/
def eraTransfers (totalMints minted : U256) : Option (List Transfer) :=
  (mine (envAt layoutMiner 25070751) (eraStorage totalMints minted) layoutToken.recording ((), [])
    layoutProof.nonce).toOption.map fun mined => mined.2.1.2

theorem mine_of_eraTransfers {totalMints minted : U256} {transfers : List Transfer}
    (transferred : eraTransfers totalMints minted = some transfers) :
    ∃ t events, mine (envAt layoutMiner 25070751) (eraStorage totalMints minted)
      layoutToken.recording ((), []) layoutProof.nonce = .ok (t, ((), transfers), events) := by
  unfold eraTransfers at transferred
  cases mined : mine (envAt layoutMiner 25070751) (eraStorage totalMints minted)
      layoutToken.recording ((), []) layoutProof.nonce with
  | error e =>
    rw [mined] at transferred
    cases transferred
  | ok result =>
    rw [mined] at transferred
    cases transferred
    exact ⟨result.1, result.2.2, rfl⟩

/-- The mint before the last one of the era. -/
theorem included_reward_third_era :
    ∃ paid : U256, [(⟨contract, layoutMiner, 12500000000000000000⟩ : Transfer)] =
        [⟨contract, layoutMiner, paid⟩] ∧
      ((12500000000000000000 : U256) = paid ↔
        PaysSnapshot (eraStorage 399998 (BitVec.ofNat 256 (187498875 * 10 ^ 17)))) := by
  obtain ⟨next, es, reached⟩ := run_eraSnapshot (BitVec.ofNat 256 (187498875 * 10 ^ 17))
  have transferred : eraTransfers 399998 (BitVec.ofNat 256 (187498875 * 10 ^ 17)) =
      some [⟨contract, layoutMiner, 12500000000000000000⟩] := by
    simp only [eraTransfers, mine, revertIf]
    rw [if_neg (eraStorage_works _ _)]
    decide +kernel
  obtain ⟨t, events, mined⟩ := mine_of_eraTransfers transferred
  exact included_reward_iff _ _ _ _ rfl _ 25070750
    (snapshot_eraStorage (by decide +kernel) (by decide +kernel)) _ _ _ _ _ _ _ reached
    layoutToken () () _ t _ events rfl mined

/-- The mint that opens era 4 pays half of what the call reports. -/
theorem first_mint_of_era_pays_half :
    ∃ (minted : U256) (next : Option U64) (es : List (ChainView × SubmitEvent)) (t : Storage)
        (events : List Contract.Event),
      Snapshot (eraStorage 399999 minted) 25070750 (eraSnapshot minted) ∧
      (returning layoutCfg layoutProof).run (none, .on .snapshot)
          ((⟨25070750, .ok (eraSnapshot minted)⟩, .snapshot) :: es) = some (next, .done (.ok
            (.included B256.zero 25070751 12500000000000000000 "mev-blocker"))) ∧
      mine (envAt layoutMiner 25070751) (eraStorage 399999 minted) layoutToken.recording ((), [])
        layoutProof.nonce =
          .ok (t, ((), [⟨contract, layoutMiner, 6250000000000000000⟩]), events) := by
  have transferred : eraTransfers 399999 (BitVec.ofNat 256 (18749900 * 10 ^ 18)) =
      some [⟨contract, layoutMiner, 6250000000000000000⟩] := by
    simp only [eraTransfers, mine, revertIf]
    rw [if_neg (eraStorage_works _ _)]
    decide +kernel
  obtain ⟨t, events, mined⟩ := mine_of_eraTransfers transferred
  obtain ⟨next, es, reached⟩ := run_eraSnapshot (BitVec.ofNat 256 (18749900 * 10 ^ 18))
  exact ⟨_, next, es, t, events,
    snapshot_eraStorage (by decide +kernel) (by decide +kernel), reached, mined⟩

end HashMiner.Tx
