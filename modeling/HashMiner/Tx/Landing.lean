import HashMiner.Tx.Submitter
import HashMiner.Foundation.Machine

/-!
# The block that a hit lands in

The check of the epoch uses the state at the head. The contract computes the epoch of
the block that includes the transaction, which is the next one at the earliest.
-/

namespace HashMiner.Tx

open Foundation Chain

/-- `_epoch()` of the contract in a block. -/
def epochAt (blockNumber : Nat) : Nat := blockNumber / epochBlocks.toNat

/-- One call while it runs. -/
def callMachine (cfg : SubmitterCfg) (hit : Hit) :
    Machine (Option U64 × Phase) (ChainView × SubmitEvent) where
  step p e :=
    match resume cfg e.1 p.1 hit p.2 e.2 with
    | some (next, .on phase) => some (next, phase)
    | _ => none

/-- The call that reads `view` may come to its first broadcast. -/
def MayBroadcast (cfg : SubmitterCfg) (view : ChainView) (hit : Hit) : Prop :=
  ∃ (next next' : Option U64) (es : List (ChainView × SubmitEvent)) (st : MiningState)
    (req : TransactionRequest) (relay : String) (rest : List String),
    (callMachine cfg hit).run (next, .snapshot) ((view, .snapshot) :: es) =
      some (next', .send st req relay rest none [])

/-- The call that reads `view` drops its hit as stale. -/
def DropsAsStale (cfg : SubmitterCfg) (view : ChainView) (hit : Hit) : Prop :=
  ∃ (next : Option U64) (epoch current : U64), resume cfg view next hit .snapshot .snapshot =
    some (next, .done (.ok (.dropped (.staleEpoch epoch current))))

/-- The hits that pass are those of the epoch of the block after `head`. -/
structure LandsInEpoch (cfg : SubmitterCfg) (view : ChainView) (hit : Hit) (head : U64) : Prop where
  broadcast : MayBroadcast cfg view hit → hit.epochId.toNat = epochAt (head.toNat + 1)
  kept : hit.epochId.toNat = epochAt (head.toNat + 1) → ¬ DropsAsStale cfg view hit

variable {cfg : SubmitterCfg} {view : ChainView} {hit : Hit} {st : MiningState}

theorem MayBroadcast.fresh (stored : view.miningState = .ok st)
    (sent : MayBroadcast cfg view hit) : hit.epochId = st.epoch := by
  obtain ⟨next, next', es, _, _, _, _, run⟩ := sent
  obtain ⟨p, first, _⟩ := (callMachine cfg hit).run_cons.mp run
  by_contra stale
  simp [callMachine, resume, stored, stale] at first

theorem dropsAsStale_iff (stored : view.miningState = .ok st) :
    DropsAsStale cfg view hit ↔ hit.epochId ≠ st.epoch := by
  constructor
  · rintro ⟨next, epoch, current, dropped⟩ fresh
    simp [resume, stored, fresh] at dropped
  · intro stale
    refine ⟨none, hit.epochId, st.epoch, ?_⟩
    simp [resume, stored, stale]

theorem callMachine_step {next next' : Option U64} {phase phase' : Phase} {e : SubmitEvent}
    (resumes : Resumes cfg view next hit phase e (next', .on phase')) :
    (callMachine cfg hit).step (next, phase) (view, e) = some (next', phase') := by
  simp only [callMachine, resumes.resumed]

/-- Answers that bring a call to its first broadcast. -/
def answered (view : ChainView) : List (ChainView × SubmitEvent) :=
  [(view, .snapshot), (view, .gasPrice (.ok 0)), (view, .mintsInBlock (.ok 0) true),
    (view, .transactionCount (.ok 0)), (view, .signed (.ok ()))]

theorem run_answered (overflowChecks : Bool) (confirmations : U64) (signer : Address)
    (stored : view.miningState = .ok st) (fresh : hit.epochId = st.epoch) :
    (callMachine (.deployed overflowChecks confirmations signer) hit).run (none, .snapshot)
      (answered view) = some (some 1, .send st (buildMineTx signer 0 hit.nonce maxPriority)
        "mev-blocker" ["flashbots", "public"] none []) := by
  let cfg := SubmitterCfg.deployed overflowChecks confirmations signer
  let req := buildMineTx signer 0 hit.nonce maxPriority
  have priced : addUnsigned overflowChecks 0 maxPriority = some maxPriority :=
    addUnsigned_of_lt overflowChecks (by decide)
  have signing : reserved cfg none hit st maxPriority 0 = (some 1, .on (.sign st req)) := by
    have sum : addUnsigned cfg.overflowChecks 0 1 = some (0 + 1 : U64) :=
      addUnsigned_of_lt overflowChecks (by decide)
    rw [reserved, sum]
    rfl
  have counted : Resumes cfg view none hit (.reserve st maxPriority) (.transactionCount (.ok 0))
      (some 1, .on (.sign st req)) := by
    rw [← signing]
    exact .counted st maxPriority 0
  refine (Machine.run_cons _).mpr ⟨_, callMachine_step (.fresh st stored fresh), ?_⟩
  refine (Machine.run_cons _).mpr ⟨_, callMachine_step (.priced st 0 maxPriority priced), ?_⟩
  refine (Machine.run_cons _).mpr
    ⟨_, callMachine_step (.unheld st maxPriority view.head 0 true 0 rfl rfl rfl), ?_⟩
  refine (Machine.run_cons _).mpr ⟨_, callMachine_step counted, ?_⟩
  exact (Machine.run_cons _).mpr ⟨_, callMachine_step (.signed st req ()), rfl⟩

/-- A call of the current epoch broadcasts when the node and the signer answer. -/
theorem mayBroadcast_of_fresh (overflowChecks : Bool) (confirmations : U64) (signer : Address)
    (stored : view.miningState = .ok st) (fresh : hit.epochId = st.epoch) :
    MayBroadcast (.deployed overflowChecks confirmations signer) view hit :=
  ⟨none, some 1, (answered view).tail, st, _, _, _,
    run_answered overflowChecks confirmations signer stored fresh⟩

/-- The check is exact except at the last block of an epoch, where it sends the hits of
the epoch that ends and drops those of the next one. -/
theorem landsInEpoch_iff (overflowChecks : Bool) (confirmations : U64) (signer : Address)
    (view : ChainView) (st : MiningState) (hit : Hit) (head : U64)
    (stored : view.miningState = .ok st) (read : st.epoch.toNat = epochAt head.toNat) :
    LandsInEpoch (.deployed overflowChecks confirmations signer) view hit head ↔
      (head.toNat + 1) % epochBlocks.toNat ≠ 0 ∨
        (hit.epochId.toNat ≠ epochAt head.toNat ∧
          hit.epochId.toNat ≠ epochAt (head.toNat + 1)) := by
  have same : hit.epochId = st.epoch ↔ hit.epochId.toNat = epochAt head.toNat := by
    rw [← read, BitVec.toNat_inj]
  have blocks : epochBlocks.toNat = 100 := rfl
  constructor
  · intro lands
    by_cases last : (head.toNat + 1) % epochBlocks.toNat = 0
    · refine .inr ⟨fun passes => ?_, fun lands' => ?_⟩
      · have sent := lands.broadcast (mayBroadcast_of_fresh _ _ _ stored (same.mpr passes))
        simp only [epochAt, blocks] at passes sent last
        omega
      · have fresh := not_not.mp (mt (dropsAsStale_iff stored).mpr (lands.kept lands'))
        have passes := same.mp fresh
        simp only [epochAt, blocks] at passes lands' last
        omega
    · exact .inl last
  · intro condition
    constructor
    · intro sent
      have passes := same.mp (sent.fresh stored)
      simp only [epochAt, blocks] at passes condition ⊢
      omega
    · intro lands dropped
      have stale := mt same.mpr ((dropsAsStale_iff stored).mp dropped)
      simp only [epochAt, blocks] at lands condition stale
      omega

/-- Epoch 250707 at the middle of its blocks. -/
theorem landsInEpoch_middle :
    LandsInEpoch layoutCfg ⟨25070750, .ok (Watcher.snapshot 250707 1024)⟩
      ⟨0x4243, B256.zero, 250707⟩ 25070750 :=
  (landsInEpoch_iff false 2 layoutMiner _ _ _ _ rfl rfl).mpr (.inl (by decide))

/-- At its last block a hit of epoch 250707 is sent, to be judged in epoch 250708. -/
theorem last_block_sends_ended_epoch :
    ¬ LandsInEpoch layoutCfg
      ⟨25070799, .ok { Watcher.snapshot 250707 1024 with epochBlocksLeft := 1 }⟩
      ⟨0x4243, B256.zero, 250707⟩ 25070799 := by
  intro lands
  have sent := lands.broadcast (mayBroadcast_of_fresh false 2 layoutMiner rfl rfl)
  exact absurd sent (by decide)

end HashMiner.Tx
