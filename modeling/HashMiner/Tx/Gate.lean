import HashMiner.Contract.Mining
import HashMiner.Tx.Landing

/-!
# The gate and the contract

The gate counts the mints of the head block. The transaction runs in a later block, on
the storage that the head block leaves.
-/

namespace HashMiner.Tx

open Foundation Chain Contract

/-- A call of the deployed contract in a block. -/
def envAt (sender : Address) (blockNumber : Nat) : Env :=
  ⟨chainId.setWidth 256, contract, sender, BitVec.ofNat 256 blockNumber⟩

/-- The snapshot that the watcher decodes from the storage at the head `h`. -/
def Snapshot (s : Storage) (h : U64) (st : MiningState) : Prop :=
  ∃ sender ret, Contract.miningState (envAt sender h.toNat) s = .ok ret ∧
    MiningState.decode? ret = some st

/-- The node answers for the storage `s` and the head `h`. -/
structure Fresh (s : Storage) (h : U64) (p : ChainView × SubmitEvent) : Prop where
  head : p.1.head = h
  state : ∃ st, p.1.miningState = .ok st ∧ Snapshot s h st
  mints : ∀ word profitable, p.2 = .mintsInBlock (.ok word) profitable →
    word = s.mintsInBlock (h.setWidth 256)

/-- A call comes to this await while the node answers for one storage. -/
def ComesTo (cfg : SubmitterCfg) (hit : Hit) (s : Storage) (h : U64) (next : Option U64)
    (phase : Phase) : Prop :=
  ∃ (start : Option U64) (es : List (ChainView × SubmitEvent)), (∀ e ∈ es, Fresh s h e) ∧
    (callMachine cfg hit).run (start, .snapshot) es = some (next, phase)

/-- The transaction that a call is sending, with its snapshot. -/
def Phase.broadcast? : Phase → Option (MiningState × TransactionRequest)
  | .send st req _ _ _ _ => some (st, req)
  | _ => none

/-- The gate drops the hit although it is worth its costs. -/
def RefusedByCap (cfg : SubmitterCfg) (hit : Hit) (s : Storage) (h : U64) (next : Option U64)
    (phase : Phase) : Prop :=
  ∃ view word next', Fresh s h (view, .mintsInBlock (.ok word) true) ∧
    resume cfg view next hit phase (.mintsInBlock (.ok word) true) =
      some (next', .done (.ok (.dropped .evGate)))

section Gate

variable {Ledger : Type} (token : Token Ledger) (ledger : Ledger)

/-- The transaction in the next block, on the storage that the gate has seen. -/
def mineNext (s : Storage) (h : U64) (sender : Address) (nonce : U256) :
    Except Revert (Storage × Ledger × List Event) :=
  mine (envAt sender (h.toNat + 1)) s token ledger nonce

/-- What the gate lets pass is neither out of supply nor over the cap, and what the cap
refuses is over it. -/
structure Agrees (cfg : SubmitterCfg) (hit : Hit) (s : Storage) (h : U64) (next : Option U64)
    (phase : Phase) : Prop where
  sent : ∀ st req, phase.broadcast? = some (st, req) →
    mineNext token ledger s h req.sender req.input.nonce ≠ .error .supplyExhausted ∧
      mineNext token ledger s h req.sender req.input.nonce ≠ .error .blockCapReached
  refused : RefusedByCap cfg hit s h next phase →
    mineNext token ledger s h cfg.signer hit.nonce = .error .blockCapReached

/-- The supply is not looked at, and the cap is that of the head block. -/
structure Bounds (cfg : SubmitterCfg) (hit : Hit) (s : Storage) (h : U64) (next : Option U64)
    (phase : Phase) : Prop where
  sent : ∀ st req, phase.broadcast? = some (st, req) →
    mineNext token ledger s h req.sender req.input.nonce ≠ .error .blockCapReached ∧
    (mineNext token ledger s h req.sender req.input.nonce = .error .supplyExhausted →
      st.remainingWei = 0 ∨ 64 * eraMints.toNat ≤ s.totalMints.toNat + 1) ∧
    s.mintsInBlock (h.setWidth 256) < Contract.maxMintsPerBlock
  refused : RefusedByCap cfg hit s h next phase →
    Contract.maxMintsPerBlock ≤ s.mintsInBlock (h.setWidth 256)

end Gate

/-- What a call knows at each of its awaits. -/
def Phase.Sound (s : Storage) (h : U64) : Phase → Prop
  | .gasPrice st | .evGate st _ _ => Snapshot s h st
  | .reserve st _ | .sign st _ | .send st _ _ _ _ _ =>
    Snapshot s h st ∧ s.mintsInBlock (h.setWidth 256) < Contract.maxMintsPerBlock
  | _ => True

variable {cfg : SubmitterCfg} {view : ChainView} {next : Option U64} {hit : Hit}
variable {phase phase' : Phase} {e : SubmitEvent} {r : Resumed} {s : Storage} {h : U64}
variable {Ledger : Type}

theorem allow_room {word : U256} {mints : U64} {gasCost : U256} {profitable : Bool}
    (fits : word.toU64? = some mints) (allowed : EvGate.allow 10 mints gasCost profitable = true) :
    word < Contract.maxMintsPerBlock := by
  have below : ¬ 10 ≤ mints := by
    intro full
    rw [EvGate.allow, if_pos full] at allowed
    cases allowed
  have room : mints.toNat < 10 := Nat.not_le.mp below
  rw [U256.toNat_of_toU64? fits] at room
  exact room

theorem full_of_not_allow {word : U256} {mints : U64} {gasCost : U256}
    (fits : word.toU64? = some mints) (refused : EvGate.allow 10 mints gasCost true = false) :
    Contract.maxMintsPerBlock ≤ word := by
  have full : 10 ≤ mints := by
    by_contra below
    rw [EvGate.allow, if_neg below] at refused
    split at refused <;> cases refused
  have filled : 10 ≤ mints.toNat := full
  rw [U256.toNat_of_toU64? fits] at filled
  exact filled

theorem sound_sending {st : MiningState} {req : TransactionRequest} {relays : List String}
    {winner : Option (String × TxHash)} {errors : List (String × MinerError)}
    (known : Snapshot s h st ∧ s.mintsInBlock (h.setWidth 256) < Contract.maxMintsPerBlock) :
    (sending st req winner errors relays).Sound s h := by
  cases relays with
  | nil => cases winner <;> trivial
  | cons relay rest => exact known

theorem Phase.Sound.kept (bounded : cfg.maxMintsPerBlock = 10) (sound : phase.Sound s h)
    (fresh : Fresh s h (view, e)) (resumes : Resumes cfg view next hit phase e r)
    (on : r.2 = .on phase') : phase'.Sound s h := by
  cases resumes with
  | fresh st read =>
    cases on
    obtain ⟨st', stored, snapshot⟩ := fresh.state
    cases read.symm.trans stored
    exact snapshot
  | priced =>
    cases on
    exact sound
  | held st maxFee head word profitable mints n fits allowed =>
    obtain ⟨_, _, _, rfl⟩ := reserved_on on
    rw [bounded] at allowed
    exact ⟨sound, fresh.mints word profitable rfl ▸ allow_room fits allowed⟩
  | unheld st maxFee head word profitable mints fits allowed =>
    cases on
    rw [bounded] at allowed
    exact ⟨sound, fresh.mints word profitable rfl ▸ allow_room fits allowed⟩
  | counted =>
    obtain ⟨_, _, _, rfl⟩ := reserved_on on
    exact sound
  | signed | accepted | rejected =>
    cases on
    exact sound_sending sound
  | noState | stale | noPrice | priceOverflow | noMints | mintsOverflow | gated | uncounted
  | unsigned | gaveUp | noReceipt | noHead | settled => cases on
  | timedOut | unmined | mined | confirmed | unconfirmed =>
    cases on
    trivial

theorem ComesTo.sound (bounded : cfg.maxMintsPerBlock = 10)
    (comes : ComesTo cfg hit s h next phase) : phase.Sound s h := by
  obtain ⟨start, es, fresh, reached⟩ := comes
  have kept : ∀ p, ∀ e ∈ es, ∀ q, p.2.Sound s h → (callMachine cfg hit).step p e = some q →
      q.2.Sound s h := by
    rintro ⟨n, phase⟩ ⟨view, e⟩ member ⟨n', phase'⟩ sound taken
    simp only [callMachine] at taken
    split at taken <;> cases taken
    next resumed => exact sound.kept bounded (fresh _ member) (resume_cases resumed) rfl
  have begins : Phase.Sound s h (start, Phase.snapshot).2 := trivial
  have ended := Machine.invariant_run_of _ kept begins reached
  exact ended

theorem Snapshot.remaining {st : MiningState} (snapshot : Snapshot s h st)
    (exhausted : miningSupply ≤ s.totalMiningMinted) : st.remainingWei = 0 := by
  obtain ⟨sender, ret, read, decoded⟩ := snapshot
  simp only [Contract.miningState] at read
  obtain ⟨remaining, rest, read⟩ := bind_returns.mp read
  obtain ⟨blocksLeft, _, read⟩ := bind_returns.mp read
  cases read
  obtain ⟨_, difference⟩ := toNat_of_subChecked rest
  rw [Nat.sub_eq_zero_of_le exhausted] at difference
  have zero : remaining = 0 := BitVec.eq_of_toNat_eq difference
  simp only [MiningState.decode?, Option.bind_eq_bind, Option.bind_eq_some_iff] at decoded
  obtain ⟨_, _, _, _, _, _, same⟩ := decoded
  cases same
  exact zero

theorem Snapshot.supply {st : MiningState} {token : Token Ledger} {ledger : Ledger}
    {sender : Address} {nonce : U256} (snapshot : Snapshot s h st)
    (reverted : mineNext token ledger s h sender nonce = .error .supplyExhausted) :
    st.remainingWei = 0 ∨ 64 * eraMints.toNat ≤ s.totalMints.toNat + 1 := by
  cases mine_reverts reverted with
  | exhausted none => exact .inl (snapshot.remaining none)
  | noReward total counted nothing =>
    have late := (rewardOf_eq_zero_iff _).mp nothing
    rw [BitVec.toNat_udiv, counted] at late
    exact .inr ((Nat.le_div_iff_mul_le (by decide)).mp late)

theorem mineNext_uncapped {token : Token Ledger} {ledger : Ledger} {sender : Address}
    {nonce : U256} (standing : AtHead s h.toNat) :
    mineNext token ledger s h sender nonce ≠ .error .blockCapReached := by
  have number : (BitVec.ofNat 256 (h.toNat + 1)).toNat = h.toNat + 1 := by
    have range := h.isLt
    exact Nat.mod_eq_of_lt (by omega)
  have later : h.toNat < (BitVec.ofNat 256 (h.toNat + 1)).toNat := by
    rw [number]
    exact Nat.lt_succ_self _
  intro reverted
  cases mine_reverts reverted with
  | blockCap full =>
    change Contract.maxMintsPerBlock ≤ s.mintsInBlock (BitVec.ofNat 256 (h.toNat + 1)) at full
    rw [standing _ later] at full
    exact absurd full (by decide)

theorem RefusedByCap.full (bounded : cfg.maxMintsPerBlock = 10)
    (refused : RefusedByCap cfg hit s h next phase) :
    Contract.maxMintsPerBlock ≤ s.mintsInBlock (h.setWidth 256) := by
  obtain ⟨view, word, next', fresh, dropped⟩ := refused
  have resumes := resume_cases dropped
  generalize ended : (next', Progress.done (.ok (.dropped .evGate))) = r at resumes
  cases resumes with
  | gated st maxFee head word profitable mints fits refused =>
    rw [bounded] at refused
    exact fresh.mints word true rfl ▸ full_of_not_allow fits refused
  | held st maxFee head word profitable mints n =>
    rcases reserved_cases cfg next hit st maxFee n with panicked | ⟨after, _, signing⟩
    · rw [panicked] at ended
      cases ended
    · rw [signing] at ended
      cases ended
  | mintsOverflow | unheld => cases ended

/-- Whatever the node answers for one storage, the gate keeps the cap of the next block,
by the mints of the head block alone; what it lets pass is rejected for the supply only
when no reward is left to mint. -/
theorem comesTo_bounds (token : Token Ledger) (ledger : Ledger) (overflowChecks : Bool)
    (confirmations : U64) (signer : Address) (hit : Hit) (s : Storage) (h : U64)
    (next : Option U64) (phase : Phase) (standing : AtHead s h.toNat)
    (comes : ComesTo (.deployed overflowChecks confirmations signer) hit s h next phase) :
    Bounds token ledger (.deployed overflowChecks confirmations signer) hit s h next phase := by
  constructor
  · intro st req sends
    have sound := comes.sound rfl
    unfold Phase.broadcast? at sends
    split at sends <;> cases sends
    obtain ⟨snapshot, room⟩ := sound
    exact ⟨mineNext_uncapped standing, snapshot.supply, room⟩
  · exact RefusedByCap.full rfl

section Layout

/-- Balances that take every transfer. -/
def layoutToken : Token Unit := ⟨fun _ _ _ _ => .ok ()⟩

/-- A storage of era 4, with the mints of the block 25070750. -/
def layoutStorage (totalMints minted mints : U256) : Storage where
  genesisComplete := true
  totalMints := totalMints
  totalMiningMinted := minted
  currentDifficulty := BitVec.allOnes 256
  lastAdjustmentMint := 423360
  lastAdjustmentBlock := 25070000
  mintsInBlock b := if b = 25070750 then mints else 0
  usedProofs _ := false

/-- After the last mint. -/
def exhaustedStorage : Storage := layoutStorage 424015 miningSupply 0

/-- What 424000 mints have brought. -/
def lateMinted : U256 := BitVec.ofNat 256 (1889990625 * 10 ^ 16)

def lateStorage (mints : U256) : Storage := layoutStorage 424000 lateMinted mints

def layoutSnapshot (minted : U256) : MiningState :=
  ⟨4, 6250000000000000000, BitVec.allOnes 256, minted, miningSupply - minted, 250707, 50⟩

def storedView (minted : U256) : ChainView := ⟨25070750, .ok (layoutSnapshot minted)⟩

/-- The hit of the layout test. -/
def layoutProof : Hit :=
  ⟨0x4243, computeInnerHash Keccak.keccak256 layoutChallenge 0x4243, 250707⟩

variable {totalMints minted mints : U256}

theorem layoutProof_works (totalMints minted mints : U256) :
    layoutProof.hash.value < (layoutStorage totalMints minted mints).currentDifficulty.toNat := by
  have leading := value_layoutChallenge
  have bound : (layoutStorage totalMints minted mints).currentDifficulty.toNat = 2 ^ 256 - 1 :=
    BitVec.toNat_allOnes
  rw [bound]
  change (computeInnerHash Keccak.keccak256 layoutChallenge 0x4243).value < 2 ^ 256 - 1
  omega

theorem atHead_layoutStorage (totalMints minted mints : U256) :
    AtHead (layoutStorage totalMints minted mints) (25070750 : U64).toNat := by
  intro b after
  refine if_neg ?_
  rintro rfl
  exact absurd after (by decide)

/-- What a node answers for a storage in the middle of the epoch of the hit. -/
theorem snapshot_of_era {s : Storage} {era : U64}
    (shown : U256.toU64? (s.totalMints / eraMints) = some era)
    (supplied : s.totalMiningMinted.toNat ≤ miningSupply.toNat) :
    Snapshot s 25070750 ⟨era, rewardOf (s.totalMints / eraMints), s.currentDifficulty,
      s.totalMiningMinted, miningSupply - s.totalMiningMinted, 250707, 50⟩ := by
  refine ⟨layoutMiner, _, miningState_ok _ _ supplied, ?_⟩
  have epoch : U256.toU64? (BitVec.ofNat 256 (25070750 : U64).toNat / Contract.epochBlocks) =
    some 250707 := by decide +kernel
  have blocksLeft : U256.toU64? (Contract.epochBlocks -
    BitVec.ofNat 256 (25070750 : U64).toNat % Contract.epochBlocks) = some 50 := by decide +kernel
  simp only [MiningState.decode?, Contract.epoch, envAt, shown, epoch, blocksLeft]
  rfl

theorem snapshot_layoutStorage (era : totalMints / eraMints = 4)
    (supplied : minted.toNat ≤ miningSupply.toNat) :
    Snapshot (layoutStorage totalMints minted mints) 25070750 (layoutSnapshot minted) := by
  have reward : rewardOf 4 = 6250000000000000000 := by decide +kernel
  have fourth : U256.toU64? 4 = some 4 := by decide +kernel
  rw [layoutSnapshot, ← reward, ← era]
  exact snapshot_of_era (era ▸ fourth) supplied

theorem fresh_storedView {e : SubmitEvent} (era : totalMints / eraMints = 4)
    (supplied : minted.toNat ≤ miningSupply.toNat)
    (counted : ∀ word profitable, e = .mintsInBlock (.ok word) profitable → word = mints) :
    Fresh (layoutStorage totalMints minted mints) 25070750 (storedView minted, e) where
  head := rfl
  state := ⟨_, rfl, snapshot_layoutStorage era supplied⟩
  mints word profitable same := counted word profitable same

def layoutSending (minted : U256) : Phase :=
  .send (layoutSnapshot minted) (buildMineTx layoutMiner 0 0x4243 maxPriority) "mev-blocker"
    ["flashbots", "public"] none []

theorem comesTo_layoutSending (era : totalMints / eraMints = 4)
    (supplied : minted.toNat ≤ miningSupply.toNat) :
    ComesTo layoutCfg layoutProof (layoutStorage totalMints minted 0) 25070750 (some 1)
      (layoutSending minted) := by
  refine ⟨none, answered (storedView minted), ?_, run_answered false 2 layoutMiner rfl rfl⟩
  intro e member
  simp only [answered, List.mem_cons, List.not_mem_nil, or_false] at member
  rcases member with rfl | rfl | rfl | rfl | rfl
  case inr.inr.inl =>
    refine fresh_storedView era supplied fun word profitable same => ?_
    cases same
    rfl
  all_goals exact fresh_storedView era supplied nofun

def layoutGate (minted : U256) : Phase := .evGate (layoutSnapshot minted) maxPriority 25070750

theorem comesTo_layoutGate (era : totalMints / eraMints = 4)
    (supplied : minted.toNat ≤ miningSupply.toNat) :
    ComesTo layoutCfg layoutProof (layoutStorage totalMints minted mints) 25070750 none
      (layoutGate minted) := by
  refine ⟨none, [(storedView minted, .snapshot), (storedView minted, .gasPrice (.ok 0))], ?_, rfl⟩
  intro e member
  simp only [List.mem_cons, List.not_mem_nil, or_false] at member
  rcases member with rfl | rfl <;> exact fresh_storedView era supplied nofun

theorem lateMinted_le : lateMinted.toNat ≤ miningSupply.toNat := by decide

/-- Some mints are left. -/
theorem comesTo_bounds_lateStorage :
    Bounds layoutToken () layoutCfg layoutProof (lateStorage 0) 25070750 (some 1)
      (layoutSending lateMinted) :=
  comesTo_bounds layoutToken () false 2 layoutMiner _ _ _ _ _ (atHead_layoutStorage _ _ 0)
    (comesTo_layoutSending (by decide) lateMinted_le)

/-- The hit is sent when the supply is exhausted, and not when the head block is full. -/
theorem gate_passes_exhausted_refuses_free :
    (∀ totalMints minted mints, layoutProof.hash.value <
        (layoutStorage totalMints minted mints).currentDifficulty.toNat) ∧
    (ComesTo layoutCfg layoutProof exhaustedStorage 25070750 (some 1)
        (layoutSending miningSupply) ∧
      ¬ Agrees layoutToken () layoutCfg layoutProof exhaustedStorage 25070750 (some 1)
        (layoutSending miningSupply)) ∧
    ComesTo layoutCfg layoutProof (lateStorage 10) 25070750 none (layoutGate lateMinted) ∧
      ¬ Agrees layoutToken () layoutCfg layoutProof (lateStorage 10) 25070750 none
        (layoutGate lateMinted) := by
  refine ⟨layoutProof_works, ⟨comesTo_layoutSending (by decide) (Nat.le_refl _), fun agrees => ?_⟩,
    comesTo_layoutGate (by decide) lateMinted_le, fun agrees => ?_⟩
  · have exhausted : mineNext layoutToken () exhaustedStorage 25070750 layoutMiner
        0x4243 = .error .supplyExhausted := rfl
    exact (agrees.sent _ _ rfl).1 exhausted
  · have refused : RefusedByCap layoutCfg layoutProof (lateStorage 10) 25070750 none
        (layoutGate lateMinted) := by
      refine ⟨storedView lateMinted, 10, none,
        fresh_storedView (by decide) lateMinted_le fun _ _ same => ?_, rfl⟩
      cases same
      rfl
    exact mineNext_uncapped (atHead_layoutStorage _ _ 10) (agrees.refused refused)

end Layout

end HashMiner.Tx
