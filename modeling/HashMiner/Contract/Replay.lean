import HashMiner.Contract.Guard

/-!
# What the events of the mining tell

The storage of the mining part is what its events lead to: who minted what, when a reward
was halved, and how the difficulty went.
-/

namespace HashMiner.Contract

open Foundation Chain

/-- A proof that was used, with the epoch that its event leaves out. -/
structure UsedProof where
  miner : Address
  nonce : U256
  epoch : U256

def UsedProof.key (p : UsedProof) : B256 :=
  Keccak.keccak256
    (Abi.encode [.address, Abi.uint256, Abi.uint256] (p.miner, p.nonce, p.epoch, ⟨⟩))

def Event.mint? : Event → Option (Address × U256 × U256 × U256)
  | .mined miner nonce reward era => some (miner, nonce, reward, era)
  | _ => none

def Event.taken? : Event → Option Nat
  | .difficultyAdjusted _ _ blocksTaken => some blocksTaken.toNat
  | _ => none

def Event.halving? : Event → Option (U256 × U256)
  | .halving era newReward => some (era, newReward)
  | _ => none

/-- The event of the `i + 1`-th mint. -/
def mintOf (i : Nat) (p : UsedProof) : Address × U256 × U256 × U256 :=
  (p.miner, p.nonce, BitVec.ofNat 256 (reward (i + 1)), BitVec.ofNat 256 ((i + 1) / 100000))

/-- The `e + 1`-th halving. -/
def halvingOf (e : Nat) : U256 × U256 :=
  (BitVec.ofNat 256 (e + 1), BitVec.ofNat 256 (reward (100000 * (e + 1))))

/-- The events lead to the storage. -/
structure Told (s : Storage) (events : List Event) (proofs : List UsedProof) : Prop where
  count : proofs.length = s.totalMints.toNat
  mints : events.filterMap Event.mint? = proofs.mapIdx mintOf
  halvings : events.filterMap Event.halving? =
    (List.range (s.totalMints.toNat / 100000)).map halvingOf
  used : ∀ key, s.usedProofs key = true ↔ key ∈ proofs.map UsedProof.key
  fresh : (proofs.map UsedProof.key).Nodup
  adjustments : s.lastAdjustmentMint.toNat = 2016 * (events.filterMap Event.taken?).length
  spaced : ∀ taken ∈ events.filterMap Event.taken?, 201 ≤ taken

/-- The first difficulty. -/
def openingDifficulty : Nat := 2 ^ 224 - 1

/-- The difficulty is the first one, retargeted by every adjustment. -/
def Retargeted (s : Storage) (events : List Event) : Prop :=
  s.currentDifficulty.toNat = (events.filterMap Event.taken?).foldl retarget openingDifficulty

section Call

variable {env : Env} {s t : Storage} {Ledger : Type} {token : Token Ledger}
variable {ledger ledger' : Ledger} {nonce : U256} {events new : List Event}
variable {proofs : List UsedProof}

theorem mints_of_mined (mined : Mined env s token ledger nonce t ledger' new) :
    new.filterMap Event.mint? =
      [mintOf s.totalMints.toNat ⟨env.sender, nonce, epoch env⟩] := by
  rw [mined.tells, List.filterMap_append, List.filterMap_append, adjustmentEvents, halvingEvents,
    mined.total]
  split <;> split <;> rfl

theorem taken_of_mined (counts : Counts s env.blockNumber)
    (mined : Mined env s token ledger nonce t ledger' new) :
    new.filterMap Event.taken? = if Due s then [sinceBlock env s] else [] := by
  have since : (env.blockNumber - s.lastAdjustmentBlock).toNat = sinceBlock env s :=
    BitVec.toNat_sub_of_le (BitVec.le_def.mpr counts.ordered)
  rw [mined.tells, List.filterMap_append, List.filterMap_append, adjustmentEvents, halvingEvents,
    ← since]
  split <;> split <;> rfl

theorem halvings_of_mined (mined : Mined env s token ledger nonce t ledger' new) :
    new.filterMap Event.halving? =
      if t.totalMints.toNat % 100000 = 0 then
        [(BitVec.ofNat 256 (t.totalMints.toNat / 100000),
          BitVec.ofNat 256 (reward t.totalMints.toNat))]
      else [] := by
  rw [mined.tells, List.filterMap_append, List.filterMap_append, adjustmentEvents, halvingEvents]
  split <;> split <;> rfl

/-- The halvings up to the next mint. -/
theorem halvings_succ (n : Nat) :
    (List.range ((n + 1) / 100000)).map halvingOf =
      (List.range (n / 100000)).map halvingOf ++
        if (n + 1) % 100000 = 0 then
          [(BitVec.ofNat 256 ((n + 1) / 100000), BitVec.ofNat 256 (reward (n + 1)))]
        else [] := by
  split
  · next whole =>
    have next : (n + 1) / 100000 = n / 100000 + 1 := by omega
    have multiple : 100000 * (n / 100000 + 1) = n + 1 := by omega
    rw [next, List.range_succ, List.map_append, List.map_singleton, halvingOf, multiple]
  · next rest =>
    have same : (n + 1) / 100000 = n / 100000 := by omega
    rw [same, List.append_nil]

/-- An adjustment is made with every 2016-th mint. -/
theorem Told.adjusted {number : U256} (told : Told s events proofs) (counts : Counts s number) :
    (events.filterMap Event.taken?).length = s.totalMints.toNat / 2016 := by
  have adjustments := told.adjustments
  have adjusted := counts.adjusted
  have recent := counts.recent
  omega

/-- A mint adds its events to those of the storage. -/
theorem Told.mine (told : Told s events proofs) (counts : Counts s env.blockNumber)
    (mined : mine env s token ledger nonce = .ok (t, ledger', new)) :
    Told t (events ++ new) (proofs ++ [⟨env.sender, nonce, epoch env⟩]) := by
  obtain ⟨accepts, effect⟩ := accepts_of_mine counts mined
  have unused : proofKey env nonce ∉ proofs.map UsedProof.key := by
    rw [← told.used, accepts.unused]
    exact Bool.false_ne_true
  have takes := taken_of_mined counts effect
  have retargets := effect.retargets
  refine ⟨?_, ?_, ?_, ?_, ?_, ?_, ?_⟩
  · rw [List.length_append, List.length_singleton, told.count, effect.total]
  · rw [List.filterMap_append, told.mints, mints_of_mined effect, List.mapIdx_concat, told.count]
  · rw [List.filterMap_append, told.halvings, halvings_of_mined effect, effect.total, halvings_succ]
  · intro key
    rw [effect.proofs, List.map_append, List.mem_append, ← told.used key, List.map_singleton,
      List.mem_singleton]
    by_cases same : key = proofKey env nonce
    · rw [same, Function.update_self]
      exact iff_of_true rfl (.inr rfl)
    · rw [Function.update_of_ne same]
      exact (or_iff_left same).symm
  · rw [List.map_append, List.map_singleton]
    refine List.nodup_append.mpr ⟨told.fresh, List.nodup_singleton _, ?_⟩
    intro key member other last
    cases List.mem_singleton.mp last
    rintro rfl
    exact unused member
  · rw [List.filterMap_append, List.length_append, Nat.mul_add, ← told.adjustments, takes]
    by_cases due : Due s
    · rw [if_pos due] at retargets ⊢
      rw [retargets.2.1, effect.total]
      exact due
    · rw [if_neg due] at retargets ⊢
      rw [retargets.2.1]
      rfl
  · rw [List.filterMap_append, takes]
    intro taken member
    rcases List.mem_append.mp member with earlier | latest
    · exact told.spaced taken earlier
    · split at latest
      · next due =>
        cases List.mem_singleton.mp latest
        exact counts.sinceBlock due
      · cases latest

theorem Retargeted.mine (retargeted : Retargeted s events) (counts : Counts s env.blockNumber)
    (mined : mine env s token ledger nonce = .ok (t, ledger', new)) :
    Retargeted t (events ++ new) := by
  obtain ⟨_, effect⟩ := accepts_of_mine counts mined
  have retargets := effect.retargets
  rw [Retargeted, List.filterMap_append, taken_of_mined counts effect, List.foldl_append,
    ← retargeted]
  by_cases due : Due s
  · rw [if_pos due] at retargets ⊢
    exact retargets.1
  · rw [if_neg due] at retargets ⊢
    rw [retargets.1]
    rfl

end Call

namespace Hash

def Event.mining? : Event → Option Contract.Event
  | .mining e => some e
  | _ => none

def miningEvents (s : State) : List Contract.Event := s.log.filterMap Event.mining?

/-- The storage of the mining is about to be set. -/
def Pending.prepares : Pending → Bool
  | .initializePool _ _ _ => true
  | _ => false

def prepared (s : State) (ps : List Pending) : Bool := complete s && !ps.any Pending.prepares

structure Replayed (b : Block) (s : State) (ps : List Pending) : Prop where
  guarded : Guarded s ps
  counts : Counts s.mining b.number
  told : ∃ proofs, Told s.mining (miningEvents s) proofs
  unprepared : prepared s ps = false → s.mining.totalMints = 0
  retargeted : prepared s ps = true → Retargeted s.mining (miningEvents s)

variable {d : Deployment} {b : Block} {who : Option (Address × Call)} {s t : State}
variable {before after ps : List Pending}

/-- A part of a call that does not touch the mining. -/
theorem Replayed.rests {qs : List Pending} (holds : Replayed b s ps) (guarded : Guarded t qs)
    (mining : t.mining = s.mining) (told : miningEvents t = miningEvents s)
    (same : qs.any Pending.prepares = ps.any Pending.prepares) : Replayed b t qs := by
  have alike : prepared t qs = prepared s ps := by
    rw [prepared, prepared, complete, complete, mining, same]
  refine ⟨guarded, ?_, ?_, ?_, ?_⟩
  · rw [mining]
    exact holds.counts
  · rw [mining, told]
    exact holds.told
  · rw [mining, alike]
    exact holds.unprepared
  · rw [mining, told, alike]
    exact holds.retargeted

theorem miningEvents_emit {e : Event} (other : e.mining? = none) :
    miningEvents (emit s e) = miningEvents s := by
  rw [miningEvents, emit, List.filterMap_append, List.filterMap_cons_none other, List.filterMap_nil,
    List.append_nil]
  rfl

theorem not_prepares (none : ps.countP Pending.guarded = 0) : ps.any Pending.prepares = false := by
  refine List.any_eq_false.mpr fun p member prepares => ?_
  refine List.countP_eq_zero.mp none p member ?_
  cases p <;> trivial

theorem Replayed.moves (moves : Moves d b who s before t after)
    (holds : Replayed b s (before ++ ps)) : Replayed b t (after ++ ps) := by
  have guarded := holds.guarded.moves moves
  cases moves with
  | receive s sender value => exact holds.rests guarded rfl rfl rfl
  | token s sender call ledger => exact holds.rests guarded rfl rfl rfl
  | sells s sold sender units value cost hashAmount ledger sells =>
    obtain rfl := sells.result
    exact holds.rests guarded rfl (miningEvents_emit rfl) rfl
  | refunds s sold sender units value cost hashAmount sells =>
    obtain rfl := sells.result
    exact holds.rests guarded rfl rfl rfl
  | refunded s buyer cost hashAmount ledger =>
    exact holds.rests guarded rfl (miningEvents_emit rfl) rfl
  | opens s t sender call sqrtPriceX96 opens =>
    have none : s.mining.totalMints = 0 := by
      refine holds.unprepared ?_
      rw [prepared, opens.incomplete]
      rfl
    obtain ⟨ledger, _, rfl⟩ := opens.result
    obtain ⟨_, counts, ⟨proofs, told⟩, _, _⟩ := holds
    refine ⟨guarded, ?_, ⟨proofs, ?_⟩, fun _ => none, fun ready => by cases ready⟩
    · exact ⟨counts.emission, counts.within, counts.room, counts.ahead, counts.adjusted,
        counts.recent, counts.ordered, counts.pace⟩
    · exact ⟨told.count, told.mints, told.halvings, told.used, told.fresh, told.adjustments,
        told.spaced⟩
  | initialized s eth hashLP sqrtPriceX96 liquidity ledger =>
    have none : s.mining.totalMints = 0 := by
      refine holds.unprepared ?_
      rw [prepared, List.cons_append, List.any_cons, Pending.prepares, Bool.true_or, Bool.not_true,
        Bool.and_false]
    obtain ⟨_, counts, ⟨proofs, told⟩, _, _⟩ := holds
    have nothing : s.mining.totalMints.toNat = 0 := congrArg BitVec.toNat none
    have quiet : ((miningEvents s).filterMap Event.taken?) = [] := by
      have adjustments := told.adjustments
      have adjusted := counts.adjusted
      exact List.eq_nil_of_length_eq_zero (by omega)
    refine ⟨guarded, ?_, ⟨proofs, ?_⟩, fun _ => none, fun _ => ?_⟩
    · refine ⟨counts.emission, counts.within, counts.room, counts.ahead, Nat.zero_le _, ?_,
        Nat.le_refl _, ?_⟩
      · exact Nat.lt_of_le_of_lt (Nat.le_of_eq nothing) (Nat.succ_pos _)
      · exact Nat.le_trans (Nat.le_of_eq nothing) (Nat.zero_le _)
    · exact ⟨told.count, told.mints, told.halvings, told.used, told.fresh,
        (congrArg (2016 * List.length ·) quiet).symm, told.spaced⟩
    · change (Erc20.maxUint256 >>> 32).toNat = ((miningEvents s).filterMap Event.taken?).foldl _ _
      rw [quiet]
      decide
  | approved s eth hashLP sqrtPriceX96 liquidity => exact holds.rests guarded rfl rfl rfl
  | provides s eth hashLP sqrtPriceX96 liquidity => exact holds.rests guarded rfl rfl rfl
  | seeded s eth hashLP sqrtPriceX96 liquidity =>
    exact holds.rests guarded rfl ((miningEvents_emit rfl).trans (miningEvents_emit rfl)) rfl
  | mine s sender nonce mining ledger events free mined =>
    have ready := not_prepares (holds.guarded.free free)
    obtain ⟨_, counts, ⟨proofs, told⟩, _, retargeted⟩ := holds
    have genesis := (accepts_of_mine counts mined).1.genesis
    have ready : prepared s ([] ++ ps) = true := by
      rw [prepared, ready, complete, genesis]
      rfl
    have latest : miningEvents { s with mining, ledger, log := s.log ++ events.map .mining } =
        miningEvents s ++ events := by
      rw [miningEvents, List.filterMap_append, List.filterMap_map]
      exact congrArg (_ ++ ·) List.filterMap_some
    have same : prepared { s with mining, ledger, log := s.log ++ events.map .mining } ps =
        true := by
      rw [prepared, complete, mine_genesis mined]
      exact ready
    let env : Env := ⟨d.chainId, d.self, sender, b.number⟩
    refine ⟨guarded, counts.mine mined, ⟨proofs ++ [⟨sender, nonce, epoch env⟩], ?_⟩, ?_,
      fun _ => ?_⟩
    · rw [latest]
      exact told.mine counts mined
    · intro unprepared
      cases same.symm.trans unprepared
    · rw [latest]
      exact (retargeted ready).mine counts mined
  | claims s => exact holds.rests guarded rfl rfl rfl
  | claimed s amount => exact holds.rests guarded rfl (miningEvents_emit rfl) rfl
  | rests s sender call => exact holds
  | takes s origin params fee => exact holds.rests guarded rfl rfl rfl
  | took s origin fee => exact holds.rests guarded rfl (miningEvents_emit rfl) rfl
  | takesAfter s origin params delta fee => exact holds.rests guarded rfl rfl rfl
  | tookAfter s origin isBuy fee => exact holds.rests guarded rfl (miningEvents_emit rfl) rfl

theorem Replayed.advance {b' : Block} (holds : Replayed b s [])
    (next : b'.number.toNat = b.number.toNat + 1) : Replayed b' s [] := by
  have fits : b.number.toNat + 1 < 2 ^ 256 := by
    rw [← next]
    exact b'.number.isLt
  have same : b'.number = b.number + 1 := by
    apply BitVec.eq_of_toNat_eq
    rw [next, BitVec.toNat_add]
    exact (Nat.mod_eq_of_lt fits).symm
  refine ⟨holds.guarded, ?_, holds.told, holds.unprepared, holds.retargeted⟩
  rw [same]
  exact holds.counts.next fits

theorem keeps_replayed : (callee d).Keeps Replayed (fun _ _ _ => True) :=
  keeps_of_moves (fun holds next _ => holds.advance next) fun moves _ => Replayed.moves moves

theorem replayed_initial (b : Block) (balance : U256) : Replayed b (State.initial balance) [] where
  guarded := ⟨rfl, rfl⟩
  counts := {
    emission := rfl
    within := Nat.zero_le _
    room := fun _ => Nat.zero_le _
    ahead := fun _ _ => rfl
    adjusted := Nat.le_refl _
    recent := Nat.succ_pos _
    ordered := Nat.zero_le _
    pace := Nat.zero_le _ }
  told := ⟨[], rfl, rfl, by simp [State.initial, miningEvents],
    fun _ => iff_of_false Bool.false_ne_true List.not_mem_nil, List.nodup_nil, rfl,
    fun _ none => absurd none List.not_mem_nil⟩
  unprepared := fun _ => rfl
  retargeted := nofun

theorem reachable_replayed {balance : U256} {actions : List Action} {x : Execution}
    (reached : (machine d).run (deployed b balance) actions = some x) :
    Callee.Holds Replayed x.env x.state x.frames :=
  keeps_replayed.run_all (x := deployed b balance) (replayed_initial b balance) reached

/-- The mining is what its events tell: rewards and halvings in order, a proof used once, and,
once it is open, a difficulty that the adjustments at every 2016-th mint explain. -/
theorem run_replay {balance : U256} {actions : List Action} {x : Execution}
    (reached : (machine d).run (deployed b balance) actions = some x) :
    ∃ proofs, Told x.state.mining (miningEvents x.state) proofs ∧
      x.state.mining.totalMiningMinted.toNat = emitted proofs.length ∧
      proofs.length ≤ lastMint ∧
      ((miningEvents x.state).filterMap Event.taken?).length =
        x.state.mining.totalMints.toNat / 2016 ∧
      (prepared x.state (Callee.pendings x.frames) = true →
        Retargeted x.state.mining (miningEvents x.state)) := by
  obtain ⟨_, counts, ⟨proofs, told⟩, _, retargeted⟩ := (reachable_replayed reached).here
  refine ⟨proofs, told, ?_, ?_, told.adjusted counts, retargeted⟩
  · rw [told.count]
    exact counts.emission
  · rw [told.count]
    exact counts.within

theorem run_oneSaleMined : ((machine live).run (deployed ⟨25070700, 1800⟩ 0) oneSaleMined).map
    (fun x => (prepared x.state (Callee.pendings x.frames), x.state.mining.totalMints)) =
      some (true, 1) := by
  decide +kernel

theorem run_replay_oneSaleMined :
    ∃ x, (machine live).run (deployed ⟨25070700, 1800⟩ 0) oneSaleMined = some x ∧
      ∃ proofs, Told x.state.mining (miningEvents x.state) proofs ∧ proofs.length = 1 ∧
        Retargeted x.state.mining (miningEvents x.state) := by
  obtain ⟨x, reached, shape⟩ := Option.map_eq_some_iff.mp run_oneSaleMined
  obtain ⟨ready, mints⟩ := Prod.mk.injEq .. ▸ shape
  obtain ⟨proofs, told, _, _, _, retargeted⟩ := run_replay reached
  refine ⟨x, reached, proofs, told, ?_, retargeted ready⟩
  rw [told.count, mints]
  rfl

end Hash

end HashMiner.Contract
