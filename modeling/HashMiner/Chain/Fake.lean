import HashMiner.Chain.Watcher
import HashMiner.Foundation.Clients

/-!
# The chain of the tests

`advanceBlocks` moves the head in one critical section and publishes the epoch that it
came to in another; `setDifficulty` does all in one. Any number of calls overlap.
-/

namespace HashMiner.Chain

open Foundation

structure FakeChain where
  head : U64
  difficulty : U256
  minted : U256
  totalMints : U64
  updates : Watch ChallengeUpdate

namespace FakeChain

/-- A call of `advanceBlocks` between its two sections, or none. -/
inductive Call where
  | idle
  | rolled (newEpoch : U64)

inductive CallEvent where
  | advance (n : U64)
  | publish
  | setDifficulty (d : U256)
  | subscribe
  | unsubscribe

variable (overflowChecks : Bool) (keccak : Digest) (miner : Address)

def challengeFor (s : FakeChain) : B256 :=
  computeChallenge keccak chainId contract miner (s.head / epochBlocks)

/-- `mining_state()` -/
def miningState (s : FakeChain) : MiningState where
  era := s.totalMints / 100000
  rewardWei := BitVec.ofNat 256 (100 * 10 ^ 18)
  difficulty := s.difficulty
  mintedWei := s.minted
  remainingWei := 0
  epoch := s.head / epochBlocks
  epochBlocksLeft := epochBlocks - s.head % epochBlocks

def update (s : FakeChain) (epoch : U64) : ChallengeUpdate where
  challenge := computeChallenge keccak chainId contract miner epoch
  target := s.difficulty
  epoch := epoch
  blockNumber := s.head

def publish (s : FakeChain) (epoch : U64) : FakeChain :=
  { s with updates := s.updates.send (s.update keccak miner epoch) }

/-- The receiver of the new channel is dropped. -/
def new (initialHead : U64) (difficulty : U256) : FakeChain where
  head := initialHead
  difficulty := difficulty
  minted := 0
  totalMints := 0
  updates := (Watch.channel {
    challenge := computeChallenge keccak chainId contract miner (initialHead / epochBlocks)
    target := difficulty
    epoch := initialHead / epochBlocks
    blockNumber := initialHead }).drop

/-- A call that panics leaves its lock and is over. -/
def act (s : FakeChain) : Call → CallEvent → Option (FakeChain × Call)
  | .idle, .advance n =>
    match addUnsigned overflowChecks s.head n with
    | none => some (s, .idle)
    | some head =>
      if head / epochBlocks ≠ s.head / epochBlocks then
        some ({ s with head }, .rolled (head / epochBlocks))
      else some ({ s with head }, .idle)
  | .rolled newEpoch, .publish => some (s.publish keccak miner newEpoch, .idle)
  | .idle, .setDifficulty d =>
    some ({ s with difficulty := d }.publish keccak miner (s.head / epochBlocks), .idle)
  | .idle, .subscribe => some ({ s with updates := s.updates.subscribe }, .idle)
  | .idle, .unsubscribe => some ({ s with updates := s.updates.drop }, .idle)
  | _, _ => none

abbrev Calls (Id : Type*) := Clients.State Id FakeChain Call

def machine (Id : Type*) [DecidableEq Id] : Machine (Calls Id) (Id × CallEvent) :=
  Clients.machine ⟨act overflowChecks keccak miner⟩

/-- The last update says what the chain says. -/
structure Agrees (s : FakeChain) : Prop where
  epoch : s.updates.value.epoch = s.miningState.epoch
  challenge : s.updates.value.challenge = s.challengeFor keccak miner
  target : s.updates.value.target = s.miningState.difficulty

variable {Id : Type*}

/-- Published epochs do not decrease, and the last update is right when all calls have
returned. -/
structure Faithful (g t : Calls Id) : Prop where
  rises : g.shared.updates.value.epoch ≤ t.shared.updates.value.epoch
  settled : (∀ id, t.locals id = .idle) → Agrees keccak miner t.shared

/-- The update is not lost, or is the one that is held. -/
def Heard (s : FakeChain) (target : U256) (epoch : U64) : Prop :=
  0 < s.updates.receivers ∨ s.updates.value.target = target ∧ s.updates.value.epoch = epoch

/-- Updates are heard, and a call that publishes is not behind the one that published last. -/
def InTurn (overflowChecks : Bool) (g : Calls Id) : Id × CallEvent → Prop
  | (_, .advance n) => overflowChecks = false → g.shared.head.toNat + n.toNat < 2 ^ 64
  | (id, .publish) => ∀ newEpoch, g.locals id = .rolled newEpoch →
    g.shared.updates.value.epoch ≤ newEpoch ∧ Heard g.shared g.shared.difficulty newEpoch
  | (_, .setDifficulty d) => Heard g.shared d (g.shared.head / epochBlocks)
  | _ => True

def start (initialHead : U64) (difficulty : U256) : Calls Id :=
  ⟨new keccak miner initialHead difficulty, fun _ => .idle⟩

variable {overflowChecks keccak miner} {g t : Calls Id} {s : FakeChain} {id : Id} {e : CallEvent}

/-- A call has come to an epoch that the head has not left. -/
def Remembers (s : FakeChain) (call : Call) : Prop :=
  ∀ newEpoch, call = .rolled newEpoch → newEpoch ≤ s.head / epochBlocks

/-- The update is of the current difficulty, and a call is about to publish the epoch of
the head if it does not have it. -/
structure Follows (keccak : Digest) (miner : Address) (g : Calls Id) : Prop where
  challenge : g.shared.updates.value.challenge =
    computeChallenge keccak chainId contract miner g.shared.updates.value.epoch
  target : g.shared.updates.value.target = g.shared.difficulty
  published : g.shared.updates.value.epoch ≤ g.shared.head / epochBlocks
  remembered : ∀ id, Remembers g.shared (g.locals id)
  pending : g.shared.updates.value.epoch = g.shared.head / epochBlocks ∨
    ∃ id, g.locals id = .rolled (g.shared.head / epochBlocks)

theorem Follows.settled (inv : Follows keccak miner t) (idle : ∀ id, t.locals id = .idle) :
    Agrees keccak miner t.shared := by
  have epoch : t.shared.updates.value.epoch = t.shared.head / epochBlocks := by
    rcases inv.pending with same | ⟨id, rolled⟩
    · exact same
    · cases (idle id).symm.trans rolled
  refine ⟨epoch, ?_, inv.target⟩
  rw [inv.challenge, epoch]
  rfl

theorem start_follows (initialHead : U64) (difficulty : U256) :
    Follows keccak miner (start keccak miner initialHead difficulty : Calls Id) where
  challenge := rfl
  target := rfl
  published := Nat.le_refl _
  remembered := nofun
  pending := .inl rfl

theorem epoch_mono {a b : U64} (le : a.toNat ≤ b.toNat) : a / epochBlocks ≤ b / epochBlocks := by
  rw [BitVec.le_def, BitVec.toNat_udiv, BitVec.toNat_udiv]
  exact Nat.div_le_div_right le

/-- The channel holds what has been published, whether it was stored or held before. -/
theorem publish_value {newEpoch : U64} (known : s.updates.value.challenge =
      computeChallenge keccak chainId contract miner s.updates.value.epoch)
    (heard : Heard s s.difficulty newEpoch) :
    (s.publish keccak miner newEpoch).updates.value.epoch = newEpoch ∧
      (s.publish keccak miner newEpoch).updates.value.target = s.difficulty ∧
      (s.publish keccak miner newEpoch).updates.value.challenge =
        computeChallenge keccak chainId contract miner newEpoch := by
  by_cases received : 0 < s.updates.receivers
  · simp only [publish, Watch.send_received _ received]
    exact ⟨rfl, rfl, rfl⟩
  · have lost : s.updates.receivers = 0 := Nat.eq_zero_of_not_pos received
    simp only [publish, Watch.send_unreceived _ lost]
    rcases heard with received | ⟨target, epoch⟩
    · exact absurd lost (Nat.pos_iff_ne_zero.mp received)
    · exact ⟨epoch, target, epoch ▸ known⟩

/-- The steps by name. -/
inductive Moves (overflowChecks : Bool) (keccak : Digest) (miner : Address) (s : FakeChain) :
    Call → CallEvent → FakeChain → Call → Prop
  | panicked (n : U64) : addUnsigned overflowChecks s.head n = none →
      Moves overflowChecks keccak miner s .idle (.advance n) s .idle
  | rolled (n head : U64) : addUnsigned overflowChecks s.head n = some head →
      head / epochBlocks ≠ s.head / epochBlocks →
      Moves overflowChecks keccak miner s .idle (.advance n) { s with head }
        (.rolled (head / epochBlocks))
  | within (n head : U64) : addUnsigned overflowChecks s.head n = some head →
      head / epochBlocks = s.head / epochBlocks →
      Moves overflowChecks keccak miner s .idle (.advance n) { s with head } .idle
  | publish (newEpoch : U64) :
      Moves overflowChecks keccak miner s (.rolled newEpoch) .publish
        (s.publish keccak miner newEpoch) .idle
  | setDifficulty (d : U256) :
      Moves overflowChecks keccak miner s .idle (.setDifficulty d)
        ({ s with difficulty := d }.publish keccak miner (s.head / epochBlocks)) .idle
  | subscribe : Moves overflowChecks keccak miner s .idle .subscribe
      { s with updates := s.updates.subscribe } .idle
  | unsubscribe : Moves overflowChecks keccak miner s .idle .unsubscribe
      { s with updates := s.updates.drop } .idle

theorem act_cases {call own : Call} {s' : FakeChain}
    (acts : act overflowChecks keccak miner s call e = some (s', own)) :
    Moves overflowChecks keccak miner s call e s' own := by
  unfold act at acts
  split at acts
  · split at acts
    · next overflow =>
      cases acts
      exact .panicked _ overflow
    · next head sum =>
      split at acts <;> cases acts
      · next rolls => exact .rolled _ head sum rolls
      · next stays => exact .within _ head sum (not_not.mp stays)
  · cases acts
    exact .publish _
  · cases acts
    exact .setDifficulty _
  · cases acts
    exact .subscribe
  · cases acts
    exact .unsubscribe
  · cases acts

theorem Follows.faithful (inv : Follows keccak miner t)
    (rises : g.shared.updates.value.epoch ≤ t.shared.updates.value.epoch) :
    Faithful keccak miner g t := ⟨rises, inv.settled⟩

variable [DecidableEq Id]

theorem Follows.advance {head : U64} {own : Call} (inv : Follows keccak miner g)
    (here : g.locals id = .idle) (later : g.shared.head.toNat ≤ head.toNat)
    (rolls : own = .idle ∧ head / epochBlocks = g.shared.head / epochBlocks ∨
      own = .rolled (head / epochBlocks)) :
    Follows keccak miner ⟨{ g.shared with head }, Function.update g.locals id own⟩ where
  challenge := inv.challenge
  target := inv.target
  published := BitVec.le_trans inv.published (epoch_mono later)
  remembered := by
    refine Clients.rely_update inv.remembered
      (fun newEpoch own => ?_) fun call kept newEpoch same => ?_
    · rcases rolls with ⟨rfl, _⟩ | rfl
      · cases own
      · cases own
        exact BitVec.le_refl _
    · exact BitVec.le_trans (kept newEpoch same) (epoch_mono later)
  pending := by
    rcases rolls with ⟨rfl, same⟩ | rfl
    · have unmoved : Function.update g.locals id .idle = g.locals := by
        rw [← here, Function.update_eq_self]
      change g.shared.updates.value.epoch = head / epochBlocks ∨ _
      rw [same, unmoved]
      exact inv.pending
    · exact .inr ⟨id, Function.update_self ..⟩

theorem Follows.publishes {newEpoch : U64} {d : U256} (inv : Follows keccak miner g)
    (heard : Heard g.shared d newEpoch) (rises : g.shared.updates.value.epoch ≤ newEpoch)
    (current : newEpoch ≤ g.shared.head / epochBlocks)
    (own : g.locals id = .rolled newEpoch ∨ newEpoch = g.shared.head / epochBlocks) :
    Faithful keccak miner g
        ⟨{ g.shared with difficulty := d }.publish keccak miner newEpoch,
          Function.update g.locals id .idle⟩ ∧
      Follows keccak miner
        ⟨{ g.shared with difficulty := d }.publish keccak miner newEpoch,
          Function.update g.locals id .idle⟩ := by
  obtain ⟨epoch, target, challenge⟩ :=
    publish_value (s := { g.shared with difficulty := d }) inv.challenge heard
  have follows : Follows keccak miner
      ⟨{ g.shared with difficulty := d }.publish keccak miner newEpoch,
        Function.update g.locals id .idle⟩ := by
    refine ⟨?_, target, ?_, ?_, ?_⟩
    · exact challenge.trans (by rw [epoch])
    · change _ ≤ g.shared.head / epochBlocks
      rw [epoch]
      exact current
    · exact Clients.rely_update inv.remembered nofun fun call kept => kept
    · by_cases same : newEpoch = g.shared.head / epochBlocks
      · exact .inl (epoch.trans same)
      · have rolled := own.resolve_right same
        have behind : g.shared.updates.value.epoch ≠ g.shared.head / epochBlocks :=
          fun held => same (BitVec.le_antisymm current (held ▸ rises))
        obtain ⟨other, pending⟩ := inv.pending.resolve_left behind
        have apart : other ≠ id := by
          rintro rfl
          cases rolled.symm.trans pending
          exact same rfl
        exact .inr ⟨other, (Function.update_of_ne apart ..).trans pending⟩
  refine ⟨follows.faithful ?_, follows⟩
  change _ ≤ ({ g.shared with difficulty := d }.publish keccak miner newEpoch).updates.value.epoch
  rw [epoch]
  exact rises

theorem Follows.step (inv : Follows keccak miner g)
    (taken : (machine overflowChecks keccak miner Id).step g (id, e) = some t)
    (turn : InTurn overflowChecks g (id, e)) :
    Follows keccak miner t ∧ Faithful keccak miner g t := by
  obtain ⟨s, own, acts, rfl⟩ := Clients.machine_step.mp taken
  generalize here : g.locals id = call at acts
  have unmoved (same : g.locals id = .idle) : Function.update g.locals id .idle = g.locals := by
    rw [← same, Function.update_eq_self]
  cases act_cases acts with
  | panicked n overflow =>
    rw [unmoved here]
    exact ⟨inv, inv.faithful (BitVec.le_refl _)⟩
  | rolled n head sum rolls =>
    have later : g.shared.head.toNat ≤ head.toNat :=
      Nat.le.intro (toNat_of_addUnsigned sum turn).symm
    have follows := inv.advance here later (.inr rfl)
    exact ⟨follows, follows.faithful (BitVec.le_refl _)⟩
  | within n head sum stays =>
    have later : g.shared.head.toNat ≤ head.toNat :=
      Nat.le.intro (toNat_of_addUnsigned sum turn).symm
    have follows := inv.advance here later (.inl ⟨rfl, stays⟩)
    exact ⟨follows, follows.faithful (BitVec.le_refl _)⟩
  | publish newEpoch =>
    obtain ⟨rises, heard⟩ := turn newEpoch here
    exact (inv.publishes heard rises (inv.remembered id newEpoch here) (.inl here)).symm
  | setDifficulty d =>
    exact (inv.publishes turn inv.published (BitVec.le_refl _) (.inr rfl)).symm
  | subscribe | unsubscribe =>
    rw [unmoved here]
    refine ⟨?_, Follows.faithful ?_ (BitVec.le_refl _)⟩
    · exact ⟨inv.challenge, inv.target, inv.published, inv.remembered, inv.pending⟩
    · exact ⟨inv.challenge, inv.target, inv.published, inv.remembered, inv.pending⟩

/-- In every run of overlapping calls that are in turn and heard, the published epochs do
not decrease, and the last update agrees with the chain when all calls have returned. -/
theorem along_faithful (overflowChecks : Bool) (keccak : Digest) (miner : Address) (Id : Type*)
    [DecidableEq Id] (initialHead : U64) (difficulty : U256) (es : List (Id × CallEvent))
    (turns : (machine overflowChecks keccak miner Id).Along
      (fun g e _ => InTurn overflowChecks g e) (start keccak miner initialHead difficulty) es) :
    (machine overflowChecks keccak miner Id).Along (fun g _ t => Faithful keccak miner g t)
      (start keccak miner initialHead difficulty) es :=
  Machine.Along.of_invariant (fun _ _ _ inv taken turn => inv.step taken turn)
    (start_follows initialHead difficulty) turns

/-- Two calls roll the epoch, and publish in the order in which they have rolled it. -/
theorem along_faithful_in_order :
    (machine false Keccak.keccak256 layoutMiner Nat).Along
      (fun g _ t => Faithful Keccak.keccak256 layoutMiner g t)
      (start Keccak.keccak256 layoutMiner 99 1024)
      [(0, .subscribe), (0, .advance 1), (1, .advance 100), (0, .publish), (1, .publish)] := by
  apply along_faithful
  refine (Machine.along_cons rfl).mpr ⟨trivial, ?_⟩
  refine (Machine.along_cons rfl).mpr ⟨fun _ => by decide, ?_⟩
  refine (Machine.along_cons rfl).mpr ⟨fun _ => by decide, ?_⟩
  refine (Machine.along_cons rfl).mpr ⟨fun newEpoch rolled => ?_, ?_⟩
  · cases rolled
    exact ⟨by decide, .inl Nat.zero_lt_one⟩
  refine (Machine.along_cons rfl).mpr ⟨fun newEpoch rolled => ?_, trivial⟩
  cases rolled
  exact ⟨by decide, .inl Nat.zero_lt_one⟩

/-- The call that rolls first publishes last: epoch 1 at a head of epoch 2. -/
theorem overlapping_calls_publish_old_epoch :
    (∃ t, (machine false Keccak.keccak256 layoutMiner Nat).run
        (start Keccak.keccak256 layoutMiner 99 1024)
        ([(0, .subscribe), (0, .advance 1), (1, .advance 100), (1, .publish)] ++
          [(0, .publish)]) = some t ∧
      (∀ id, t.locals id = .idle) ∧ ¬ Agrees Keccak.keccak256 layoutMiner t.shared) ∧
    ¬ (machine false Keccak.keccak256 layoutMiner Nat).Along
      (fun g _ t => Faithful Keccak.keccak256 layoutMiner g t)
      (start Keccak.keccak256 layoutMiner 99 1024)
      ([(0, .subscribe), (0, .advance 1), (1, .advance 100), (1, .publish)] ++
        [(0, .publish)]) := by
  refine ⟨⟨_, rfl, fun id => ?_, fun agrees => ?_⟩, fun along => ?_⟩
  · by_cases first : id = 0
    · rw [first]
      rfl
    · by_cases second : id = 1
      · rw [second]
        rfl
      · simp [Function.update_of_ne, first, second, start]
  · exact absurd agrees.epoch (by decide)
  · have faithful := along.at_step rfl rfl
    exact absurd faithful.rises (by decide)

end FakeChain

end HashMiner.Chain
