import HashMiner.Chain.Watcher

/-!
# What the channel knows of the last snapshot

The loop publishes when the epoch is new to it. A difficulty that changes within an
epoch, or an update for which there is no receiver yet, does not reach the channel.
-/

namespace HashMiner.Chain

open Foundation

namespace Watcher

variable {keccak : Digest} {miner : Address} {w t : Watcher} {e : WatcherEvent}

/-- The channel holds the update for the last snapshot. -/
def Agrees (keccak : Digest) (miner : Address) (w : Watcher) : Prop :=
  ∃ st, w.lastState = some st ∧ w.updates.value.epoch = st.epoch ∧
    w.updates.value.target = st.difficulty ∧
    w.updates.value.challenge = computeChallenge keccak chainId contract miner st.epoch

/-- The step ends an iteration in which `miningState` succeeded. -/
def Ends (e : WatcherEvent) (t : Watcher) : Prop :=
  t.poll = .tick ∧ (e = .publish ∨ ∃ st, e = .miningState (.ok st))

def Holds (w : Watcher) (snap : MiningState) : Prop :=
  w.updates.value.epoch = snap.epoch ∧ w.updates.value.target = snap.difficulty

/-- The snapshot repeats what the channel holds; or its epoch is new to the loop, and
somebody receives the update. -/
def Reaches (w : Watcher) : WatcherEvent → Prop
  | .miningState (.ok st) =>
    ∀ snap, MiningState.decode? st = some snap → w.lastEpoch = some snap.epoch → w.Holds snap
  | .publish => 0 < w.updates.receivers ∨ ∀ snap bn, w.poll = .publish snap bn → w.Holds snap
  | _ => True

structure Sound (keccak : Digest) (miner : Address) (w : Watcher) : Prop where
  challenge : w.updates.value.challenge =
    computeChallenge keccak chainId contract miner w.updates.value.epoch
  snapshot : ∀ snap bn, w.poll = .publish snap bn → w.lastState = some snap

theorem start_sound {blockNumber : Except String U64} {state : Except String MiningStateReturn}
    (started : start keccak miner blockNumber state = some (.ok w)) : Sound keccak miner w := by
  obtain ⟨_, _, initial, _, _, _, rfl⟩ := start_cases started
  exact ⟨rfl, nofun⟩

theorem Sound.step (inv : Sound keccak miner w) (taken : Watcher.step keccak miner w e = some t) :
    Sound keccak miner t := by
  cases step_cases taken with
  | block | failed | panic | known => exact ⟨inv.challenge, nofun⟩
  | unread => exact inv
  | new bn st snap =>
    refine ⟨inv.challenge, fun snap' bn' same => ?_⟩
    cases same
    rfl
  | publish snap bn here =>
    refine ⟨?_, nofun⟩
    unfold Watcher.publish Watch.send
    split
    · exact inv.challenge
    · rfl
  | subscribe => exact ⟨inv.challenge, inv.snapshot⟩
  | unsubscribe => exact ⟨inv.challenge, inv.snapshot⟩

theorem Sound.agrees_iff {snap : MiningState} (inv : Sound keccak miner w)
    (stored : w.lastState = some snap) : Agrees keccak miner w ↔ w.Holds snap := by
  constructor
  · rintro ⟨st, same, epoch, target, _⟩
    cases stored.symm.trans same
    exact ⟨epoch, target⟩
  · rintro ⟨epoch, target⟩
    exact ⟨snap, stored, epoch, target, epoch ▸ inv.challenge⟩

/-- What one step does to the channel. -/
theorem Sound.agrees_after_iff (inv : Sound keccak miner w)
    (taken : Watcher.step keccak miner w e = some t) :
    (Ends e t → Agrees keccak miner t) ↔ Reaches w e := by
  have next := inv.step taken
  cases step_cases taken with
  | block | unread | failed | subscribe | unsubscribe =>
    refine iff_of_true (fun ⟨_, ended⟩ => ?_) trivial
    simp at ended
  | panic bn st here undecoded =>
    refine iff_of_true (fun ⟨ticks, _⟩ => nomatch ticks) fun snap decoded => ?_
    cases undecoded.symm.trans decoded
  | known bn st snap here decoded same =>
    have ends : Ends (.miningState (.ok st)) { w with lastState := some snap, poll := .tick } :=
      ⟨rfl, .inr ⟨st, rfl⟩⟩
    rw [next.agrees_iff rfl]
    constructor
    · intro holds snap' decoded' _
      cases decoded.symm.trans decoded'
      exact holds ends
    · intro reached _
      exact reached snap decoded same
  | new bn st snap here decoded fresh =>
    refine iff_of_true (fun ⟨ticks, _⟩ => nomatch ticks) fun snap' decoded' same => ?_
    cases decoded.symm.trans decoded'
    exact absurd same fresh
  | publish snap bn here =>
    have stored : (w.publish keccak miner snap bn).lastState = some snap :=
      inv.snapshot snap bn here
    have ends : Ends .publish (w.publish keccak miner snap bn) := ⟨rfl, .inl rfl⟩
    rw [next.agrees_iff stored]
    rcases Nat.eq_zero_or_pos w.updates.receivers with unreceived | received
    · have same : (w.publish keccak miner snap bn).updates = w.updates :=
        Watch.send_unreceived _ unreceived
      rw [Holds, same]
      constructor
      · intro holds
        refine .inr fun snap' bn' here' => ?_
        cases here.symm.trans here'
        exact holds ends
      · rintro (received | holds) _
        · rw [unreceived] at received
          cases received
        · exact holds snap bn here
    · have sent : (w.publish keccak miner snap bn).updates.value = update keccak miner snap bn := by
        rw [Watcher.publish, Watch.send_received _ received]
      rw [Holds, sent]
      exact iff_of_true (fun _ => ⟨rfl, rfl⟩) (.inl received)

/-- Along every run, an iteration leaves the channel in agreement with its snapshot
exactly when the snapshot reaches the channel or repeats it. -/
theorem along_agrees_iff_reaches (keccak : Digest) (miner : Address)
    (blockNumber : Except String U64) (state : Except String MiningStateReturn) (w : Watcher)
    (started : start keccak miner blockNumber state = some (.ok w)) (es : List WatcherEvent) :
    (machine keccak miner).Along (fun _ e t => Ends e t → Agrees keccak miner t) w es ↔
      (machine keccak miner).Along (fun w e _ => w.Reaches e) w es := by
  refine Machine.along_congr ?_ (start_sound started) es
  intro w e t inv taken
  exact ⟨inv.step taken, inv.agrees_after_iff taken⟩

theorem along_agrees_first_poll :
    ∃ w, start Keccak.keccak256 layoutMiner (.ok 150) (.ok (answer 1 1024)) = some (.ok w) ∧
      (machine Keccak.keccak256 layoutMiner).Along
        (fun _ e t => Ends e t → Agrees Keccak.keccak256 layoutMiner t) w
        [.subscribe, .blockNumber (.ok 150), .miningState (.ok (answer 1 1024)), .publish] := by
  have started : start Keccak.keccak256 layoutMiner (.ok 150) (.ok (answer 1 1024)) =
      some (.ok _) := rfl
  refine ⟨_, started, (along_agrees_iff_reaches _ _ _ _ _ started _).mpr ?_⟩
  refine (Machine.along_cons rfl).mpr ⟨trivial, (Machine.along_cons rfl).mpr ⟨trivial, ?_⟩⟩
  refine (Machine.along_cons rfl).mpr ⟨?_, (Machine.along_cons rfl).mpr ⟨.inl (by decide), trivial⟩⟩
  intro snap decoded same
  cases same

/-- The difficulty falls within epoch 1, and the channel keeps the old one. -/
theorem retarget_within_epoch_unpublished :
    ∃ w, start Keccak.keccak256 layoutMiner (.ok 150) (.ok (answer 1 1024)) = some (.ok w) ∧
      ¬ (machine Keccak.keccak256 layoutMiner).Along
        (fun _ e t => Ends e t → Agrees Keccak.keccak256 layoutMiner t) w
        ([.subscribe, .blockNumber (.ok 150), .miningState (.ok (answer 1 1024)), .publish,
          .blockNumber (.ok 151)] ++ [.miningState (.ok (answer 1 512))]) := by
  refine ⟨_, rfl, fun along => ?_⟩
  obtain ⟨st, stored, _, target, _⟩ := along.at_step rfl rfl ⟨rfl, .inr ⟨_, rfl⟩⟩
  cases stored
  exact absurd target (by decide)

end Watcher

end HashMiner.Chain
