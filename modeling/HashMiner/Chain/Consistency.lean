import HashMiner.Chain.Freshness

/-!
# What an iteration leaves

The block number is stored before the mining state is read. When the second read fails,
`head` is ahead of the snapshot and of the channel, which stay at the block of the last
iteration that read both.
-/

namespace HashMiner.Chain

open Foundation

namespace Watcher

variable {keccak : Digest} {miner : Address} {w t : Watcher} {e : WatcherEvent} {b : U64}

/-- The head, the snapshot and the channel are of one epoch. -/
structure Consistent (keccak : Digest) (miner : Address) (w : Watcher) : Prop where
  epoch : ∃ st, w.miningState = .ok st ∧ st.epoch = w.head / epochBlocks
  challenge : w.challengeFor keccak miner = .ok w.updates.value.challenge

/-- The snapshot and the channel are of the epoch of the block `b`. -/
structure StandsAt (keccak : Digest) (miner : Address) (w : Watcher) (b : U64) : Prop where
  epoch : ∃ st, w.miningState = .ok st ∧ st.epoch = b / epochBlocks
  challenge : w.updates.value.challenge =
    computeChallenge keccak chainId contract miner (b / epochBlocks)

/-- What an iteration leaves, whichever of its reads fails. -/
structure Leaves (keccak : Digest) (miner : Address) (w : Watcher) (e : WatcherEvent)
    (t : Watcher) : Prop where
  unread : ∀ error, e = .blockNumber (.error error) → t = w
  failed : ∀ error, e = .miningState (.error error) → t = { w with poll := .tick }
  observed : ∀ bn, e = .blockNumber (.ok bn) → t = { w with head := bn, poll := .state bn }
  complete : Ends e t → Consistent keccak miner t

/-- The state that the contract answers is of the epoch of the block read before it. -/
def Truthful (w : Watcher) : WatcherEvent → Prop
  | .miningState (.ok st) => ∀ bn, w.poll = .state bn → st.epoch = (bn / epochBlocks).setWidth 256
  | _ => True

/-- Nobody has dropped the last receiver when the loop sends. -/
def Received (w : Watcher) : WatcherEvent → Prop
  | .publish => 0 < w.updates.receivers
  | _ => True

/-- The history: the blocks whose iterations have read both. -/
def completed (w : Watcher) : WatcherEvent → List U64
  | .miningState (.ok st) =>
    match w.poll, MiningState.decode? st with
    | .state bn, some _ => [bn]
    | _, _ => []
  | _ => []

/-- The last complete read was of the block `b`. Its update may still have to be sent. -/
structure Settled (keccak : Digest) (miner : Address) (w : Watcher) (b : U64) : Prop where
  sound : Sound keccak miner w
  snapshot : ∃ st, w.lastState = some st ∧ st.epoch = b / epochBlocks
  handled : ∀ epoch, w.lastEpoch = some epoch → w.updates.value.epoch = epoch
  channel : (∀ snap bn, w.poll ≠ .publish snap bn) → w.updates.value.epoch = b / epochBlocks
  reading : ∀ bn, w.poll = .state bn → w.head = bn
  sending : ∀ snap bn, w.poll = .publish snap bn → w.head = b

theorem epoch_of_decode {st : MiningStateReturn} {snap : MiningState} {epoch : U64}
    (decoded : MiningState.decode? st = some snap) (answered : st.epoch = epoch.setWidth 256) :
    snap.epoch = epoch := by
  have small : epoch.toNat < 2 ^ 64 := epoch.isLt
  have whole : (epoch.setWidth 256).toNat = epoch.toNat := BitVec.toNat_setWidth_of_le (by decide)
  have fits : st.epoch.toU64? = some epoch := by
    rw [answered, U256.toU64?, whole, if_pos small]
    simp
  simp only [MiningState.decode?, fits, Option.bind_eq_bind, Option.bind_some,
    Option.bind_eq_some_iff] at decoded
  obtain ⟨_, _, _, _, made⟩ := decoded
  cases made
  rfl

theorem Settled.standsAt (inv : Settled keccak miner w b)
    (idle : ∀ snap bn, w.poll ≠ .publish snap bn) : StandsAt keccak miner w b := by
  obtain ⟨st, stored, epoch⟩ := inv.snapshot
  refine ⟨⟨st, ?_, epoch⟩, ?_⟩
  · rw [miningState, stored]
  · rw [inv.sound.challenge, inv.channel idle]

theorem StandsAt.consistent (stands : StandsAt keccak miner w b)
    (same : w.head / epochBlocks = b / epochBlocks) : Consistent keccak miner w := by
  refine ⟨?_, ?_⟩
  · rw [same]
    exact stands.epoch
  · rw [challengeFor, same, stands.challenge]

/-- Between two updates the loop may move the head and go on. -/
theorem Settled.moves (inv : Settled keccak miner w b) (idle : ∀ snap bn, w.poll ≠ .publish snap bn)
    {head : U64} {poll : Poll} (quiet : ∀ snap bn, poll ≠ .publish snap bn)
    (reading : ∀ bn, poll = .state bn → head = bn) :
    Settled keccak miner { w with head, poll } b where
  sound := ⟨inv.sound.challenge, fun snap bn here => absurd here (quiet snap bn)⟩
  snapshot := inv.snapshot
  handled := inv.handled
  channel := fun _ => inv.channel idle
  reading := reading
  sending := fun snap bn here => absurd here (quiet snap bn)

theorem Settled.step {log : List U64} (inv : Settled keccak miner w b)
    (last : log.getLast? = some b) (truthful : Truthful w e) (received : Received w e)
    (taken : Watcher.step keccak miner w e = some t) :
    ∃ b', (log ++ completed w e).getLast? = some b' ∧ Settled keccak miner t b' := by
  have sound := inv.sound.step taken
  cases step_cases taken with
  | block bn here =>
    refine ⟨b, by simpa [completed] using last, inv.moves (by simp [here]) (by simp) ?_⟩
    intro bn' same
    cases same
    rfl
  | unread => exact ⟨b, by simpa [completed] using last, inv⟩
  | failed bn error here =>
    exact ⟨b, by simpa [completed] using last, inv.moves (by simp [here]) (by simp) (by simp)⟩
  | panic bn st here undecoded =>
    exact ⟨b, by simpa [completed, here, undecoded] using last,
      inv.moves (by simp [here]) (by simp) (by simp)⟩
  | known bn st snap here decoded same =>
    have epoch := epoch_of_decode decoded (truthful bn here)
    refine ⟨bn, by simp [completed, here, decoded], ?_⟩
    exact {
      sound
      snapshot := ⟨snap, rfl, epoch⟩
      handled := inv.handled
      channel := fun _ => (inv.handled _ same).trans epoch
      reading := by simp
      sending := by simp }
  | new bn st snap here decoded fresh =>
    have epoch := epoch_of_decode decoded (truthful bn here)
    refine ⟨bn, by simp [completed, here, decoded], ?_⟩
    exact {
      sound
      snapshot := ⟨snap, rfl, epoch⟩
      handled := inv.handled
      channel := fun idle => absurd rfl (idle snap bn)
      reading := by simp
      sending := fun _ _ _ => inv.reading bn here }
  | publish snap bn here =>
    refine ⟨b, by simpa [completed] using last, ?_⟩
    have sent : (w.publish keccak miner snap bn).updates.value = update keccak miner snap bn := by
      rw [Watcher.publish, Watch.send_received _ received]
    have epoch : snap.epoch = b / epochBlocks := by
      obtain ⟨st, stored, epoch⟩ := inv.snapshot
      cases stored.symm.trans (inv.sound.snapshot snap bn here)
      exact epoch
    exact {
      sound
      snapshot := inv.snapshot
      handled := fun handled same => by
        rw [sent]
        exact Option.some.inj same
      channel := fun _ => by
        rw [sent]
        exact epoch
      reading := by simp [Watcher.publish]
      sending := by simp [Watcher.publish] }
  | subscribe | unsubscribe =>
    refine ⟨b, by simpa [completed] using last, ?_⟩
    exact {
      sound
      snapshot := inv.snapshot
      handled := inv.handled
      channel := inv.channel
      reading := inv.reading
      sending := inv.sending }

/-- The head is the block of an iteration that has read both. -/
theorem Settled.leaves (inv : Settled keccak miner w b) (truthful : Truthful w e)
    (received : Received w e) (taken : Watcher.step keccak miner w e = some t) :
    Leaves keccak miner w e t := by
  have next (bn : U64) : [bn].getLast? = some bn := rfl
  obtain ⟨b', last, settled⟩ := inv.step (next b) truthful received taken
  cases step_cases taken with
  | block bn =>
    refine ⟨nofun, nofun, fun bn' same => ?_, fun ends => nomatch ends.1⟩
    cases same
    rfl
  | unread =>
    refine ⟨fun _ _ => rfl, nofun, nofun, ?_⟩
    rintro ⟨_, sent | ⟨st, read⟩⟩
    · cases sent
    · cases read
  | failed =>
    refine ⟨nofun, fun _ _ => rfl, nofun, ?_⟩
    rintro ⟨_, sent | ⟨st, read⟩⟩
    · cases sent
    · cases read
  | panic | new => exact ⟨nofun, nofun, nofun, fun ends => nomatch ends.1⟩
  | known bn st snap here decoded =>
    refine ⟨nofun, nofun, nofun, fun _ => ?_⟩
    have whole : completed w (.miningState (.ok st)) = [bn] := by simp [completed, here, decoded]
    rw [whole] at last
    cases last
    exact (settled.standsAt nofun).consistent (congrArg (· / epochBlocks) (inv.reading bn here))
  | publish snap bn here =>
    refine ⟨nofun, nofun, nofun, fun _ => ?_⟩
    cases last
    exact (settled.standsAt nofun).consistent
      (congrArg (· / epochBlocks) (inv.sending snap bn here))
  | subscribe | unsubscribe =>
    refine ⟨nofun, nofun, nofun, ?_⟩
    rintro ⟨_, sent | ⟨st, read⟩⟩
    · cases sent
    · cases read

theorem start_settled {bn : U64} {st : MiningStateReturn}
    (started : start keccak miner (.ok bn) (.ok st) = some (.ok w))
    (answered : st.epoch = (bn / epochBlocks).setWidth 256) : Settled keccak miner w bn := by
  have sound := start_sound started
  obtain ⟨_, _, initial, read, replied, decoded, rfl⟩ := start_cases started
  cases read
  cases replied
  have epoch := epoch_of_decode decoded answered
  exact {
    sound
    snapshot := ⟨initial, rfl, epoch⟩
    handled := nofun
    channel := fun _ => epoch
    reading := nofun
    sending := nofun }

theorem start_idle {bn : U64} {st : MiningStateReturn}
    (started : start keccak miner (.ok bn) (.ok st) = some (.ok w)) :
    w.head = bn ∧ w.poll = .tick := by
  obtain ⟨_, _, initial, read, _, _, rfl⟩ := start_cases started
  cases read
  exact ⟨rfl, rfl⟩

/-- Along every run with truthful answers whose updates are received: an iteration that
fails leaves the snapshot and the channel, and one that reads both makes all agree.
Between iterations the snapshot and the channel are of the last block read completely. -/
theorem run_views_consistent (keccak : Digest) (miner : Address) (bn : U64)
    (st : MiningStateReturn) (w : Watcher)
    (started : start keccak miner (.ok bn) (.ok st) = some (.ok w))
    (answered : st.epoch = (bn / epochBlocks).setWidth 256) (es : List WatcherEvent)
    (condition : (machine keccak miner).Along (fun w e _ => Truthful w e ∧ Received w e) w es) :
    Consistent keccak miner w ∧
      (machine keccak miner).Along (Leaves keccak miner) w es ∧
      ∀ t log, ((machine keccak miner).logged completed).run (w, [bn]) es = some (t, log) →
        t.poll = .tick → ∃ b, log.getLast? = some b ∧ StandsAt keccak miner t b ∧
          (t.head / epochBlocks = b / epochBlocks → Consistent keccak miner t) := by
  have first := start_settled started answered
  have kept : ∀ (p : Watcher × List U64) (e : WatcherEvent) (q : Watcher × List U64),
      (∃ b, p.2.getLast? = some b ∧ Settled keccak miner p.1 b) →
      ((machine keccak miner).logged completed).step p e = some q →
      Truthful p.1 e ∧ Received p.1 e →
      (∃ b, q.2.getLast? = some b ∧ Settled keccak miner q.1 b) ∧
        Leaves keccak miner p.1 e q.1 := by
    rintro p e q ⟨b, last, inv⟩ logged ⟨truthful, received⟩
    obtain ⟨taken, log⟩ := (Machine.logged_step _).mp logged
    exact ⟨log ▸ inv.step last truthful received taken, inv.leaves truthful received taken⟩
  have whole : ((machine keccak miner).logged completed).Along
      (fun p e _ => Truthful p.1 e ∧ Received p.1 e) (w, [bn]) es :=
    Machine.along_logged.mpr condition
  obtain ⟨head, idle⟩ := start_idle started
  refine ⟨?_, ?_, ?_⟩
  · exact (first.standsAt (by simp [idle])).consistent (congrArg (· / epochBlocks) head)
  · exact (Machine.along_logged (P := Leaves keccak miner)).mp
      (Machine.Along.of_invariant kept ⟨bn, rfl, first⟩ whole)
  · intro t log reached idle
    have kept' := fun p e q inv taken met => (kept p e q inv taken met).1
    obtain ⟨b, last, settled⟩ := Machine.Along.invariant_run kept' ⟨bn, rfl, first⟩ whole reached
    have stands := settled.standsAt (by simp [idle])
    exact ⟨b, last, stands, stands.consistent⟩

/-- A complete poll, and one that fails halfway. -/
def twoPolls : List WatcherEvent :=
  [.subscribe, .blockNumber (.ok 150), .miningState (.ok (answer 1 1024)), .publish,
    .blockNumber (.ok 200), .miningState (.error "timeout")]

theorem run_views_consistent_twoPolls :
    ∃ w, start Keccak.keccak256 layoutMiner (.ok 150) (.ok (answer 1 1024)) = some (.ok w) ∧
      Consistent Keccak.keccak256 layoutMiner w ∧
      (machine Keccak.keccak256 layoutMiner).Along (Leaves Keccak.keccak256 layoutMiner) w
        twoPolls := by
  have started : start Keccak.keccak256 layoutMiner (.ok 150) (.ok (answer 1 1024)) =
      some (.ok _) := rfl
  have views := run_views_consistent _ _ _ _ _ started rfl twoPolls ?_
  · exact ⟨_, started, views.1, views.2.1⟩
  · refine (Machine.along_cons rfl).mpr ⟨⟨trivial, trivial⟩, ?_⟩
    refine (Machine.along_cons rfl).mpr ⟨⟨trivial, trivial⟩, ?_⟩
    refine (Machine.along_cons rfl).mpr ⟨⟨fun bn here => ?_, trivial⟩, ?_⟩
    · cases here
      rfl
    refine (Machine.along_cons rfl).mpr ⟨⟨trivial, Nat.one_pos⟩, ?_⟩
    refine Machine.along_of_forall ?_ _
    simp [Truthful, Received]

/-- The head reaches the next epoch, and the snapshot cannot be read. -/
theorem head_ahead_of_snapshot :
    ∃ w t, start Keccak.keccak256 layoutMiner (.ok 150) (.ok (answer 1 1024)) = some (.ok w) ∧
      (machine Keccak.keccak256 layoutMiner).Along (fun w e _ => Truthful w e ∧ Received w e) w
        [.subscribe, .blockNumber (.ok 200), .miningState (.error "timeout")] ∧
      (machine Keccak.keccak256 layoutMiner).run w
        [.subscribe, .blockNumber (.ok 200), .miningState (.error "timeout")] = some t ∧
      t.poll = .tick ∧ t.head ≠ w.head ∧ ¬ Consistent Keccak.keccak256 layoutMiner t := by
  have started : start Keccak.keccak256 layoutMiner (.ok 150) (.ok (answer 1 1024)) =
      some (.ok _) := rfl
  refine ⟨_, _, started, ?_, rfl, rfl, ?_, ?_⟩
  · refine Machine.along_of_forall ?_ _
    simp [Truthful, Received]
  · decide
  · rintro ⟨⟨st, stored, epoch⟩, _⟩
    cases stored
    exact absurd epoch (by decide)

end Watcher

end HashMiner.Chain
