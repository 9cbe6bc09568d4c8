import HashMiner.Tx.Submitter

/-!
# The epoch between the check and the send

The submitter reads the watcher's state once, at the start of a call. The watcher goes
on during every await of the call.
-/

namespace HashMiner.Tx

open Foundation Chain

/-- The watcher and the submitter that reads it. -/
structure Session where
  watcher : Watcher
  submitter : Submitter

inductive SessionEvent where
  | watch (e : WatcherEvent)
  | submit (e : SubmitEvent)

namespace Session

def view (w : Watcher) : ChainView := ⟨w.head, w.miningState⟩

variable (keccak : Digest) (cfg : SubmitterCfg)

def step (s : Session) : SessionEvent → Option Session
  | .watch e => (s.watcher.step keccak cfg.signer e).map fun w => { s with watcher := w }
  | .submit e =>
    (s.submitter.step cfg (view s.watcher) e).map fun submitter => { s with submitter }

def machine : Machine Session SessionEvent := ⟨step keccak cfg⟩

/-- The hit whose transaction a step starts to send. -/
def broadcast (s : Session) : SessionEvent → Option Hit
  | .submit e => (s.submitter.sends cfg e).map Prod.fst
  | .watch _ => none

def Current (w : Watcher) (hit : Hit) : Prop :=
  ∃ st, w.miningState = .ok st ∧ hit.epochId = st.epoch

/-- A poll during a call that has checked its hit answers with the epoch of this hit. -/
def Steady (s : Session) : SessionEvent → Prop
  | .watch (.miningState (.ok words)) => ∀ hit phase st, s.submitter.holder = some (hit, phase) →
      phase.checked?.isSome → MiningState.decode? words = some st → hit.epochId = st.epoch
  | _ => True

variable {keccak cfg} {s t : Session} {e : SessionEvent} {w w' : Watcher} {hit : Hit}

/-- Every hit that was checked is still current. -/
def Fresh (s : Session) : Prop :=
  ∀ hit phase, s.submitter.holder = some (hit, phase) → phase.checked?.isSome →
    Current s.watcher hit

/-- Only the answer to a poll replaces the state. -/
theorem Current.watch {d : WatcherEvent} (current : Current w hit)
    (taken : Watcher.step keccak cfg.signer w d = some w')
    (steady : ∀ words st, d = .miningState (.ok words) → MiningState.decode? words = some st →
      hit.epochId = st.epoch) : Current w' hit := by
  cases Watcher.step_cases taken with
  | known bn words st _ decoded _ => exact ⟨st, rfl, steady words st rfl decoded⟩
  | new bn words st _ decoded _ => exact ⟨st, rfl, steady words st rfl decoded⟩
  | block | unread | failed | panic | publish | subscribe | unsubscribe => exact current

/-- The steps by name. -/
inductive Moves (keccak : Digest) (cfg : SubmitterCfg) (s : Session) : SessionEvent → Session → Prop
  | watch (e : WatcherEvent) (w : Watcher) : Watcher.step keccak cfg.signer s.watcher e = some w →
      Moves keccak cfg s (.watch e) { s with watcher := w }
  | submit (e : SubmitEvent) (submitter : Submitter) :
      Submitter.Moves cfg (view s.watcher) s.submitter e submitter →
      Moves keccak cfg s (.submit e) { s with submitter }

theorem step_cases (taken : step keccak cfg s e = some t) : Moves keccak cfg s e t := by
  cases e with
  | watch e =>
    obtain ⟨w, moved, rfl⟩ := Option.map_eq_some_iff.mp taken
    exact .watch e w moved
  | submit e =>
    obtain ⟨submitter, moved, rfl⟩ := Option.map_eq_some_iff.mp taken
    exact .submit e submitter (Submitter.step_cases moved)

theorem Fresh.step (inv : Fresh s) (taken : Session.step keccak cfg s e = some t)
    (steady : Steady s e) : Fresh t := by
  intro hit phase here checked
  cases step_cases taken with
  | watch d w moved =>
    refine (inv hit phase here checked).watch moved fun words st answered decoded => ?_
    cases answered
    exact steady hit phase st here checked decoded
  | submit d submitter moved =>
    cases moved with
    | call => exact inv hit phase here checked
    | acquire =>
      cases here
      cases checked
    | resume hit' phase' d r running resumed =>
      obtain ⟨next, progress⟩ := r
      obtain ⟨st, snapshot⟩ := Option.isSome_iff_exists.mp checked
      cases progress <;> cases here
      rcases resumed.checked rfl snapshot with before | ⟨_, read, fresh⟩
      · exact inv hit phase' running (Option.isSome_iff_exists.mpr ⟨st, before⟩)
      · exact ⟨st, read, fresh⟩

theorem Fresh.broadcast (inv : Fresh s) (sent : broadcast cfg s e = some hit) :
    Current s.watcher hit := by
  cases e with
  | submit d =>
    obtain ⟨⟨hit, st, req⟩, call, rfl⟩ := Option.map_eq_some_iff.mp sent
    exact inv hit _ (Submitter.holder_of_sends call) rfl
  | watch => cases sent

/-- In every interleaving whose polls do not change the epoch under a checked hit, only
hits of the watcher's current epoch are sent. -/
theorem along_current_of_steady (keccak : Digest) (cfg : SubmitterCfg) (w : Watcher)
    (es : List SessionEvent)
    (steady : (machine keccak cfg).Along (fun s e _ => Steady s e) ⟨w, .new⟩ es) :
    (machine keccak cfg).Along
      (fun s e _ => ∀ hit, broadcast cfg s e = some hit → Current s.watcher hit) ⟨w, .new⟩ es := by
  have start : Fresh ⟨w, .new⟩ := fun _ _ same => nomatch same
  refine Machine.Along.of_invariant (fun s e t inv taken met => ?_) start steady
  exact ⟨inv.step taken met, fun hit sent => inv.broadcast sent⟩

/-- A poll during a call of epoch 1: it begins at the await of the account nonce. -/
def polled (blockNumber : U64) (epoch : U256) : List SessionEvent :=
  (layoutCall 0x4243).map .submit ++ [.watch (.blockNumber (.ok blockNumber)),
    .watch (.miningState (.ok (Watcher.answer epoch 1024))), .submit (.transactionCount (.ok 0))]

theorem along_current_same_epoch :
    ∃ w, Watcher.start Keccak.keccak256 layoutMiner (.ok 150) (.ok (Watcher.answer 1 1024)) =
        some (.ok w) ∧
      (machine Keccak.keccak256 layoutCfg).Along
        (fun s e _ => ∀ hit, broadcast layoutCfg s e = some hit → Current s.watcher hit) ⟨w, .new⟩
        (polled 151 1 ++ [.submit (.signed (.ok ()))]) := by
  refine ⟨_, rfl, along_current_of_steady Keccak.keccak256 layoutCfg _ _ ?_⟩
  iterate 6 refine (Machine.along_cons rfl).mpr ⟨trivial, ?_⟩
  refine (Machine.along_cons rfl).mpr ⟨fun hit phase st here _ decoded => ?_, ?_⟩
  · cases here
    cases decoded
    rfl
  · iterate 2 refine (Machine.along_cons rfl).mpr ⟨trivial, ?_⟩
    trivial

/-- Epoch 2 begins during the call, and the hit of epoch 1 is sent. -/
theorem epoch_rolls_before_send :
    ∃ w, Watcher.start Keccak.keccak256 layoutMiner (.ok 150) (.ok (Watcher.answer 1 1024)) =
        some (.ok w) ∧
      ¬ (machine Keccak.keccak256 layoutCfg).Along
        (fun s e _ => ∀ hit, broadcast layoutCfg s e = some hit → Current s.watcher hit) ⟨w, .new⟩
        (polled 200 2 ++ [.submit (.signed (.ok ()))]) := by
  refine ⟨_, rfl, fun along => ?_⟩
  obtain ⟨st, stored, same⟩ := along.at_step rfl rfl _ rfl
  cases stored
  exact absurd same (by decide)

end Session

end HashMiner.Tx
