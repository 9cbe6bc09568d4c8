import HashMiner.Foundation.Mpsc
import HashMiner.Tx.Receipt

/-!
# The journal

Every task emits what it does into a channel, and one task appends that to a file, a line
for each event. The others never wait for it: what finds the channel full, or the task
gone, is not written down.
-/

namespace HashMiner.Metrics

open Foundation Tx

/-- The time, in nanoseconds. -/
abbrev SystemTime := Nat

/-- What is emitted. The hash rate is a floating-point number, here its bits. -/
inductive Event where
  | hashrate (hashrateHps : U64)
  | epochSwap (epoch block : U64) (diff : U256) (challenge : B256) (latencyMs : U64)
  | hitFound (epoch : U64) (nonce : U256)
  | outcome (e : Tx.Event)

abbrev Line := SystemTime × Event

/-- The next thing that `run_appender` does. When a write has failed, some part of its line
may be in the file. -/
inductive Appender where
  | opening
  | receiving
  | writing (line : Line)
  | returned (error : String) (line : Option Line)

def Appender.Runs : Appender → Prop
  | .returned _ _ => False
  | _ => True

/-- What has been received and is not a line of the file. -/
def Appender.holding : Appender → List Line
  | .writing line => [line]
  | .returned _ line => line.toList
  | _ => []

/-- The channel and the task behind it, with the lines of the file. -/
structure Journal where
  bus : Mpsc Line
  appender : Appender
  file : List Line

inductive JournalEvent where
  | emit (line : Line)
  | opened (result : Except String Unit)
  | recv
  | written (result : Except String Unit)

namespace Journal

/-- `MetricsBus::channel(1024)` -/
def start : Journal := ⟨.channel 1024, .opening, []⟩

variable (j : Journal)

def emit (line : Line) : Journal := { j with bus := j.bus.trySend line }

/-- The task ends with an error, and its end of the channel goes. -/
def fail (error : String) (line : Option Line) : Journal :=
  { j with bus := j.bus.drop, appender := .returned error line }

def step : JournalEvent → Option Journal
  | .emit line => some (j.emit line)
  | .opened result =>
    match j.appender, result with
    | .opening, .ok _ => some { j with appender := .receiving }
    | .opening, .error e => some (j.fail e none)
    | _, _ => none
  | .recv =>
    match j.appender with
    | .receiving => j.bus.recv.map fun (line, bus) => { j with bus, appender := .writing line }
    | _ => none
  | .written result =>
    match j.appender, result with
    | .writing line, .ok _ => some { j with file := j.file ++ [line], appender := .receiving }
    | .writing line, .error e => some (j.fail e (some line))
    | _, _ => none

/-- What a step does to the channel. -/
def passages : JournalEvent → List (Passage Line)
  | .emit line => [.offer line (decide j.bus.Room)]
  | .recv =>
    match j.appender, j.bus.queue with
    | .receiving, line :: _ => [.take line]
    | _, _ => []
  | _ => []

variable {j} {j' : Journal} {e : JournalEvent} {log : List (Passage Line)}

/-- The steps by name. -/
inductive Moves (j : Journal) : JournalEvent → Journal → Prop
  | emit (line : Line) : Moves j (.emit line) (j.emit line)
  | opened : j.appender = .opening →
      Moves j (.opened (.ok ())) { j with appender := .receiving }
  | notOpened (error : String) : j.appender = .opening →
      Moves j (.opened (.error error)) (j.fail error none)
  | recv (line : Line) (bus : Mpsc Line) : j.appender = .receiving →
      j.bus.recv = some (line, bus) →
      Moves j .recv { j with bus, appender := .writing line }
  | written (line : Line) : j.appender = .writing line →
      Moves j (.written (.ok ())) { j with file := j.file ++ [line], appender := .receiving }
  | notWritten (line : Line) (error : String) : j.appender = .writing line →
      Moves j (.written (.error error)) (j.fail error (some line))

theorem step_cases (taken : j.step e = some j') : Moves j e j' := by
  cases e with
  | emit line =>
    cases taken
    exact .emit line
  | opened result =>
    simp only [step] at taken
    split at taken <;> cases taken
    · next here => exact .opened here
    · next e here => exact .notOpened e here
  | recv =>
    simp only [step] at taken
    split at taken
    · next here =>
      obtain ⟨⟨line, bus⟩, received, rfl⟩ := Option.map_eq_some_iff.mp taken
      exact .recv line bus here received
    · cases taken
  | written result =>
    simp only [step] at taken
    split at taken <;> cases taken
    · next line _ here => exact .written line here
    · next line e here => exact .notWritten line e here

/-- Nothing is offered by the task that receives. -/
theorem offered_passages (other : ∀ line, e ≠ .emit line) :
    Passage.offered (j.passages e) = [] := by
  cases e with
  | emit line => exact absurd rfl (other line)
  | opened result => rfl
  | recv =>
    simp only [passages]
    split <;> rfl
  | written result => rfl

/-- What the channel has handed over is in the file, up to the line in the hands of the task,
which is gone when its end of the channel is. -/
structure Keeps (j : Journal) (log : List (Passage Line)) : Prop where
  carries : j.bus.Carries log
  runs : j.appender.Runs ↔ j.bus.rxOpen = true
  filed : Passage.received log = j.file ++ j.appender.holding

theorem start_keeps : Keeps start [] where
  carries := Mpsc.carries_channel 1024
  runs := iff_of_true trivial rfl
  filed := rfl

theorem Keeps.step (keeps : Keeps j log) (taken : j.step e = some j') :
    Keeps j' (log ++ j.passages e) := by
  obtain ⟨carries, runs, filed⟩ := keeps
  cases step_cases taken with
  | emit line =>
    refine ⟨carries.trySend line, ?_, ?_⟩
    · rw [emit, Mpsc.trySend_rxOpen]
      exact runs
    · simpa [passages, emit] using filed
  | opened here =>
    rw [here] at runs filed
    simp only [passages, List.append_nil]
    exact ⟨carries, runs, filed⟩
  | notOpened error here =>
    rw [here] at filed
    simp only [passages, List.append_nil]
    exact ⟨carries.drop, iff_of_false id Bool.false_ne_true, filed⟩
  | recv line bus here received =>
    rw [here] at runs filed
    obtain ⟨queued, same⟩ := Mpsc.recv_cases received
    have opened := runs.mp trivial
    simp only [passages, here, queued]
    refine ⟨carries.recv opened received, iff_of_true trivial (same.trans opened), ?_⟩
    rw [Passage.received_append, filed]
    simp [Appender.holding]
  | written line here =>
    rw [here] at runs filed
    simp only [passages, List.append_nil]
    refine ⟨carries, runs, ?_⟩
    rw [filed]
    simp [Appender.holding]
  | notWritten line error here =>
    rw [here] at filed
    simp only [passages, List.append_nil]
    exact ⟨carries.drop, iff_of_false id Bool.false_ne_true, filed⟩

/-- The file tells what was emitted, in order and once, up to the first failure; and all of
it as long as nothing was lost. -/
theorem Keeps.tells (keeps : Keeps j log) :
    j.file.Sublist (Passage.offered log) ∧
      (Passage.Complete log → j.file <+: Passage.offered log) ∧
      (Passage.Complete log → j.appender.Runs →
        Passage.offered log = j.file ++ j.appender.holding ++ j.bus.queue) := by
  obtain ⟨carries, runs, filed⟩ := keeps
  have order : j.file <+: Passage.accepted log :=
    (filed ▸ List.prefix_append _ _).trans carries.order
  refine ⟨order.sublist.trans (Passage.accepted_sublist log), ?_, ?_⟩
  · intro complete
    rw [← Passage.accepted_eq complete]
    exact order
  · intro complete running
    rw [← Passage.accepted_eq complete, carries.queued (runs.mp running), filed]

end Journal

end HashMiner.Metrics
