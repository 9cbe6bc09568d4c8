import HashMiner.Gpu.Provenance
import HashMiner.Metrics.Journal

/-!
# What becomes of the hits

One task takes the hits from the loop, submits them one after the other and emits two events
for each of them, when it comes in and when its call has returned. The other tasks emit
events of their own in between.
-/

namespace HashMiner

open Foundation Gpu Tx

def Metrics.Event.ofHit : Metrics.Event → Bool
  | .hitFound _ _ => true
  | .outcome _ => true
  | _ => false

/-- The next thing that the task does. A panic in a call ends it. -/
inductive HitTask where
  | receiving
  | found (hit : Hit)
  | submitting (hit : Hit)
  | returned (e : Tx.Event)
  | panicked

namespace HitTask

/-- The hit that has no result yet. -/
def pending : HitTask → List Hit
  | .found hit => [hit]
  | .submitting hit => [hit]
  | _ => []

/-- What has been emitted for that hit. -/
def announced : HitTask → List Metrics.Event
  | .submitting hit => [.hitFound hit.epochId hit.nonce]
  | _ => []

/-- What is still to be emitted for the last result. -/
def owed : HitTask → List Metrics.Event
  | .returned e => [.outcome e]
  | _ => []

def Alive : HitTask → Prop
  | .panicked => False
  | _ => True

end HitTask

structure Reports where
  worker : Worker
  submitter : Submitter
  task : HitTask
  journal : Metrics.Journal

inductive ReportsEvent where
  | gpu (e : WorkerEvent)
  | recv
  | announce (now : Metrics.SystemTime)
  | submit (view : ChainView) (e : SubmitEvent)
  | report (now : Metrics.SystemTime)
  | emit (line : Metrics.Line)
  | journal (e : Metrics.JournalEvent)

/-- The call that a step brings to its end. -/
def Tx.Submitter.ends (cfg : SubmitterCfg) (s : Submitter) (view : ChainView)
    (e : SubmitEvent) : Option (Hit × Returned) :=
  match s.holder with
  | some (hit, phase) =>
    match resume cfg view s.next hit phase e with
    | some (_, .done result) => some (hit, result)
    | _ => none
  | none => none

namespace Reports

/-- The history of the hits and of the channel of the events. -/
inductive Entry where
  | sent (hit : Hit)
  | answered (hit : Hit) (result : Returned)
  | passage (p : Passage Metrics.Line)

def Entry.sent? : Entry → Option Hit
  | .sent hit => some hit
  | _ => none

def Entry.answered? : Entry → Option (Hit × Returned)
  | .answered hit result => some (hit, result)
  | _ => none

def Entry.passage? : Entry → Option (Passage Metrics.Line)
  | .passage p => some p
  | _ => none

def sent (log : List Entry) : List Hit := log.filterMap Entry.sent?

def answered (log : List Entry) : List (Hit × Returned) := log.filterMap Entry.answered?

def passages (log : List Entry) : List (Passage Metrics.Line) := log.filterMap Entry.passage?

/-- What is emitted for a hit with a result. -/
def story (p : Hit × Returned) : List Metrics.Event :=
  .hitFound p.1.epochId p.1.nonce :: (emitted p.2).toList.map .outcome

/-- The events of hits among some lines. -/
def ofHits (lines : List Metrics.Line) : List Metrics.Event :=
  (lines.map Prod.snd).filter Metrics.Event.ofHit

variable (gpu : GpuCfg) (cfg : SubmitterCfg)

def start (rt : GpuRuntime) (nonceStart : U64) : Reports :=
  ⟨Worker.start rt nonceStart, .new, .receiving, .start⟩

variable (r : Reports)

def tell (line : Metrics.Line) : Reports := { r with journal := r.journal.emit line }

/-- A task that ends by a panic lets go of the channel of the hits. -/
def settled (submitter : Submitter) : Option (Hit × Returned) → Reports
  | none => { r with submitter }
  | some (_, result) =>
    match emitted result with
    | some e => { r with submitter, task := .returned e }
    | none =>
      { r with
        submitter
        task := .panicked
        worker := { r.worker with rxOpen := false, hits := [] } }

def step : ReportsEvent → Option Reports
  | .gpu .recv => none
  | .gpu .closeRx => none
  | .gpu e => (r.worker.step gpu e).map fun worker => { r with worker }
  | .recv =>
    match r.task, r.worker.hits with
    | .receiving, hit :: hits =>
      some { r with worker := { r.worker with hits }, task := .found hit }
    | _, _ => none
  | .announce now =>
    match r.task with
    | .found hit =>
      some { r.tell (now, .hitFound hit.epochId hit.nonce) with
        submitter := { r.submitter with waiting := r.submitter.waiting ++ [hit] }
        task := .submitting hit }
    | _ => none
  | .submit view e =>
    match r.task with
    | .submitting _ =>
      match e with
      | .call _ => none
      | e =>
        (r.submitter.step cfg view e).map fun submitter =>
          r.settled submitter (r.submitter.ends cfg view e)
    | _ => none
  | .report now =>
    match r.task with
    | .returned e => some { r.tell (now, .outcome e) with task := .receiving }
    | _ => none
  | .emit line => if line.2.ofHit then none else some (r.tell line)
  | .journal (.emit _) => none
  | .journal e => (r.journal.step e).map fun journal => { r with journal }

/-- What a step adds to the history. -/
def entries : ReportsEvent → List Entry
  | .gpu .send =>
    match r.worker.pc with
    | .send hit => if r.worker.rxOpen then [.sent hit] else []
    | _ => []
  | .gpu _ => []
  | .announce now =>
    match r.task with
    | .found hit => (r.journal.passages (.emit (now, .hitFound hit.epochId hit.nonce))).map .passage
    | _ => []
  | .submit view e =>
    ((r.submitter.ends cfg view e).map fun (hit, result) => .answered hit result).toList
  | .report now =>
    match r.task with
    | .returned e => (r.journal.passages (.emit (now, .outcome e))).map .passage
    | _ => []
  | .emit line => (r.journal.passages (.emit line)).map .passage
  | .journal e => (r.journal.passages e).map .passage
  | .recv => []

def machine : Machine Reports ReportsEvent := ⟨step gpu cfg⟩

/-- The steps by name. -/
inductive Moves : ReportsEvent → Reports → Prop
  | gpu (e : WorkerEvent) (worker : Worker) : e ≠ .recv → e ≠ .closeRx →
      Worker.Moves gpu r.worker e worker → Moves (.gpu e) { r with worker }
  | recv (hit : Hit) (hits : List Hit) : r.task = .receiving → r.worker.hits = hit :: hits →
      Moves .recv { r with worker := { r.worker with hits }, task := .found hit }
  | announce (now : Metrics.SystemTime) (hit : Hit) : r.task = .found hit →
      Moves (.announce now)
        { r.tell (now, .hitFound hit.epochId hit.nonce) with
          submitter := { r.submitter with waiting := r.submitter.waiting ++ [hit] }
          task := .submitting hit }
  | submit (hit : Hit) (view : ChainView) (e : SubmitEvent) (submitter : Submitter) :
      r.task = .submitting hit → (∀ hit, e ≠ .call hit) →
      Submitter.Moves cfg view r.submitter e submitter →
      Moves (.submit view e) (r.settled submitter (r.submitter.ends cfg view e))
  | report (now : Metrics.SystemTime) (e : Tx.Event) : r.task = .returned e →
      Moves (.report now) { r.tell (now, .outcome e) with task := .receiving }
  | emit (line : Metrics.Line) : line.2.ofHit = false → Moves (.emit line) (r.tell line)
  | journal (e : Metrics.JournalEvent) (journal : Metrics.Journal) : (∀ line, e ≠ .emit line) →
      r.journal.step e = some journal → Moves (.journal e) { r with journal }

variable {gpu cfg} {r t : Reports} {e : ReportsEvent} {log : List Entry}

theorem step_cases (taken : step gpu cfg r e = some t) : Moves gpu cfg r e t := by
  unfold step at taken
  split at taken
  · cases taken
  · cases taken
  · next e recv closeRx =>
    obtain ⟨worker, moved, rfl⟩ := Option.map_eq_some_iff.mp taken
    exact .gpu e worker recv closeRx (Worker.step_cases moved)
  · split at taken <;> cases taken
    next hit hits here queued => exact .recv hit hits here queued
  · split at taken <;> cases taken
    next hit here => exact .announce _ hit here
  · split at taken
    · next hit here =>
      split at taken
      · cases taken
      · next other =>
        obtain ⟨submitter, moved, rfl⟩ := Option.map_eq_some_iff.mp taken
        exact .submit hit _ _ submitter here other (Submitter.step_cases moved)
    · cases taken
  · split at taken <;> cases taken
    next e here => exact .report _ e here
  · split at taken <;> cases taken
    next other => exact .emit _ (Bool.eq_false_of_not_eq_true other)
  · cases taken
  · next e other =>
    obtain ⟨journal, moved, rfl⟩ := Option.map_eq_some_iff.mp taken
    exact .journal e journal other moved

/-! ## The history -/

section History

variable (log more : List Entry)

@[simp] theorem sent_append : sent (log ++ more) = sent log ++ sent more :=
  List.filterMap_append

@[simp] theorem answered_append : answered (log ++ more) = answered log ++ answered more :=
  List.filterMap_append

@[simp] theorem passages_append : passages (log ++ more) = passages log ++ passages more :=
  List.filterMap_append

variable (hit : Hit) (result : Returned)

@[simp] theorem sent_answered : sent [.answered hit result] = [] := rfl

@[simp] theorem answered_answered : answered [.answered hit result] = [(hit, result)] := rfl

@[simp] theorem passages_answered : passages [.answered hit result] = [] := rfl

variable (ps : List (Passage Metrics.Line))

@[simp] theorem sent_passages : sent (ps.map .passage) = [] := by
  induction ps with
  | nil => rfl
  | cons p ps ih => exact ih

@[simp] theorem answered_passages : answered (ps.map .passage) = [] := by
  induction ps with
  | nil => rfl
  | cons p ps ih => exact ih

@[simp] theorem passages_passages : passages (ps.map .passage) = ps := by
  induction ps with
  | nil => rfl
  | cons p ps ih => exact congrArg (p :: ·) ih

theorem sent_quiet : sent (log ++ ps.map .passage) = sent log := by simp

theorem answered_quiet : answered (log ++ ps.map .passage) = answered log := by simp

variable (hits : List Hit)

@[simp] theorem sent_sent : sent (hits.map .sent) = hits := by
  induction hits with
  | nil => rfl
  | cons hit hits ih => exact congrArg (hit :: ·) ih

@[simp] theorem answered_sent : answered (hits.map .sent) = [] := by
  induction hits with
  | nil => rfl
  | cons hit hits ih => exact ih

@[simp] theorem passages_sent : passages (hits.map .sent) = [] := by
  induction hits with
  | nil => rfl
  | cons hit hits ih => exact ih

@[simp] theorem ofHits_append (lines more : List Metrics.Line) :
    ofHits (lines ++ more) = ofHits lines ++ ofHits more := by
  rw [ofHits, List.map_append, List.filter_append]
  rfl

end History

/-- The call of the task is for the hit that it has announced, and there is no other call. -/
def Calls (s : Submitter) : HitTask → Prop
  | .submitting hit =>
    s.holder = none ∧ s.waiting = [hit] ∨
      (∃ phase, s.holder = some (hit, phase)) ∧ s.waiting = []
  | _ => s.holder = none ∧ s.waiting = []

structure Reported (r : Reports) (log : List Entry) : Prop where
  journal : r.journal.Keeps (passages log)
  calls : Calls r.submitter r.task
  order : (answered log).map Prod.fst ++ r.task.pending <+: sent log
  queued : r.task.Alive →
    sent log = (answered log).map Prod.fst ++ r.task.pending ++ r.worker.hits
  told : ofHits (Passage.offered (passages log)) ++ r.task.owed =
    (answered log).flatMap story ++ r.task.announced

theorem start_reported (rt : GpuRuntime) (nonceStart : U64) :
    Reported (start rt nonceStart) [] where
  journal := Metrics.Journal.start_keeps
  calls := ⟨rfl, rfl⟩
  order := List.prefix_refl _
  queued _ := rfl
  told := rfl

/-- A step of the loop: a hit is sent when it is queued. -/
theorem entries_gpu {e : WorkerEvent} {worker : Worker} (recv : e ≠ .recv)
    (closeRx : e ≠ .closeRx) (moves : Worker.Moves gpu r.worker e worker) :
    ∃ hits : List Hit, entries cfg r (.gpu e) = hits.map .sent ∧
      worker.hits = r.worker.hits ++ hits := by
  cases moves with
  | recv => exact absurd rfl recv
  | closeRx => exact absurd rfl closeRx
  | send hit here opened room =>
    refine ⟨[hit], ?_, rfl⟩
    simp only [entries, here, opened]
    rfl
  | closed hit here gone =>
    refine ⟨[], ?_, (List.append_nil _).symm⟩
    simp only [entries, here, gone]
    rfl
  | hotSwap | shutdown | stop | enter | take | idle | apply =>
    exact ⟨[], rfl, (List.append_nil _).symm⟩
  | swap job calls =>
    exact ⟨[], rfl, ((Worker.swap_shares _ job calls).2.trans (List.append_nil _).symm)⟩
  | launch calls answer =>
    exact ⟨[], rfl, ((Worker.launched_shares gpu _ answer).2.trans (List.append_nil _).symm)⟩

/-- What a step of the submitter does to its only call. -/
theorem Calls.step {hit : Hit} {view : ChainView} {e : SubmitEvent} {submitter : Submitter}
    (calls : Calls r.submitter (.submitting hit)) (other : ∀ hit, e ≠ .call hit)
    (moves : Submitter.Moves cfg view r.submitter e submitter) :
    (r.submitter.ends cfg view e = none ∧ Calls submitter (.submitting hit)) ∨
      ∃ result, r.submitter.ends cfg view e = some (hit, result) ∧
        submitter.holder = none ∧ submitter.waiting = [] := by
  cases moves with
  | call hit => exact absurd rfl (other hit)
  | acquire hit' waiting free first =>
    refine .inl ⟨by rw [Submitter.ends, free], ?_⟩
    rcases calls with ⟨_, alone⟩ | ⟨⟨phase, held⟩, _⟩
    · cases alone.symm.trans first
      exact .inr ⟨⟨_, rfl⟩, rfl⟩
    · cases free.symm.trans held
  | resume hit' phase e x here resumes =>
    rcases calls with ⟨free, _⟩ | ⟨⟨phase', held⟩, empty⟩
    · cases free.symm.trans here
    · cases held.symm.trans here
      obtain ⟨next, progress⟩ := x
      cases progress with
      | on phase' =>
        refine .inl ⟨?_, .inr ⟨⟨phase', rfl⟩, empty⟩⟩
        simp only [Submitter.ends, here, resumes.resumed]
      | done result =>
        refine .inr ⟨result, ?_, rfl, empty⟩
        simp only [Submitter.ends, here, resumes.resumed]

theorem ofHits_emit (line : Metrics.Line) :
    ofHits (Passage.offered (r.journal.passages (.emit line))) =
      if line.2.ofHit then [line.2] else [] := by
  cases about : line.2.ofHit <;> simp [ofHits, Metrics.Journal.passages, about]

/-- A step that only passes events through the channel. -/
theorem Reported.passing {ps : List (Passage Metrics.Line)}
    (journal : t.journal.Keeps (passages log ++ ps)) (calls : Calls t.submitter t.task)
    (order : (answered log).map Prod.fst ++ t.task.pending <+: sent log)
    (queued : t.task.Alive →
      sent log = (answered log).map Prod.fst ++ t.task.pending ++ t.worker.hits)
    (told : ofHits (Passage.offered (passages log)) ++
      (ofHits (Passage.offered ps) ++ t.task.owed) =
        (answered log).flatMap story ++ t.task.announced) :
    Reported t (log ++ ps.map .passage) := by
  refine ⟨?_, calls, ?_, fun alive => ?_, ?_⟩
  · rw [passages_append, passages_passages]
    exact journal
  · rw [answered_quiet, sent_quiet]
    exact order
  · rw [answered_quiet, sent_quiet]
    exact queued alive
  · rw [passages_append, passages_passages, Passage.offered_append, ofHits_append,
      answered_quiet, List.append_assoc]
    exact told

theorem Reported.step (reported : Reported r log) (taken : step gpu cfg r e = some t) :
    Reported t (log ++ entries cfg r e) := by
  obtain ⟨journal, calls, order, queued, told⟩ := reported
  cases step_cases taken with
  | gpu e worker recv closeRx moves =>
    obtain ⟨hits, new, more⟩ : ∃ hits : List Hit,
        entries cfg r (.gpu e) = hits.map .sent ∧ worker.hits = r.worker.hits ++ hits :=
      entries_gpu recv closeRx moves
    rw [new]
    refine ⟨?_, calls, ?_, fun alive => ?_, ?_⟩
    · simpa using journal
    · rw [answered_append, answered_sent, List.append_nil, sent_append]
      exact order.trans (List.prefix_append _ _)
    · rw [answered_append, answered_sent, List.append_nil, sent_append, sent_sent, queued alive,
        more, List.append_assoc]
    · simpa using told
  | recv hit hits here first =>
    rw [here] at calls told
    have received : sent log = (answered log).map Prod.fst ++ hit :: hits := by
      have whole := queued (by rw [here]; trivial)
      rw [here, first] at whole
      exact whole.trans (by simp [HitTask.pending])
    rw [show entries cfg r .recv = [] from rfl, List.append_nil]
    refine ⟨journal, calls, ?_, fun _ => ?_, told⟩
    · rw [received]
      exact (List.prefix_append_right_inj _).mpr (List.prefix_append [hit] hits)
    · rw [received, HitTask.pending, List.append_assoc]
      rfl
  | announce now hit here =>
    rw [here] at calls order queued told
    obtain ⟨free, none⟩ := calls
    simp only [entries, here]
    refine .passing (journal.step rfl) (.inl ⟨free, congrArg (· ++ [hit]) none⟩) order
      (fun _ => queued trivial) ?_
    rw [ofHits_emit, ← List.append_assoc]
    simp only [HitTask.owed, HitTask.announced, List.append_nil] at told
    rw [told]
    exact List.append_nil _
  | submit hit view e submitter here other moves =>
    rw [here] at calls order queued told
    rcases calls.step other moves with ⟨goesOn, calls'⟩ | ⟨result, ends, free, none⟩
    · simp only [entries, goesOn, settled, Option.map_none, Option.toList_none, List.append_nil]
      rw [← here] at calls' order queued told
      exact ⟨journal, calls', order, queued, told⟩
    · simp only [entries, ends, settled, Option.map_some, Option.toList_some]
      have told : ofHits (Passage.offered (passages log)) =
          (answered log).flatMap story ++ [.hitFound hit.epochId hit.nonce] :=
        (List.append_nil _).symm.trans told
      cases outcome : emitted result with
      | none =>
        refine ⟨?_, ⟨free, none⟩, ?_, fun alive => alive.elim, ?_⟩
        · simpa using journal
        · simpa [HitTask.pending] using order
        · simp [told, story, outcome, HitTask.owed, HitTask.announced]
      | some e =>
        refine ⟨?_, ⟨free, none⟩, ?_, fun _ => ?_, ?_⟩
        · simpa using journal
        · simpa [HitTask.pending] using order
        · simpa [HitTask.pending] using queued trivial
        · simp [told, story, outcome, HitTask.owed, HitTask.announced]
  | report now e here =>
    rw [here] at calls order queued told
    simp only [entries, here]
    refine .passing (journal.step rfl) calls order (fun _ => queued trivial) ?_
    rw [ofHits_emit]
    exact told
  | emit line other =>
    refine .passing (journal.step rfl) calls order queued ?_
    rw [ofHits_emit, other, if_neg Bool.false_ne_true]
    exact told
  | journal e journal' other moved =>
    refine .passing (journal.step moved) calls order queued ?_
    rw [Metrics.Journal.offered_passages other]
    exact told

theorem ofHits_sublist {lines more : List Metrics.Line} (sub : lines.Sublist more) :
    (ofHits lines).Sublist (ofHits more) :=
  (sub.map Prod.snd).filter _

/-- The hits that the loop sends are submitted one after the other in their order, and none is
lost before the task ends. The file tells of each of them once, of what has become of it next
and of no other; it leaves nothing out while the channel of the events never is full. -/
theorem run_reports {rt : GpuRuntime} {nonceStart : U64} {es : List ReportsEvent}
    (reached : ((machine gpu cfg).logged (entries cfg)).run (start rt nonceStart, []) es =
      some (r, log)) :
    (answered log).map Prod.fst ++ r.task.pending <+: sent log ∧
      (r.task.Alive →
        sent log = (answered log).map Prod.fst ++ r.task.pending ++ r.worker.hits) ∧
      (ofHits r.journal.file).Sublist ((answered log).flatMap story ++ r.task.announced) ∧
      (Passage.Complete (passages log) → r.journal.appender.Runs →
        ofHits (r.journal.file ++ r.journal.appender.holding ++ r.journal.bus.queue) ++
            r.task.owed =
          (answered log).flatMap story ++ r.task.announced) := by
  have kept : ∀ (p : Reports × List Entry) (e : ReportsEvent) (q : Reports × List Entry),
      Reported p.1 p.2 → ((machine gpu cfg).logged (entries cfg)).step p e = some q →
      Reported q.1 q.2 := by
    intro p e q reported logged
    obtain ⟨taken, more⟩ := (Machine.logged_step _).mp logged
    exact more ▸ reported.step taken
  have reported : Reported r log :=
    Machine.invariant_run _ kept (start_reported rt nonceStart) reached
  obtain ⟨filed, _, whole⟩ := reported.journal.tells
  refine ⟨reported.order, reported.queued, ?_, fun complete runs => ?_⟩
  · rw [← reported.told]
    exact (ofHits_sublist filed).trans (List.sublist_append_left _ _)
  · rw [← reported.told, whole complete runs]

theorem step_launch {calls : LaunchCalls} {worker : Worker}
    (moved : (Worker.machine gpu).step r.worker (.launch calls) = some worker) :
    (machine gpu cfg).step r (.gpu (.launch calls)) = some { r with worker } := by
  simp only [Worker.machine] at moved
  simp only [machine, step, moved, Option.map_some]

/-- The answers to a call that finds the chain out of reach. -/
def layoutOutage : List ReportsEvent :=
  [.journal (.opened (.ok ())), .gpu .send, .recv, .announce 7, .submit layoutView .acquire,
    .submit ⟨150, .error (.rpc "down")⟩ .snapshot, .journal .recv, .report 8,
    .journal (.written (.ok ())), .journal .recv, .journal (.written (.ok ()))]

/-- A hit that is lost so has two lines in the file. -/
theorem run_reports_layoutOutage :
    ∃ es r log, ((machine ⟨1, 1⟩ layoutCfg).logged (entries layoutCfg)).run
        (start .init 0, []) (es ++ .gpu (.launch Worker.layoutCalls) :: layoutOutage) = some (r, log) ∧
      sent log = [Worker.layoutHit] ∧ answered log = [(Worker.layoutHit, .err (.rpc "down"))] ∧
      ofHits r.journal.file = (answered log).flatMap story := by
  have loaded : ((machine ⟨1, 1⟩ layoutCfg).logged (entries layoutCfg)).run (start .init 0, [])
      [.gpu (.hotSwap Worker.layoutJob), .gpu .check, .gpu .take, .gpu (.swap ⟨.done, .done, none⟩),
        .gpu (.apply 0x4243)] =
      some (⟨Worker.layoutLoaded, .new, .receiving, .start⟩, []) := rfl
  have launch : (Worker.machine ⟨1, 1⟩).step Worker.layoutLoaded (.launch Worker.layoutCalls) =
      some Worker.layoutSending :=
    Worker.launch_layoutJob rfl ⟨rfl, rfl, rfl, rfl⟩ rfl
  have launched : (machine ⟨1, 1⟩ layoutCfg).step
      ⟨Worker.layoutLoaded, .new, .receiving, .start⟩ (.gpu (.launch Worker.layoutCalls)) =
      some ⟨Worker.layoutSending, .new, .receiving, .start⟩ :=
    step_launch launch
  have reported : ((machine ⟨1, 1⟩ layoutCfg).logged (entries layoutCfg)).run
      (⟨Worker.layoutSending, .new, .receiving, .start⟩, []) layoutOutage = some (_, _) := rfl
  have rest := (Machine.run_cons _).mpr ⟨_, Machine.logged_of_step _ launched [], reported⟩
  have reached := (Machine.run_append _).mpr ⟨_, loaded, rest⟩
  refine ⟨_, _, _, reached, rfl, rfl, ?_⟩
  refine (run_reports reached).2.2.2 ?_ trivial
  intro line lost
  change _ ∈ [Passage.offer _ true, .take _, .offer _ true, .take _] at lost
  simp at lost

end Reports

end HashMiner
