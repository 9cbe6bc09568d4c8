import HashMiner.Gpu.Launch
import HashMiner.Gpu.Worker

/-!
# Where a hit comes from

A job passes through the slot `pending`, the device buffers and the variables of
the loop at different moments. At each of its steps the loop works for the job it
took last, so a hit is tagged with the epoch whose challenge and target it solves.
-/

namespace HashMiner.Gpu

open Foundation Kernel Chain

def Job.Solved (keccak : Digest) (job : Job) (hit : Hit) : Prop :=
  hit.epochId = job.epochId ∧
    (computeInnerHash keccak job.challenge hit.nonce).value < job.target.toNat

inductive Mark where
  | took (job : Job)
  | found (hit : Hit)
  | sent (hit : Hit)
  deriving DecidableEq

def Mark.job? : Mark → Option Job
  | took job => some job
  | _ => none

def lastTook (log : List Mark) : Option Job := (log.filterMap Mark.job?).getLast?

@[simp] theorem lastTook_took (log : List Mark) (job : Job) :
    lastTook (log ++ [.took job]) = some job := by simp [lastTook, Mark.job?]

theorem lastTook_quiet {marks : List Mark} (log : List Mark) (quiet : ∀ job, .took job ∉ marks) :
    lastTook (log ++ marks) = lastTook log := by
  have none : marks.filterMap Mark.job? = [] := by
    rw [List.filterMap_eq_nil_iff]
    intro mark member
    cases mark with
    | took job => exact absurd member (quiet job)
    | found | sent => rfl
  simp [lastTook, none]

namespace Worker

variable {cfg : GpuCfg} {w w' : Worker} {e : WorkerEvent} {keccak : Digest}

/-- What a step adds to the history. -/
def marks (cfg : GpuCfg) (w : Worker) : WorkerEvent → List Mark
  | .take =>
    match w.pc, w.state.pending with
    | .take, some job => [.took job]
    | _, _ => []
  | .launch calls =>
    match ((machine cfg).step w (.launch calls)).map Worker.pc with
    | some (.send hit) => [.found hit]
    | _ => []
  | .send =>
    match w.pc with
    | .send hit => if w.rxOpen then [.sent hit] else []
    | _ => []
  | _ => []

/-- The device and the loop's variables all stem from `job`. -/
structure Stems (rt : GpuRuntime) (challenge : B256) (epochId : U64) (job : Job) : Prop where
  challengeBuf : rt.challengeBuf = challengeLanes job.challenge
  targetBuf : rt.targetBuf = targetLanes job.target
  challenge : challenge = job.challenge
  epoch : epochId = job.epochId

abbrev Holds (w : Worker) (job : Job) : Prop := Stems w.rt w.currentChallenge w.currentEpoch job

/-- What the loop relies on at each of its points, for jobs described by `P`. Until
the first challenge is there, and after a failure, the device may hold anything. -/
def Coherent (keccak : Digest) (P : Job → Prop) (w : Worker) : Prop :=
  match w.pc with
  | .check | .take => w.currentChallenge = B256.zero ∨ ∃ job, P job ∧ w.Holds job
  | .swap job => P job
  | .apply job => P job ∧ w.Holds job
  | .launch => ∃ job, P job ∧ w.Holds job
  | .send hit => ∃ job, P job ∧ w.Holds job ∧ job.Solved keccak hit
  | .exited _ => True

variable {P Q : Job → Prop}

theorem start_coherent (rt : GpuRuntime) (nonceStart : U64) :
    Coherent keccak P (start rt nonceStart) := .inl rfl

theorem Coherent.mono (inv : Coherent keccak P w) (kept : ∀ job, P job → Q job) :
    Coherent keccak Q w := by
  unfold Coherent at *
  split at inv
  · exact inv.imp_right fun ⟨job, held, holds⟩ => ⟨job, kept job held, holds⟩
  · exact inv.imp_right fun ⟨job, held, holds⟩ => ⟨job, kept job held, holds⟩
  · exact kept _ inv
  · exact inv.imp_left (kept _)
  · obtain ⟨job, held, holds⟩ := inv
    exact ⟨job, kept job held, holds⟩
  · obtain ⟨job, held, holds⟩ := inv
    exact ⟨job, kept job held, holds⟩
  · trivial

theorem Coherent.proceed (idle : w.currentChallenge = B256.zero ∨ ∃ job, P job ∧ w.Holds job) :
    Coherent keccak P w.proceed := by
  rcases proceed_cases w with ⟨skip, back⟩ | ⟨ready, on⟩
  · rw [back]
    exact .inl skip
  · rw [on]
    obtain ⟨job, good, holds⟩ := idle.resolve_left ready
    exact ⟨job, good, holds⟩

theorem Coherent.swap (job : Job) (calls : HotSwapCalls) (good : P job) :
    Coherent keccak P (w.swap job calls) := by
  rcases swap_cases w job calls with ⟨e, rt, failed⟩ | ⟨rt, loaded, swapped⟩
  · rw [failed]
    trivial
  · rw [swapped]
    obtain ⟨lanes, words⟩ := hotSwap_loads loaded
    exact ⟨good, lanes, words, rfl, rfl⟩

/-- A found nonce solves the job on the device. -/
theorem Coherent.launched (standard : StandardDigest keccak) {calls : LaunchCalls}
    {answer : Launched × GpuRuntime} (held : ∃ job, P job ∧ w.Holds job)
    (answered : w.rt.launchMine w.nonceStart cfg.batchSize cfg.threadsPerBlock calls =
      some answer) :
    Coherent keccak P (w.launched cfg answer) := by
  obtain ⟨job, good, holds⟩ := held
  obtain ⟨outcome, rt⟩ := answer
  obtain ⟨lanes, words⟩ := launchMine_keeps answered
  have still : ({ w with rt } : Worker).Holds job :=
    ⟨lanes.trans holds.challengeBuf, words.trans holds.targetBuf, holds.challenge, holds.epoch⟩
  cases outcome with
  | panicked => trivial
  | err e => trivial
  | ok nonce =>
    cases nonce with
    | none => exact .inr ⟨job, good, still⟩
    | some n =>
      obtain ⟨_, _, _, accepted⟩ := launchMine_some answered
      rw [holds.challengeBuf, holds.targetBuf] at accepted
      exact ⟨job, good, still, holds.epoch, (less_lanes_iff standard _ _ _).mp accepted⟩

/-- The step lemma. `P` describes the jobs before the step, `Q` those after it; only
a step that takes a job may drop what `P` says. -/
theorem Coherent.step (standard : StandardDigest keccak) (inv : Coherent keccak P w)
    (taken : step cfg w e = some w')
    (kept : (∀ job, .took job ∉ marks cfg w e) → ∀ job, P job → Q job)
    (took : ∀ job, .took job ∈ marks cfg w e → Q job) : Coherent keccak Q w' := by
  cases step_cases taken with
  | hotSwap | shutdown | recv | closeRx => exact inv.mono (kept (by simp [marks]))
  | stop | closed => trivial
  | enter here =>
    rw [Coherent, here] at inv
    exact inv.imp_right fun ⟨job, good, holds⟩ =>
      ⟨job, kept (by simp [marks]) job good, holds⟩
  | take job here pending =>
    exact took job (by simp [marks, here, pending])
  | idle here empty =>
    rw [Coherent, here] at inv
    have still := kept (by simp [marks, here, empty])
    exact .proceed (inv.imp_right fun ⟨job, good, holds⟩ => ⟨job, still job good, holds⟩)
  | swap job calls here =>
    rw [Coherent, here] at inv
    exact .swap job calls (kept (by simp [marks]) job inv)
  | apply job region here drawn =>
    rw [Coherent, here] at inv
    obtain ⟨good, holds⟩ := inv
    exact .proceed (.inr ⟨job, kept (by simp [marks]) job good, holds⟩)
  | launch calls answer here answered =>
    rw [Coherent, here] at inv
    obtain ⟨job, good, holds⟩ := inv
    have still := kept fun job => by
      simp only [marks]
      split <;> simp
    exact .launched standard ⟨job, still job good, holds⟩ answered
  | send hit here opened room =>
    rw [Coherent, here] at inv
    obtain ⟨job, good, holds, _⟩ := inv
    have still := kept (by simp [marks, here, opened])
    exact .inr ⟨job, still job good, holds⟩

theorem proceed_pc (w : Worker) (hit : Hit) : w.proceed.pc ≠ .send hit := by
  rcases proceed_cases w with ⟨_, back⟩ | ⟨_, on⟩
  · rw [back]
    exact nofun
  · rw [on]
    exact nofun

theorem swap_pc (w : Worker) (job : Job) (calls : HotSwapCalls) (hit : Hit) :
    (w.swap job calls).pc ≠ .send hit := by
  rcases swap_cases w job calls with ⟨e, rt, failed⟩ | ⟨rt, _, swapped⟩
  · rw [failed]
    exact nofun
  · rw [swapped]
    exact nofun

/-- Every hit that was sent was found just before, for the job taken last. -/
def Justified (keccak : Digest) (log : List Mark) : Prop :=
  ∀ before hit after, log = before ++ .sent hit :: after →
    ∃ earlier job, before = earlier ++ [.found hit] ∧ lastTook earlier = some job ∧
      job.Solved keccak hit

theorem Justified.append {log : List Mark} {mark : Mark} (inv : Justified keccak log)
    (sound : ∀ hit, mark = .sent hit → ∃ earlier job, log = earlier ++ [.found hit] ∧
      lastTook earlier = some job ∧ job.Solved keccak hit) :
    Justified keccak (log ++ [mark]) := by
  intro before hit after split
  rcases List.eq_nil_or_concat after with rfl | ⟨front, last, rfl⟩
  · obtain ⟨same, last⟩ := List.append_inj' split rfl
    obtain ⟨earlier, job, found, stems⟩ := sound hit (List.cons.inj last).1
    exact ⟨earlier, job, same ▸ found, stems⟩
  · rw [List.concat_eq_append, ← List.cons_append, ← List.append_assoc] at split
    exact inv before hit front (List.append_inj' split rfl).1

structure Traces (keccak : Digest) (w : Worker) (log : List Mark) : Prop where
  justified : Justified keccak log
  coherent : Coherent keccak (fun job => lastTook log = some job) w
  found : ∀ hit, w.pc = .send hit → ∃ earlier, log = earlier ++ [.found hit]

theorem marks_of_launch {calls : LaunchCalls}
    (taken : (machine cfg).step w (.launch calls) = some w') :
    (∃ hit, w'.pc = .send hit ∧ marks cfg w (.launch calls) = [.found hit]) ∨
      (∀ hit, w'.pc ≠ .send hit) ∧ marks cfg w (.launch calls) = [] := by
  simp only [marks, taken, Option.map_some]
  split
  · next hit here => exact .inl ⟨hit, Option.some.inj here, rfl⟩
  · next other => exact .inr ⟨fun hit here => other hit (congrArg some here), rfl⟩

theorem launch_logged {calls : LaunchCalls} {hit : Hit} (log : List Mark)
    (taken : (machine cfg).step w (.launch calls) = some w') (sending : w'.pc = .send hit) :
    ((machine cfg).logged (marks cfg)).step (w, log) (.launch calls) =
      some (w', log ++ [.found hit]) := by
  rcases marks_of_launch taken with ⟨found, here, mark⟩ | ⟨other, _⟩
  · cases sending.symm.trans here
    rw [← mark]
    exact Machine.logged_of_step _ taken log
  · exact absurd sending (other hit)

/-- A job is taken from the slot. -/
theorem marks_of_took {job : Job} (took : .took job ∈ marks cfg w e) :
    marks cfg w e = [.took job] ∧ w.state.pending = some job := by
  cases e with
  | take =>
    simp only [marks] at took ⊢
    split at took
    · next full =>
      cases List.mem_singleton.mp took
      exact ⟨rfl, full⟩
    · cases took
  | launch calls =>
    simp only [marks] at took
    split at took
    · exact nomatch List.mem_singleton.mp took
    · cases took
  | send =>
    simp only [marks] at took
    split at took
    · split at took
      · exact nomatch List.mem_singleton.mp took
      · cases took
    · cases took
  | hotSwap | shutdown | recv | closeRx | check | swap | apply => cases took

/-- A step that leaves the loop where it does not send, and marks nothing sent. -/
theorem Traces.quiet {log marks : List Mark} (inv : Traces keccak w log)
    (coherent : Coherent keccak (fun job => lastTook (log ++ marks) = some job) w')
    (unsent : marks = [] ∨ ∃ job, marks = [.took job])
    (elsewhere : ∀ hit, w'.pc = .send hit → marks = [] ∧ w.pc = .send hit) :
    Traces keccak w' (log ++ marks) where
  justified := by
    rcases unsent with rfl | ⟨job, rfl⟩
    · rw [List.append_nil]
      exact inv.justified
    · exact inv.justified.append fun hit sent => nomatch sent
  coherent := coherent
  found hit here := by
    obtain ⟨rfl, before⟩ := elsewhere hit here
    rw [List.append_nil]
    exact inv.found hit before

theorem Traces.step {log : List Mark} (standard : StandardDigest keccak)
    (inv : Traces keccak w log) (taken : step cfg w e = some w') :
    Traces keccak w' (log ++ marks cfg w e) := by
  have coherent : Coherent keccak (fun job => lastTook (log ++ marks cfg w e) = some job) w' := by
    refine inv.coherent.step standard taken (fun quiet job held => ?_) fun job took => ?_
    · rw [lastTook_quiet log quiet]
      exact held
    · rw [(marks_of_took took).1, lastTook_took]
  cases step_cases taken with
  | hotSwap | shutdown | recv | closeRx =>
    exact inv.quiet coherent (.inl rfl) fun hit here => ⟨rfl, here⟩
  | stop | enter => exact inv.quiet coherent (.inl rfl) fun hit here => nomatch here
  | take job here pending =>
    have mark : marks cfg w .take = [.took job] := by simp [marks, here, pending]
    exact inv.quiet coherent (.inr ⟨job, mark⟩) fun hit here => nomatch here
  | idle here empty =>
    have mark : marks cfg w .take = [] := by simp [marks, here, empty]
    exact inv.quiet coherent (.inl mark) fun hit here => absurd here (proceed_pc w hit)
  | swap job calls =>
    exact inv.quiet coherent (.inl rfl) fun hit here => absurd here (swap_pc w job calls hit)
  | apply job region =>
    exact inv.quiet coherent (.inl rfl) fun hit here => absurd here (proceed_pc _ hit)
  | launch calls answer here answered =>
    rcases marks_of_launch taken with ⟨hit, sending, mark⟩ | ⟨other, mark⟩
    · rw [mark] at coherent ⊢
      refine ⟨inv.justified.append fun _ sent => (nomatch sent), coherent, fun found here => ?_⟩
      cases sending.symm.trans here
      exact ⟨log, rfl⟩
    · exact inv.quiet coherent (.inl mark) fun hit here => absurd here (other hit)
  | send hit here opened room =>
    have mark : marks cfg w .send = [.sent hit] := by simp [marks, here, opened]
    obtain ⟨earlier, found⟩ := inv.found hit here
    have solved := inv.coherent
    rw [Coherent, here] at solved
    obtain ⟨job, held, _, solved⟩ := solved
    rw [mark] at coherent ⊢
    refine ⟨inv.justified.append fun _ same => ?_, coherent, fun _ here => (nomatch here)⟩
    cases same
    rw [found, lastTook_quiet earlier (by simp)] at held
    exact ⟨earlier, job, found, held, solved⟩
  | closed hit here gone =>
    have mark : marks cfg w .send = [] := by simp [marks, here, gone]
    exact inv.quiet coherent (.inl mark) fun hit here => nomatch here

theorem run_traces {rt : GpuRuntime} {nonceStart : U64} {es : List WorkerEvent}
    {log : List Mark} (standard : StandardDigest keccak)
    (ran : ((machine cfg).logged (marks cfg)).run (start rt nonceStart, []) es = some (w, log)) :
    Traces keccak w log := by
  have kept : ∀ p e q, Traces keccak p.1 p.2 →
      ((machine cfg).logged (marks cfg)).step p e = some q → Traces keccak q.1 q.2 := by
    rintro ⟨w, log⟩ e ⟨w', _⟩ inv taken
    obtain ⟨stepped, rfl⟩ := (Machine.logged_step _).mp taken
    exact inv.step standard stepped
  have initial : Traces keccak (start rt nonceStart) [] := {
    justified := fun before hit after split => by simp at split
    coherent := start_coherent rt nonceStart
    found := fun hit here => nomatch here }
  exact Machine.invariant_run _ kept initial ran

/-- The loop has ended for good. -/
theorem exited_silent {how : Exit} {es : List WorkerEvent} {log log' : List Mark}
    (ended : w.pc = .exited how)
    (ran : ((machine cfg).logged (marks cfg)).run (w, log) es = some (w', log')) :
    log' = log := by
  have kept : ∀ p e q, p.1.pc = .exited how ∧ p.2 = log →
      ((machine cfg).logged (marks cfg)).step p e = some q → q.1.pc = .exited how ∧ q.2 = log := by
    rintro ⟨w, _⟩ e ⟨w', _⟩ ⟨ended, rfl⟩ taken
    obtain ⟨stepped, rfl⟩ := (Machine.logged_step _).mp taken
    obtain ⟨still, others⟩ := exited_cases (ended : w.pc = .exited how) stepped
    refine ⟨still, ?_⟩
    rcases others with ⟨job, rfl⟩ | rfl | rfl | rfl <;> exact List.append_nil _
  have still := Machine.invariant_run _ kept ⟨ended, rfl⟩ ran
  exact still.2

/-- Under any interleaving, a hit that is sent was found for the job `lastTook` names
and solves it; at every launch device and variables stem from that job; after a hot
swap of the device that fails, no hit is found or sent. -/
theorem run_hits_stem_from_job (keccak : Digest) (standard : StandardDigest keccak) (cfg : GpuCfg)
    (rt : GpuRuntime) (nonceStart : U64) (es : List WorkerEvent) (w : Worker) (log : List Mark)
    (ran : ((machine cfg).logged (marks cfg)).run (start rt nonceStart, []) es = some (w, log)) :
    (∀ before hit after, log = before ++ .sent hit :: after →
      ∃ earlier job, before = earlier ++ [.found hit] ∧ lastTook earlier = some job ∧
        hit.epochId = job.epochId ∧
        (computeInnerHash keccak job.challenge hit.nonce).value < job.target.toNat) ∧
    (w.pc = .launch → ∃ job, lastTook log = some job ∧
      w.rt.challengeBuf = challengeLanes job.challenge ∧
      w.rt.targetBuf = targetLanes job.target ∧ w.currentEpoch = job.epochId) ∧
    ∀ job calls error rt' fs w' log', w.pc = .swap job →
      w.rt.hotSwap job.challenge job.target (job.epochId.setWidth 32) calls = (.error error, rt') →
      ((machine cfg).logged (marks cfg)).run (w, log) (.swap calls :: fs) = some (w', log') →
      log' = log := by
  have inv := run_traces standard ran
  refine ⟨inv.justified, fun here => ?_, ?_⟩
  · have held := inv.coherent
    rw [Coherent, here] at held
    obtain ⟨job, last, stems⟩ := held
    exact ⟨job, last, stems.challengeBuf, stems.targetBuf, stems.epoch⟩
  · intro job calls error rt' fs w' log' here failed rest
    obtain ⟨⟨next, _⟩, taken, rest⟩ := (Machine.run_cons _).mp rest
    obtain ⟨stepped, rfl⟩ := (Machine.logged_step _).mp taken
    have silent : log ++ marks cfg w (.swap calls) = log := List.append_nil log
    have ended : next.pc = .exited (.returned (.error error)) := by
      change Worker.step cfg w (.swap calls) = some next at stepped
      simp only [Worker.step, here, Worker.swap, failed] at stepped
      cases stepped
      rfl
    exact (exited_silent ended rest).trans silent

/-- A job whose nonce `0x4243` is accepted. -/
def layoutJob : Job := ⟨layoutChallenge, BitVec.twoPow 256 253, 250707⟩

def layoutHit : Hit := ⟨0x4243, B256.zero, 250707⟩

def layoutCalls : LaunchCalls := ⟨.done, .done, none, none, none, none, [0, 0, 0]⟩

theorem launch_layoutJob (ready : w.pc = .launch) (holds : w.Holds layoutJob)
    (nonce : w.nonceStart = 0x4243) :
    (machine ⟨1, 1⟩).step w (.launch layoutCalls) =
      some { w with
        rt := { w.rt with foundBuf := 1, resultBuf := 0x4243 }
        pc := .send layoutHit } := by
  have accepted : less w.rt.challengeBuf w.rt.targetBuf 0x4243 = true := by
    rw [holds.challengeBuf, holds.targetBuf]
    exact less_layoutChallenge
  have answered := launchMine_oneThread w.rt accepted
  simp only [machine, step, ready, nonce, layoutCalls, answered, Option.map_some, launched,
    holds.epoch]
  rfl

/-- The loop once the job is loaded. -/
def layoutLoaded : Worker :=
  ⟨⟨challengeLanes layoutChallenge, targetLanes (BitVec.twoPow 256 253), 0, 0, 250707⟩,
    ⟨layoutChallenge, 250707, none⟩, false, [], true, 0x4243, layoutChallenge, 250707, .launch⟩

/-- The loop once the nonce is found. -/
def layoutSending : Worker :=
  { layoutLoaded with
    rt := { layoutLoaded.rt with foundBuf := 1, resultBuf := 0x4243 }
    pc := .send layoutHit }

theorem run_layoutJob :
    ∃ w, ((machine ⟨1, 1⟩).logged (marks ⟨1, 1⟩)).run (start .init 0, [])
      ([.hotSwap layoutJob, .check, .take, .swap ⟨.done, .done, none⟩, .apply 0x4243] ++
        [.launch layoutCalls, .send]) =
      some (w, [.took layoutJob, .found layoutHit, .sent layoutHit]) := by
  have loaded : ((machine ⟨1, 1⟩).logged (marks ⟨1, 1⟩)).run (start .init 0, [])
      [.hotSwap layoutJob, .check, .take, .swap ⟨.done, .done, none⟩, .apply 0x4243] =
      some (layoutLoaded, [.took layoutJob]) := rfl
  have launch : (machine ⟨1, 1⟩).step layoutLoaded (.launch layoutCalls) = some layoutSending :=
    launch_layoutJob rfl ⟨rfl, rfl, rfl, rfl⟩ rfl
  have sent : ((machine ⟨1, 1⟩).logged (marks ⟨1, 1⟩)).run
      (layoutSending, [.took layoutJob, .found layoutHit]) [.send] =
      some ({ layoutSending with hits := [layoutHit] }.advance ⟨1, 1⟩,
        [.took layoutJob, .found layoutHit, .sent layoutHit]) := rfl
  have rest := (Machine.run_cons _).mpr ⟨_, launch_logged [.took layoutJob] launch rfl, sent⟩
  exact ⟨_, (Machine.run_append _).mpr ⟨_, loaded, rest⟩⟩

theorem layoutHit_stems_from_layoutJob :
    ∃ earlier job, [.took layoutJob, .found layoutHit] = earlier ++ [.found layoutHit] ∧
      lastTook earlier = some job ∧ layoutHit.epochId = job.epochId ∧
      (computeInnerHash Keccak.keccak256 job.challenge layoutHit.nonce).value <
        job.target.toNat := by
  obtain ⟨w, ran⟩ := run_layoutJob
  exact (run_hits_stem_from_job Keccak.keccak256 (fun _ => rfl) _ _ _ _ _ _ ran).1
    [.took layoutJob, .found layoutHit] layoutHit [] rfl

end Worker

end HashMiner.Gpu
