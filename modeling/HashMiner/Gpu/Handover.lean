import HashMiner.Gpu.Provenance

/-!
# The way of a job to the device

A job waits in the slot `pending`, is taken by the loop and then loaded. The slot keeps
the last job only, and a loaded job stays until the next one is.
-/

namespace HashMiner.Gpu.Worker

open Foundation

variable {cfg : GpuCfg} {w w' : Worker} {e : WorkerEvent} {job : Job}

/-- The device and the loop's variables hold all of the job. -/
structure Loaded (w : Worker) (job : Job) : Prop where
  holds : w.Holds job
  epochIdHost : w.rt.epochIdHost = job.epochId.setWidth 32

theorem Loaded.unique {other : Job} (loaded : w.Loaded job) (too : w.Loaded other) :
    job = other := by
  obtain ⟨⟨_, target, challenge, epoch⟩, _⟩ := loaded
  obtain ⟨⟨_, target', challenge', epoch'⟩, _⟩ := too
  have lanes : targetLanes job.target = targetLanes other.target := target.symm.trans target'
  have value : job.target = other.target := by
    apply BitVec.eq_of_toNat_eq
    rw [toNat_targetLanes, toNat_targetLanes, lanes]
  cases job
  cases other
  cases challenge.symm.trans challenge'
  cases epoch.symm.trans epoch'
  cases value
  rfl

/-- The job that the loop has taken and not loaded. -/
def taken (w : Worker) : Option Job :=
  match w.pc with
  | .swap job => some job
  | _ => none

/-- The jobs on their way, the older first. -/
def underway (w : Worker) : List Job := w.taken.toList ++ w.state.pending.toList

/-- The job that a step loads. -/
def loads (w : Worker) : WorkerEvent → List Job
  | .swap _ => w.taken.toList
  | _ => []

/-- The last job that was handed over is this one. -/
def Carries (w : Worker) (job : Job) : Prop :=
  match w.state.pending, w.taken with
  | some last, _ => last = job
  | none, some last => last = job
  | none, none => w.Loaded job

/-- The driver takes what it is given to load. -/
def Answered : WorkerEvent → Prop
  | .swap calls => calls = ⟨.done, .done, none⟩
  | _ => True

/-- A step, for the jobs on their way. -/
inductive Hands (w : Worker) (e : WorkerEvent) (w' : Worker) : Prop
  | took (job : Job) : w.state.pending = some job → w.taken = none → w'.state.pending = none →
      w'.taken = some job → w.loads e = [] → Hands w e w'
  | loaded (job : Job) : w.taken = some job → w'.taken = none →
      w'.state.pending = w.state.pending → w'.Loaded job → w.loads e = [job] → Hands w e w'
  | kept : w'.taken = w.taken → w'.state.pending = w.state.pending →
      (∀ job, w.Loaded job → w'.Loaded job) → w.loads e = [] → Hands w e w'

/-- The loop goes on with what it has. -/
theorem proceed_hands (w : Worker) : w.proceed.taken = none ∧ w.proceed.state = w.state ∧
    ∀ job, w.Loaded job → w.proceed.Loaded job := by
  rcases proceed_cases w with ⟨_, back⟩ | ⟨_, on⟩
  · rw [back]
    exact ⟨rfl, rfl, fun _ loaded => ⟨loaded.holds, loaded.epochIdHost⟩⟩
  · rw [on]
    exact ⟨rfl, rfl, fun _ loaded => ⟨loaded.holds, loaded.epochIdHost⟩⟩

theorem swap_answered (w : Worker) (job : Job) :
    (w.swap job ⟨.done, .done, none⟩).Loaded job ∧
      (w.swap job ⟨.done, .done, none⟩).taken = none :=
  ⟨⟨⟨rfl, rfl, rfl, rfl⟩, rfl⟩, rfl⟩

theorem launched_loop (cfg : GpuCfg) (w : Worker) (outcome : Launched) (rt : GpuRuntime) :
    (w.launched cfg (outcome, rt)).rt = rt ∧
      (w.launched cfg (outcome, rt)).currentChallenge = w.currentChallenge ∧
      (w.launched cfg (outcome, rt)).currentEpoch = w.currentEpoch ∧
      (w.launched cfg (outcome, rt)).taken = none := by
  cases outcome with
  | ok nonce => cases nonce <;> exact ⟨rfl, rfl, rfl, rfl⟩
  | err | panicked => exact ⟨rfl, rfl, rfl, rfl⟩

theorem launched_hands {calls : LaunchCalls} {answer : Launched × GpuRuntime}
    (answered : w.rt.launchMine w.nonceStart cfg.batchSize cfg.threadsPerBlock calls =
      some answer) :
    (w.launched cfg answer).taken = none ∧
      ∀ job, w.Loaded job → (w.launched cfg answer).Loaded job := by
  obtain ⟨outcome, rt⟩ := answer
  obtain ⟨device, challenge, epoch, idle⟩ := launched_loop cfg w outcome rt
  refine ⟨idle, fun job loaded => ?_⟩
  obtain ⟨⟨lanes, words, current, tag⟩, host⟩ := loaded
  have frame := launchMine_frame answered
  constructor
  · rw [Holds, device, challenge, epoch, frame]
    exact ⟨lanes, words, current, tag⟩
  · rw [device, frame]
    exact host

theorem hands_of_step (handed : ∀ job, e ≠ .hotSwap job) (answered : Answered e)
    (moved : step cfg w e = some w') : Hands w e w' := by
  cases step_cases moved with
  | hotSwap job => exact absurd rfl (handed job)
  | shutdown | recv | closeRx =>
    exact .kept rfl rfl (fun _ loaded => ⟨loaded.holds, loaded.epochIdHost⟩) rfl
  | stop here | enter here | closed hit here | send hit here =>
    have idle : w.taken = none := by rw [taken, here]
    exact .kept idle.symm rfl (fun _ loaded => ⟨loaded.holds, loaded.epochIdHost⟩) rfl
  | take job here pending =>
    have idle : w.taken = none := by rw [taken, here]
    exact .took job pending idle rfl rfl rfl
  | idle here empty =>
    have idle : w.taken = none := by rw [taken, here]
    obtain ⟨none, state, still⟩ := proceed_hands w
    exact .kept (none.trans idle.symm) (congrArg _ state) still rfl
  | swap job calls here =>
    have busy : w.taken = some job := by rw [taken, here]
    cases answered
    obtain ⟨loaded, done⟩ := swap_answered w job
    refine .loaded job busy done (congrArg _ (swap_shares w job _).1) loaded ?_
    rw [loads, busy]
    rfl
  | apply job region here =>
    have idle : w.taken = none := by rw [taken, here]
    obtain ⟨none, state, still⟩ := proceed_hands { w with
      state := { w.state with challenge := job.challenge, epochId := job.epochId }
      nonceStart := region }
    have pending := congrArg WorkerState.pending state
    refine .kept (none.trans idle.symm) pending ?_ rfl
    exact fun job loaded => still job ⟨loaded.holds, loaded.epochIdHost⟩
  | launch calls answer here launched =>
    have idle : w.taken = none := by rw [taken, here]
    obtain ⟨done, still⟩ := launched_hands launched
    exact .kept (done.trans idle.symm) (congrArg _ (launched_shares cfg w answer).1) still rfl

/-- What is on its way is loaded in order. -/
theorem Hands.underway (hands : Hands w e w') : w.loads e ++ w'.underway = w.underway := by
  cases hands with
  | took job pending idle empty took quiet =>
    rw [Worker.underway, Worker.underway, quiet, pending, idle, empty, took]
    rfl
  | loaded job busy done same loaded one =>
    rw [Worker.underway, Worker.underway, one, busy, done, same]
    rfl
  | kept taken pending loaded quiet =>
    rw [Worker.underway, Worker.underway, quiet, taken, pending]
    rfl

theorem Hands.carries (hands : Hands w e w') (carries : w.Carries job) : w'.Carries job := by
  unfold Carries at *
  cases hands with
  | took last pending idle empty took =>
    rw [pending] at carries
    rw [empty, took]
    exact carries
  | loaded last busy done same loaded =>
    rw [same, done]
    rw [busy] at carries
    cases pending : w.state.pending with
    | some newer =>
      rw [pending] at carries
      exact carries
    | none =>
      rw [pending] at carries
      cases carries
      exact loaded
  | kept taken pending loaded =>
    rw [taken, pending]
    split at carries
    · exact carries
    · exact carries
    · exact loaded job carries

end HashMiner.Gpu.Worker
