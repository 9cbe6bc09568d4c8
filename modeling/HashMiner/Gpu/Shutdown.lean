import HashMiner.Gpu.Backpressure

/-!
# Shutdown

`shutdown` stores a flag and returns. The loop looks at the flag at the top of an
iteration only, so a call that falls behind the check leaves it at work.
-/

namespace HashMiner.Gpu

open Foundation

namespace Worker

variable {cfg : GpuCfg} {w w' : Worker} {e : WorkerEvent}

/-- The loop starts a launch or hands a hit over. -/
def Works (w : Worker) : WorkerEvent → Prop
  | .launch _ => True
  | .send => w.rxOpen = true
  | _ => False

/-- No step from here on is a launch or hands over a hit. -/
def Quiet (cfg : GpuCfg) (w : Worker) : Prop :=
  ∀ later, (machine cfg).Along (fun w e _ => ¬ Works w e) w later

/-- What is left of the iteration neither launches nor hands over a hit. -/
def AtRest (w : Worker) : Prop :=
  match w.pc with
  | .check | .exited _ => True
  | .swap job => job.challenge = B256.zero
  | .apply _ => w.currentChallenge = B256.zero
  | .send _ => w.rxOpen = false
  | .take | .launch => False

theorem proceed_atRest (w : Worker) (skip : w.currentChallenge = B256.zero) :
    AtRest w.proceed ∧ w.proceed.shutdown = w.shutdown := by
  rcases proceed_cases w with ⟨_, skips⟩ | ⟨ready, _⟩
  · rw [skips]
    exact ⟨trivial, rfl⟩
  · exact absurd skip ready

theorem AtRest.closeRx (rest : AtRest w) : AtRest { w with rxOpen := false, hits := [] } := by
  obtain ⟨rt, state, shutdown, hits, rxOpen, nonceStart, challenge, epoch, pc⟩ := w
  cases pc with
  | send => rfl
  | check | take | swap | apply | launch | exited => exact rest

/-- A loop at rest that has been told to stop neither works nor becomes busy. -/
theorem AtRest.step (rest : AtRest w) (told : w.shutdown = true)
    (taken : Worker.step cfg w e = some w') :
    (AtRest w' ∧ w'.shutdown = true) ∧ ¬ Works w e := by
  cases step_cases taken with
  | hotSwap | recv => exact ⟨⟨rest, told⟩, nofun⟩
  | shutdown => exact ⟨⟨rest, rfl⟩, nofun⟩
  | closeRx => exact ⟨⟨rest.closeRx, told⟩, nofun⟩
  | stop => exact ⟨⟨trivial, told⟩, nofun⟩
  | enter _ running => cases running.symm.trans told
  | take _ here | idle here | launch _ _ here =>
    rw [AtRest, here] at rest
    exact rest.elim
  | swap job calls here =>
    rw [AtRest, here] at rest
    rcases swap_cases w job calls with ⟨_, _, failed⟩ | ⟨_, _, swapped⟩
    · rw [failed]
      exact ⟨⟨trivial, told⟩, nofun⟩
    · rw [swapped]
      exact ⟨⟨rest, told⟩, nofun⟩
  | apply job region here =>
    rw [AtRest, here] at rest
    obtain ⟨skips, flag⟩ := proceed_atRest
      { w with
        state := { w.state with challenge := job.challenge, epochId := job.epochId }
        nonceStart := region } rest
    exact ⟨⟨skips, flag.trans told⟩, nofun⟩
  | send _ here opened =>
    rw [AtRest, here] at rest
    cases rest.symm.trans opened
  | closed _ here gone =>
    exact ⟨⟨trivial, told⟩, fun opened => nomatch gone.symm.trans opened⟩

theorem AtRest.quiet (rest : AtRest w) (told : w.shutdown = true) : Quiet cfg w := by
  intro later
  have kept : ∀ (w : Worker) (e : WorkerEvent) (w' : Worker),
      AtRest w ∧ w.shutdown = true → (machine cfg).step w e = some w' →
      (AtRest w' ∧ w'.shutdown = true) ∧ ¬ Works w e :=
    fun w e w' inv taken => inv.1.step inv.2 taken
  exact Machine.along_of_invariant kept ⟨rest, told⟩ later

theorem Quiet.step (quiet : Quiet cfg w) (taken : Worker.step cfg w e = some w') :
    Quiet cfg w' ∧ ¬ Works w e := by
  refine ⟨fun later => ?_, ?_⟩
  · exact (quiet (e :: later) w' taken).2
  · exact (quiet [e] w' taken).1

theorem not_quiet_of_launch (here : w.pc = .launch) : ¬ Quiet cfg w := by
  intro quiet
  obtain ⟨t, taken⟩ : ∃ t, step cfg w (.launch
      ⟨.failed "" 0, .done, none, none, none, none, []⟩) = some t := by
    simp [step, here, GpuRuntime.launchMine]
  exact (quiet.step taken).2 trivial

/-- The loop that is past its check applies the swap and then launches. -/
theorem Quiet.skips_apply {job : Job} (quiet : Quiet cfg w) (here : w.pc = .apply job) :
    w.currentChallenge = B256.zero := by
  by_contra ready
  have taken : Worker.step cfg w (.apply 0) = some (w.apply job 0) := by
    simp only [Worker.step, here]
    rfl
  have launches : (w.apply job 0).pc = .launch := if_neg ready
  exact not_quiet_of_launch launches (quiet.step taken).1

theorem Quiet.skips_swap {job : Job} (quiet : Quiet cfg w) (here : w.pc = .swap job) :
    job.challenge = B256.zero := by
  have taken : Worker.step cfg w (.swap ⟨.done, .done, none⟩) =
      some (w.swap job ⟨.done, .done, none⟩) := by
    simp only [Worker.step, here]
  exact (quiet.step taken).1.skips_apply rfl

/-- A job can still come in. -/
theorem not_quiet_of_take (here : w.pc = .take) : ¬ Quiet cfg w := by
  intro quiet
  obtain ⟨handed, _⟩ := quiet.step (e := .hotSwap layoutJob) rfl
  obtain ⟨t, taken⟩ : ∃ t, Worker.step cfg
      { w with state := { w.state with pending := some layoutJob } } .take = some t := by
    simp [Worker.step, here]
  obtain ⟨swaps, _⟩ := handed.step taken
  simp only [Worker.step, here] at taken
  cases taken
  exact absurd (swaps.skips_swap rfl) (by decide)

theorem run_recv (hits : List Hit) (drained : w.hits = hits) :
    ∃ es, (machine cfg).run w es = some { w with hits := [] } := by
  induction hits generalizing w with
  | nil => exact ⟨[], by rw [← drained]; rfl⟩
  | cons hit hits ih =>
    have taken : (machine cfg).step w .recv = some { w with hits := hits } := by
      simp [machine, Worker.step, drained]
    obtain ⟨es, ran⟩ := ih (w := { w with hits := hits }) rfl
    exact ⟨.recv :: es, (Machine.run_cons _).mpr ⟨_, taken, ran⟩⟩

theorem Quiet.run {es : List WorkerEvent} (quiet : Quiet cfg w)
    (reached : (machine cfg).run w es = some w') : Quiet cfg w' := by
  have kept : ∀ (w : Worker) (e : WorkerEvent) (w' : Worker), Quiet cfg w →
      (machine cfg).step w e = some w' → Quiet cfg w' :=
    fun w e w' quiet taken => (quiet.step taken).1
  exact Machine.invariant_run _ kept quiet reached

/-- Once the receiver has taken what is queued there is room for the hit. -/
theorem Quiet.closed {hit : Hit} (quiet : Quiet cfg w) (here : w.pc = .send hit) :
    w.rxOpen = false := by
  by_contra opened
  obtain ⟨es, drained⟩ : ∃ es, (machine cfg).run w es = some { w with hits := [] } :=
    run_recv w.hits rfl
  have opened : w.rxOpen = true := Bool.not_eq_false _ ▸ opened
  have room : ([] : List Hit).length < hitCapacity := by decide
  have sent : Worker.step cfg { w with hits := [] } .send = some _ := step_send here opened room
  exact ((quiet.run drained).step sent).2 opened

theorem Quiet.atRest (quiet : Quiet cfg w) : AtRest w := by
  unfold AtRest
  cases here : w.pc with
  | check | exited => trivial
  | take => exact not_quiet_of_take here quiet
  | swap job => exact quiet.skips_swap here
  | apply job => exact quiet.skips_apply here
  | launch => exact not_quiet_of_launch here quiet
  | send hit => exact quiet.closed here

/-- In every run a call of `shutdown` ends the launches and the hits exactly when it finds
the loop at rest, and the loop has exited when it returns exactly when it had before. -/
theorem along_shutdown_iff (cfg : GpuCfg) (rt : GpuRuntime) (nonceStart : U64)
    (es : List WorkerEvent) :
    ((machine cfg).Along (fun _ e w' => e = .shutdown → Quiet cfg w') (start rt nonceStart) es ↔
        (machine cfg).Along (fun w e _ => e = .shutdown → AtRest w) (start rt nonceStart) es) ∧
      ((machine cfg).Along (fun _ e w' => e = .shutdown → Ended w') (start rt nonceStart) es ↔
        (machine cfg).Along (fun w e _ => e = .shutdown → Ended w) (start rt nonceStart) es) := by
  constructor
  · refine Machine.along_congr_steps (fun w e w' taken => forall_congr' fun call => ?_) _ es
    cases call
    cases taken
    exact ⟨fun quiet => quiet.atRest, fun rest => AtRest.quiet rest rfl⟩
  · refine Machine.along_congr_steps (fun w e w' taken => forall_congr' fun call => ?_) _ es
    cases call
    cases taken
    exact Iff.rfl

/-- A call behind the check: the loop then launches and hands a hit over. -/
theorem shutdown_leaves_loop_at_work :
    ∃ w, (machine ⟨1, 1⟩).run (start .init 0)
        ([.hotSwap layoutJob, .check, .take, .swap ⟨.done, .done, none⟩, .apply 0x4243] ++
          [.shutdown]) = some w ∧
      ¬ Quiet ⟨1, 1⟩ w ∧ ¬ Ended w ∧
      ∃ t, (machine ⟨1, 1⟩).run w [.launch layoutCalls, .send] = some t ∧ t.hits = [layoutHit] := by
  have told : (machine ⟨1, 1⟩).run (start .init 0)
      ([.hotSwap layoutJob, .check, .take, .swap ⟨.done, .done, none⟩, .apply 0x4243] ++
        [.shutdown]) = some { layoutLoaded with shutdown := true } := rfl
  have launch : (machine ⟨1, 1⟩).step { layoutLoaded with shutdown := true }
      (.launch layoutCalls) = some { layoutSending with shutdown := true } :=
    launch_layoutJob rfl ⟨rfl, rfl, rfl, rfl⟩ rfl
  have sent : (machine ⟨1, 1⟩).run { layoutSending with shutdown := true } [.send] =
      some { ({ layoutSending with hits := [layoutHit] }.advance ⟨1, 1⟩) with
        shutdown := true } := rfl
  refine ⟨_, told, not_quiet_of_launch rfl, ?_, ?_⟩
  · rintro ⟨how, ended⟩
    cases ended
  · exact ⟨_, (Machine.run_cons _).mpr ⟨_, launch, sent⟩, rfl⟩

end Worker

end HashMiner.Gpu
