import HashMiner.Gpu.Provenance

/-!
# The loop and a slow receiver

The channel of the hits holds sixteen of them, and the loop waits for room. While it
waits it takes no job and launches nothing, however long the receiver takes.
-/

namespace HashMiner.Gpu

open Foundation Chain

/-- The steps that the loop takes itself. -/
def WorkerEvent.loop : WorkerEvent → Bool
  | .check | .take | .swap _ | .apply _ | .launch _ | .send => true
  | .hotSwap _ | .shutdown | .recv | .closeRx => false

inductive Traffic where
  | found (hit : Hit)
  | received (hit : Hit)

def Traffic.found? : Traffic → Option Hit
  | .found hit => some hit
  | .received _ => none

def Traffic.received? : Traffic → Option Hit
  | .found _ => none
  | .received hit => some hit

def Mark.traffic? : Mark → Option Traffic
  | .found hit => some (.found hit)
  | .took _ | .sent _ => none

namespace Worker

variable {cfg : GpuCfg} {w w' : Worker} {e : WorkerEvent}

/-- About to apply a swap or to launch. Until the first swap the loop polls the slot. -/
def Serves (w : Worker) : Prop :=
  match w.pc with
  | .swap _ | .apply _ | .launch => True
  | .take => w.state.pending = none ∧ w.currentChallenge = B256.zero
  | .check | .send _ | .exited _ => False

def Ended (w : Worker) : Prop := ∃ how, w.pc = .exited how

/-- The loop gets on by its own steps. It may end instead when it is told to, or when
nobody is left to receive a hit. -/
def Proceeds (cfg : GpuCfg) (w : Worker) : Prop :=
  ∃ es t, (∀ e ∈ es, e.loop = true) ∧ (machine cfg).run w es = some t ∧
    (Serves t ∨ (w.shutdown = true ∨ w.rxOpen = false) ∧ Ended t)

/-- A hit that finds the channel full takes the place of the oldest one. -/
def DropsOldest (cfg : GpuCfg) (w : Worker) : Prop :=
  ∀ hit, w.pc = .send hit → w.rxOpen = true → hitCapacity ≤ w.hits.length →
    ∃ t, (machine cfg).step w .send = some t ∧ t.hits = w.hits.tail ++ [hit]

def Blocked (w : Worker) : Prop :=
  (∃ hit, w.pc = .send hit) ∧ w.rxOpen = true ∧ hitCapacity ≤ w.hits.length

/-- The history of the hits. -/
def traffic (cfg : GpuCfg) (w : Worker) : WorkerEvent → List Traffic
  | .recv => w.hits.head?.toList.map .received
  | e => (marks cfg w e).filterMap Mark.traffic?

def found (log : List Traffic) : List Hit := log.filterMap Traffic.found?

def received (log : List Traffic) : List Hit := log.filterMap Traffic.received?

/-- The hit that the loop has found and not yet handed over. -/
def holding (w : Worker) : List Hit :=
  match w.pc with
  | .send hit => [hit]
  | _ => []

theorem holding_nil (idle : ∀ hit, w.pc ≠ .send hit) : w.holding = [] := by
  unfold holding
  split
  · next hit here => exact absurd here (idle hit)
  · rfl

theorem Proceeds.of_serves (serves : Serves w) : Proceeds cfg w :=
  ⟨[], w, nofun, rfl, .inl serves⟩

theorem Proceeds.of_step (loop : e.loop = true) (taken : step cfg w e = some w')
    (shutdown : w'.shutdown = w.shutdown) (rxOpen : w'.rxOpen = w.rxOpen)
    (proceeds : Proceeds cfg w') : Proceeds cfg w := by
  obtain ⟨es, t, own, ran, goal⟩ := proceeds
  rw [shutdown, rxOpen] at goal
  refine ⟨e :: es, t, fun d member => ?_, (Machine.run_cons _).mpr ⟨w', taken, ran⟩, goal⟩
  rcases List.mem_cons.mp member with rfl | later
  · exact loop
  · exact own d later

theorem Proceeds.of_end (loop : e.loop = true) (taken : step cfg w e = some w')
    (allowed : w.shutdown = true ∨ w.rxOpen = false) (ended : Ended w') : Proceeds cfg w := by
  refine ⟨[e], w', fun d member => ?_, (Machine.run_cons _).mpr ⟨w', taken, rfl⟩,
    .inr ⟨allowed, ended⟩⟩
  rw [List.mem_singleton.mp member]
  exact loop

theorem proceeds_of_take (here : w.pc = .take) : Proceeds cfg w := by
  obtain ⟨t, taken⟩ : ∃ t, step cfg w .take = some t := by
    simp [step, here]
  cases step_cases taken with
  | take job => exact .of_step rfl taken rfl rfl (.of_serves trivial)
  | idle _ empty =>
    rcases proceed_cases w with ⟨skip, _⟩ | ⟨_, launches⟩
    · apply Proceeds.of_serves
      rw [Serves, here]
      exact ⟨empty, skip⟩
    · rw [launches] at taken
      exact .of_step rfl taken rfl rfl (.of_serves trivial)

theorem proceeds_of_check (here : w.pc = .check) : Proceeds cfg w := by
  obtain ⟨t, taken⟩ : ∃ t, step cfg w .check = some t := by
    simp [step, here]
  cases step_cases taken with
  | stop _ told => exact .of_end rfl taken (.inl told) ⟨_, rfl⟩
  | enter => exact .of_step rfl taken rfl rfl (proceeds_of_take rfl)

theorem step_send {hit : Hit} (here : w.pc = .send hit) (opened : w.rxOpen = true)
    (room : w.hits.length < hitCapacity) :
    step cfg w .send = some ({ w with hits := w.hits ++ [hit] }.advance cfg) := by
  simp only [step, here, send, opened, room, if_true]

theorem proceeds_of_send {hit : Hit} (here : w.pc = .send hit) (free : ¬ Blocked w) :
    Proceeds cfg w := by
  by_cases opened : w.rxOpen = true
  · have room : w.hits.length < hitCapacity := by
      by_contra full
      exact free ⟨⟨hit, here⟩, opened, Nat.not_lt.mp full⟩
    exact .of_step rfl (step_send here opened room) rfl rfl (proceeds_of_check rfl)
  · have closed : w.rxOpen = false := Bool.not_eq_true _ ▸ opened
    have taken : step cfg w .send = some (w.exit (.returned (.ok ()))) := by
      simp [step, here, send, closed]
    exact .of_end rfl taken (.inr closed) ⟨_, rfl⟩

/-- A blocked loop has no step of its own. -/
theorem Blocked.refuses (blocked : Blocked w) (loop : e.loop = true) :
    (machine cfg).step w e = none := by
  obtain ⟨⟨hit, here⟩, opened, full⟩ := blocked
  have noRoom : ¬ w.hits.length < hitCapacity := Nat.not_lt.mpr full
  cases e with
  | check | take | swap | apply | launch => simp only [machine, step, here]
  | send => simp only [machine, step, here, send, opened, noRoom, if_true, if_false]
  | hotSwap | shutdown | recv | closeRx => cases loop

theorem Blocked.stays (blocked : Blocked w) : ¬ Proceeds cfg w := by
  rintro ⟨es, t, own, ran, goal⟩
  obtain ⟨⟨hit, here⟩, _, _⟩ := id blocked
  cases es with
  | nil =>
    cases ran
    rcases goal with serves | ⟨_, how, ended⟩
    · rw [Serves, here] at serves
      exact serves
    · cases here.symm.trans ended
  | cons e es =>
    obtain ⟨u, taken, _⟩ := (Machine.run_cons _).mp ran
    rw [blocked.refuses (own e List.mem_cons_self)] at taken
    cases taken

/-- The loop that has not ended gets on, by dropping a hit if need be, unless it waits
for room in the channel. -/
theorem proceeds_iff_not_blocked :
    (¬ Ended w → Proceeds cfg w ∧ DropsOldest cfg w) ↔ ¬ Blocked w := by
  constructor
  · intro independent blocked
    obtain ⟨⟨hit, here⟩, _, _⟩ := id blocked
    have running : ¬ Ended w := fun ⟨how, ended⟩ => nomatch here.symm.trans ended
    exact blocked.stays (independent running).1
  · intro free running
    refine ⟨?_, fun hit here opened full => absurd ⟨⟨hit, here⟩, opened, full⟩ free⟩
    cases here : w.pc with
    | check => exact proceeds_of_check here
    | take => exact proceeds_of_take here
    | send hit => exact proceeds_of_send here free
    | swap | apply | launch =>
      apply Proceeds.of_serves
      rw [Serves, here]
      trivial
    | exited how => exact absurd ⟨how, here⟩ running

/-- What was received, waits in the channel or is about to, in the order of the finds. -/
def InOrder (w : Worker) (log : List Traffic) : Prop :=
  (received log ++ w.hits ++ w.holding).Sublist (found log)

@[simp] theorem found_append (log more : List Traffic) :
    found (log ++ more) = found log ++ found more := List.filterMap_append

@[simp] theorem received_append (log more : List Traffic) :
    received (log ++ more) = received log ++ received more := List.filterMap_append

theorem traffic_take (cfg : GpuCfg) (w : Worker) : traffic cfg w .take = [] := by
  simp only [traffic, marks]
  split <;> rfl

theorem traffic_send (cfg : GpuCfg) (w : Worker) : traffic cfg w .send = [] := by
  simp only [traffic, marks]
  split
  · split <;> rfl
  · rfl

theorem traffic_recv (cfg : GpuCfg) (w : Worker) :
    found (traffic cfg w .recv) = [] ∧ received (traffic cfg w .recv) ++ w.hits.tail = w.hits := by
  cases queued : w.hits with
  | nil => simp [traffic, queued, found, received]
  | cons hit hits => simp [traffic, queued, found, received, Traffic.found?, Traffic.received?]

theorem start_inOrder (rt : GpuRuntime) (nonceStart : U64) : InOrder (start rt nonceStart) [] :=
  List.nil_sublist _

theorem InOrder.quiet {log more : List Traffic} (inv : InOrder w log) (none : more = [])
    (hits : w'.hits.Sublist w.hits) (holding : w'.holding.Sublist w.holding) :
    InOrder w' (log ++ more) := by
  rw [InOrder, none, List.append_nil]
  exact ((hits.append_left _).append holding).trans inv

theorem InOrder.idle {log more : List Traffic} (inv : InOrder w log) (none : more = [])
    (hits : w'.hits = w.hits) (idle : ∀ hit, w'.pc ≠ .send hit) : InOrder w' (log ++ more) := by
  refine inv.quiet none (hits ▸ List.Sublist.refl _) ?_
  rw [holding_nil idle]
  exact List.nil_sublist _

theorem InOrder.step {log : List Traffic} (inv : InOrder w log)
    (taken : Worker.step cfg w e = some w') : InOrder w' (log ++ traffic cfg w e) := by
  cases step_cases taken with
  | hotSwap | shutdown => exact inv.quiet rfl (List.Sublist.refl _) (List.Sublist.refl _)
  | recv =>
    obtain ⟨none, queue⟩ := traffic_recv cfg w
    rw [InOrder, found_append, received_append, none, List.append_nil, List.append_assoc _ _
      w.hits.tail, queue]
    exact inv
  | closeRx => exact inv.quiet rfl (List.nil_sublist _) (List.Sublist.refl _)
  | stop | enter => exact inv.idle rfl rfl nofun
  | take => exact inv.idle (traffic_take cfg w) rfl nofun
  | idle => exact inv.idle (traffic_take cfg w) rfl (proceed_pc w)
  | swap job calls =>
    exact inv.idle rfl (swap_shares w job calls).2 (swap_pc w job calls)
  | apply => exact inv.idle rfl rfl (proceed_pc _)
  | launch calls answer here =>
    have hits := (launched_shares cfg w answer).2
    have empty : w.holding = [] := holding_nil (by simp [here])
    rcases marks_of_launch taken with ⟨hit, sending, mark⟩ | ⟨other, mark⟩
    · have news : traffic cfg w (.launch calls) = [.found hit] := by
        simp only [traffic, mark]
        rfl
      have silent : received [.found hit] = [] := rfl
      have holds : (w.launched cfg answer).holding = [hit] := by rw [holding, sending]
      rw [InOrder, empty, List.append_nil] at inv
      rw [InOrder, news, holds, hits, found_append, received_append, silent, List.append_nil]
      exact inv.append (List.Sublist.refl [hit])
    · refine inv.idle ?_ hits other
      simp only [traffic, mark]
      rfl
  | send hit here =>
    have holds : w.holding = [hit] := by rw [holding, here]
    rw [InOrder, holds, List.append_assoc] at inv
    have sent : ({ w with hits := w.hits ++ [hit] }.advance cfg).holding = [] := rfl
    rw [InOrder, traffic_send, List.append_nil, sent, List.append_nil]
    exact inv
  | closed => exact inv.idle (traffic_send cfg w) rfl nofun

/-- In every state that a run reaches, what the submitter has received are hits found, in
order; and the loop is independent of the submitter exactly when it does not wait for
room in the channel. -/
theorem run_independent_iff_room (cfg : GpuCfg) (rt : GpuRuntime) (nonceStart : U64)
    (es : List WorkerEvent) (w : Worker) (log : List Traffic)
    (reached : ((machine cfg).logged (traffic cfg)).run (start rt nonceStart, []) es =
      some (w, log)) :
    (received log).Sublist (found log) ∧
        (¬ Ended w → Proceeds cfg w ∧ DropsOldest cfg w) ↔ ¬ Blocked w := by
  have kept : ∀ (p : Worker × List Traffic) (e : WorkerEvent) (q : Worker × List Traffic),
      InOrder p.1 p.2 → ((machine cfg).logged (traffic cfg)).step p e = some q →
      InOrder q.1 q.2 := by
    intro p e q inv logged
    obtain ⟨taken, log⟩ := (Machine.logged_step _).mp logged
    exact log ▸ inv.step taken
  have order : InOrder w log :=
    Machine.invariant_run _ kept (start_inOrder rt nonceStart) reached
  have front : (received log).Sublist (found log) := by
    rw [InOrder, List.append_assoc] at order
    exact (List.sublist_append_left _ _).trans order
  have serves : (¬ Ended w → Proceeds cfg w ∧ DropsOldest cfg w) ↔ ¬ Blocked w :=
    proceeds_iff_not_blocked
  rw [← serves, and_iff_right front]

/-- The loop with a hit, while `n` others wait for a receiver. -/
def layoutWaiting (n : Nat) : Worker :=
  { layoutSending with hits := List.replicate n layoutHit }

def layoutQueued (n : Nat) : Worker := (layoutWaiting n).advance ⟨1, 1⟩

/-- The job is swapped in again, and its search begins at the nonce that solves it. -/
def layoutRound : List WorkerEvent :=
  [.hotSwap layoutJob, .check, .take, .swap ⟨.done, .done, none⟩, .apply 0x4243] ++
    [.launch layoutCalls]

theorem run_layoutRound (n : Nat) :
    (machine ⟨1, 1⟩).run (layoutQueued n) layoutRound = some (layoutWaiting n) := by
  have loaded : (machine ⟨1, 1⟩).run (layoutQueued n)
      [.hotSwap layoutJob, .check, .take, .swap ⟨.done, .done, none⟩, .apply 0x4243] =
      some { layoutLoaded with rt := layoutSending.rt, hits := List.replicate n layoutHit } := rfl
  have launch : (machine ⟨1, 1⟩).step
      { layoutLoaded with rt := layoutSending.rt, hits := List.replicate n layoutHit }
      (.launch layoutCalls) = some (layoutWaiting n) :=
    launch_layoutJob rfl ⟨rfl, rfl, rfl, rfl⟩ rfl
  exact (Machine.run_append _).mpr ⟨_, loaded, (Machine.run_cons _).mpr ⟨_, launch, rfl⟩⟩

theorem run_layoutRounds (n : Nat) (room : n < hitCapacity) :
    ∃ es, (machine ⟨1, 1⟩).run (start .init 0) es = some (layoutQueued (n + 1)) := by
  induction n with
  | zero =>
    have first : (machine ⟨1, 1⟩).run (start .init 0)
        [.hotSwap layoutJob, .check, .take, .swap ⟨.done, .done, none⟩, .apply 0x4243] =
        some layoutLoaded := rfl
    have launch : (machine ⟨1, 1⟩).step layoutLoaded (.launch layoutCalls) = some layoutSending :=
      launch_layoutJob rfl ⟨rfl, rfl, rfl, rfl⟩ rfl
    have sent : (machine ⟨1, 1⟩).run layoutSending [.send] = some (layoutQueued 1) := rfl
    exact ⟨_, (Machine.run_append _).mpr ⟨_, first, (Machine.run_cons _).mpr ⟨_, launch, sent⟩⟩⟩
  | succ n ih =>
    obtain ⟨es, earlier⟩ := ih (Nat.lt_of_succ_lt room)
    have free : (layoutWaiting (n + 1)).hits.length < hitCapacity := by
      rw [layoutWaiting, List.length_replicate]
      exact room
    have longer : (layoutWaiting (n + 1)).hits ++ [layoutHit] = (layoutWaiting (n + 2)).hits :=
      (List.replicate_succ' ..).symm
    have sent : (machine ⟨1, 1⟩).step (layoutWaiting (n + 1)) .send =
        some (layoutQueued (n + 2)) := by
      have pushed : step ⟨1, 1⟩ (layoutWaiting (n + 1)) .send = _ := step_send rfl rfl free
      rw [longer] at pushed
      exact pushed
    have last : (machine ⟨1, 1⟩).run (layoutWaiting (n + 1)) [.send] =
        some (layoutQueued (n + 2)) := (Machine.run_cons _).mpr ⟨_, sent, rfl⟩
    have round := (Machine.run_append _).mpr ⟨_, run_layoutRound (n + 1), last⟩
    exact ⟨_, (Machine.run_append _).mpr ⟨_, earlier, round⟩⟩

/-- A loop that has taken its first job. -/
theorem run_independent_layoutJob :
    ∃ w log, ((machine ⟨1, 1⟩).logged (traffic ⟨1, 1⟩)).run (start .init 0, [])
        [.hotSwap layoutJob, .check, .take] = some (w, log) ∧
      Proceeds ⟨1, 1⟩ w ∧ DropsOldest ⟨1, 1⟩ w := by
  have reached : ((machine ⟨1, 1⟩).logged (traffic ⟨1, 1⟩)).run (start .init 0, [])
      [.hotSwap layoutJob, .check, .take] = some (_, _) := rfl
  have free := (run_independent_iff_room _ _ _ _ _ _ reached).mpr
    fun ⟨⟨_, sending⟩, _⟩ => nomatch sending
  exact ⟨_, _, reached, free.2 fun ⟨_, ended⟩ => nomatch ended⟩

/-- Sixteen hits wait for a receiver that does not come, and the next one stops the loop:
it neither drops a hit nor gets on. -/
theorem seventeenth_hit_stops_loop :
    ∃ es w, (machine ⟨1, 1⟩).run (start .init 0) es = some w ∧ ¬ Ended w ∧
      ¬ Proceeds ⟨1, 1⟩ w ∧ ¬ DropsOldest ⟨1, 1⟩ w := by
  obtain ⟨es, queued⟩ := run_layoutRounds 15 (by decide)
  have reached := (Machine.run_append _).mpr ⟨_, queued, run_layoutRound 16⟩
  have blocked : Blocked (layoutWaiting 16) := ⟨⟨layoutHit, rfl⟩, rfl, by decide⟩
  refine ⟨_, _, reached, ?_, blocked.stays, ?_⟩
  · rintro ⟨how, ended⟩
    cases ended
  · intro drops
    obtain ⟨t, taken, _⟩ := drops layoutHit rfl rfl (by decide)
    rw [blocked.refuses rfl] at taken
    cases taken

end Worker

end HashMiner.Gpu
