import Mathlib.Data.List.Basic

/-!
# Machines driven by events

A machine either takes an event or refuses it. Every choice of an environment
(a reply, a schedule, a random draw) is carried by the event, so a run is a list
of events and one list has at most one run.
-/

namespace HashMiner.Foundation

universe u v w

structure Machine (State : Type u) (Event : Type v) where
  step : State → Event → Option State

namespace Machine

variable {State : Type u} {Event : Type v} {Output : Type w}
variable (m : Machine State Event)

def run : State → List Event → Option State
  | s, [] => some s
  | s, e :: es => (m.step s e).bind fun t => run t es

@[simp] theorem run_nil (s : State) : m.run s [] = some s := rfl

theorem run_cons {s u : State} {e : Event} {es : List Event} :
    m.run s (e :: es) = some u ↔ ∃ t, m.step s e = some t ∧ m.run t es = some u := by
  simp [run, Option.bind_eq_some_iff]

theorem run_append {s u : State} {es fs : List Event} :
    m.run s (es ++ fs) = some u ↔ ∃ t, m.run s es = some t ∧ m.run t fs = some u := by
  induction es generalizing s with
  | nil => simp
  | cons e es ih =>
    simp only [List.cons_append, run_cons, ih]
    constructor
    · rintro ⟨r, taken, t, front, back⟩
      exact ⟨t, ⟨r, taken, front⟩, back⟩
    · rintro ⟨t, ⟨r, taken, front⟩, back⟩
      exact ⟨r, taken, t, front, back⟩

/-- Every step that the machine takes on `es` meets `P`. -/
def Along (P : State → Event → State → Prop) : State → List Event → Prop
  | _, [] => True
  | s, e :: es => ∀ t, m.step s e = some t → P s e t ∧ Along P t es

variable {m}

theorem along_cons {P : State → Event → State → Prop} {s t : State} {e : Event} {es : List Event}
    (taken : m.step s e = some t) : m.Along P s (e :: es) ↔ P s e t ∧ m.Along P t es := by
  constructor
  · intro along
    exact along t taken
  · rintro met u same
    cases taken.symm.trans same
    exact met

theorem Along.at_step {P : State → Event → State → Prop} {s t u : State} {es fs : List Event}
    {e : Event} (along : m.Along P s (es ++ e :: fs)) (reached : m.run s es = some t)
    (taken : m.step t e = some u) : P t e u := by
  induction es generalizing s with
  | nil =>
    cases reached
    exact (along u taken).1
  | cons d es ih =>
    obtain ⟨r, first, rest⟩ := m.run_cons.mp reached
    exact ih (along r first).2 rest

theorem Along.append {P : State → Event → State → Prop} {s t : State} {es fs : List Event}
    (front : m.Along P s es) (reached : m.run s es = some t) (back : m.Along P t fs) :
    m.Along P s (es ++ fs) := by
  induction es generalizing s with
  | nil =>
    cases reached
    exact back
  | cons d es ih =>
    obtain ⟨r, first, rest⟩ := m.run_cons.mp reached
    obtain ⟨met, later⟩ := front r first
    exact (along_cons first).mpr ⟨met, ih later rest⟩

/-- A condition that an event meets in every state. -/
theorem along_of_forall {P : State → Event → State → Prop} {es : List Event}
    (met : ∀ e ∈ es, ∀ s t, P s e t) (s : State) : m.Along P s es := by
  induction es generalizing s with
  | nil => trivial
  | cons e es ih =>
    intro t _
    exact ⟨met e List.mem_cons_self s t, ih (fun d later => met d (List.mem_cons_of_mem e later)) t⟩

/-- The rule for properties of steps: while the steps meet the condition `Q`, an
invariant is kept and gives `P` at each of them. -/
theorem Along.of_invariant {Inv : State → Prop} {P Q : State → Event → State → Prop}
    (kept : ∀ s e t, Inv s → m.step s e = some t → Q s e t → Inv t ∧ P s e t)
    {s : State} {es : List Event} (start : Inv s) (condition : m.Along Q s es) :
    m.Along P s es := by
  induction es generalizing s with
  | nil => trivial
  | cons e es ih =>
    intro t taken
    obtain ⟨met, rest⟩ := condition t taken
    obtain ⟨inv, holds⟩ := kept s e t start taken met
    exact ⟨holds, ih inv rest⟩

/-- The rule for the states that a run reaches while its steps meet a condition. -/
theorem Along.invariant_run {Inv : State → Prop} {Q : State → Event → State → Prop}
    (kept : ∀ s e t, Inv s → m.step s e = some t → Q s e t → Inv t)
    {s t : State} {es : List Event} (start : Inv s) (condition : m.Along Q s es)
    (reached : m.run s es = some t) : Inv t := by
  induction es generalizing s with
  | nil =>
    cases reached
    exact start
  | cons e es ih =>
    obtain ⟨r, taken, rest⟩ := m.run_cons.mp reached
    obtain ⟨met, later⟩ := condition r taken
    exact ih (kept s e r start taken met) later rest

/-- The rule without a condition on the steps. -/
theorem along_of_invariant {Inv : State → Prop} {P : State → Event → State → Prop}
    (kept : ∀ s e t, Inv s → m.step s e = some t → Inv t ∧ P s e t)
    {s : State} (start : Inv s) (es : List Event) : m.Along P s es :=
  Along.of_invariant (fun s e t inv taken _ => kept s e t inv taken) start
    (along_of_forall (fun _ _ _ _ => trivial) s)

/-- The rule for the exact condition of a property of steps, where the invariant is only
kept as long as the property holds, on runs whose steps all meet `R`. -/
theorem Along.iff {Inv : State → Prop} {P Q R : State → Event → State → Prop}
    (exact : ∀ s e t, Inv s → m.step s e = some t → R s e t →
      (P s e t ↔ Q s e t) ∧ (P s e t → Inv t))
    {s : State} {es : List Event} (start : Inv s) (condition : m.Along R s es) :
    m.Along P s es ↔ m.Along Q s es := by
  induction es generalizing s with
  | nil => exact Iff.rfl
  | cons e es ih =>
    refine forall_congr' fun t => forall_congr' fun taken => ?_
    obtain ⟨met, later⟩ := condition t taken
    obtain ⟨same, kept⟩ := exact s e t start taken met
    constructor
    · rintro ⟨holds, rest⟩
      exact ⟨same.mp holds, (ih (kept holds) later).mp rest⟩
    · rintro ⟨also, rest⟩
      have holds := same.mpr also
      exact ⟨holds, (ih (kept holds) later).mpr rest⟩

/-- The rule without a condition on the steps. -/
theorem along_iff {Inv : State → Prop} {P Q : State → Event → State → Prop}
    (exact : ∀ s e t, Inv s → m.step s e = some t → (P s e t ↔ Q s e t) ∧ (P s e t → Inv t))
    {s : State} (start : Inv s) (es : List Event) : m.Along P s es ↔ m.Along Q s es :=
  Along.iff (fun s e t inv taken _ => exact s e t inv taken) start
    (along_of_forall (fun _ _ _ _ => trivial) s)

/-- The rule for an invariant that is kept in any case. -/
theorem along_congr {Inv : State → Prop} {P Q : State → Event → State → Prop}
    (kept : ∀ s e t, Inv s → m.step s e = some t → Inv t ∧ (P s e t ↔ Q s e t))
    {s : State} (start : Inv s) (es : List Event) : m.Along P s es ↔ m.Along Q s es := by
  refine along_iff (fun s e t inv taken => ?_) start es
  obtain ⟨next, same⟩ := kept s e t inv taken
  exact ⟨same, fun _ => next⟩

/-- The rule without an invariant. -/
theorem along_congr_steps {P Q : State → Event → State → Prop}
    (same : ∀ s e t, m.step s e = some t → (P s e t ↔ Q s e t)) (s : State) (es : List Event) :
    m.Along P s es ↔ m.Along Q s es := by
  have kept : ∀ s e t, True → m.step s e = some t → True ∧ (P s e t ↔ Q s e t) :=
    fun s e t _ taken => ⟨trivial, same s e t taken⟩
  exact along_congr kept trivial es

/-- The rule for a part of a machine: each step is one of the part, or leaves it alone. -/
theorem run_part {State' : Type*} {Event' : Type*} {n : Machine State' Event'}
    (part : State → State') (event : Event → Option Event')
    (moves : ∀ s e t, m.step s e = some t → ∀ d, event e = some d →
      n.step (part s) d = some (part t))
    (rests : ∀ s e t, m.step s e = some t → event e = none → part t = part s)
    {s t : State} {es : List Event} (reached : m.run s es = some t) :
    n.run (part s) (es.filterMap event) = some (part t) := by
  induction es generalizing s with
  | nil =>
    cases reached
    rfl
  | cons e es ih =>
    obtain ⟨r, taken, rest⟩ := m.run_cons.mp reached
    cases stays : event e with
    | none =>
      rw [List.filterMap_cons_none stays, ← rests s e r taken stays]
      exact ih rest
    | some d =>
      rw [List.filterMap_cons_some stays]
      exact n.run_cons.mpr ⟨part r, moves s e r taken d stays, ih rest⟩

variable (m)

/-- A property that every event of a run keeps holds at its end. -/
theorem invariant_run_of {Inv : State → Prop} {s t : State} {es : List Event}
    (kept : ∀ s, ∀ e ∈ es, ∀ t, Inv s → m.step s e = some t → Inv t)
    (start : Inv s) (reached : m.run s es = some t) : Inv t := by
  have listed : m.Along (fun _ e _ => e ∈ es) s es := along_of_forall (fun e member _ _ => member) s
  refine Along.invariant_run (fun s e t inv taken member => ?_) start listed reached
  exact kept s e member t inv taken

theorem invariant_run {Inv : State → Prop}
    (kept : ∀ s e t, Inv s → m.step s e = some t → Inv t)
    {s t : State} {es : List Event} (start : Inv s) (reached : m.run s es = some t) : Inv t :=
  m.invariant_run_of (fun s e _ t => kept s e t) start reached

/-- The machine with a history variable: `out` names what a step adds to the log.
The log is never read, so it restricts nothing. -/
def logged (out : State → Event → List Output) : Machine (State × List Output) Event where
  step p e := (m.step p.1 e).map fun t => (t, p.2 ++ out p.1 e)

theorem logged_step {out : State → Event → List Output} {p q : State × List Output} {e : Event} :
    (m.logged out).step p e = some q ↔
      m.step p.1 e = some q.1 ∧ q.2 = p.2 ++ out p.1 e := by
  obtain ⟨t, log⟩ := q
  simp only [logged, Option.map_eq_some_iff, Prod.mk.injEq]
  constructor
  · rintro ⟨_, taken, rfl, rfl⟩
    exact ⟨taken, rfl⟩
  · rintro ⟨taken, rfl⟩
    exact ⟨t, taken, rfl, rfl⟩

theorem logged_of_step {out : State → Event → List Output} {s t : State} {e : Event}
    (taken : m.step s e = some t) (log : List Output) :
    (m.logged out).step (s, log) e = some (t, log ++ out s e) :=
  m.logged_step.mpr ⟨taken, rfl⟩

/-- Every run has a log. -/
theorem run_logged {out : State → Event → List Output} {s t : State} {es : List Event}
    (reached : m.run s es = some t) (log : List Output) :
    ∃ log', (m.logged out).run (s, log) es = some (t, log') := by
  induction es generalizing s log with
  | nil =>
    cases reached
    exact ⟨log, rfl⟩
  | cons e es ih =>
    obtain ⟨r, taken, rest⟩ := m.run_cons.mp reached
    obtain ⟨log', logged⟩ := ih rest (log ++ out s e)
    exact ⟨log', (m.logged out).run_cons.mpr ⟨_, m.logged_of_step taken log, logged⟩⟩

theorem run_of_logged {out : State → Event → List Output} {p q : State × List Output}
    {es : List Event} (reached : (m.logged out).run p es = some q) : m.run p.1 es = some q.1 := by
  induction es generalizing p with
  | nil =>
    cases reached
    rfl
  | cons e es ih =>
    obtain ⟨r, logged, rest⟩ := (m.logged out).run_cons.mp reached
    exact m.run_cons.mpr ⟨r.1, (m.logged_step.mp logged).1, ih rest⟩

/-- A property of the machine's own steps does not see the log. -/
theorem along_logged {m : Machine State Event} {out : State → Event → List Output}
    {P : State → Event → State → Prop} {s : State} {log : List Output} {es : List Event} :
    (m.logged out).Along (fun p e q => P p.1 e q.1) (s, log) es ↔ m.Along P s es := by
  induction es generalizing s log with
  | nil => exact Iff.rfl
  | cons e es ih =>
    constructor
    · intro along t taken
      obtain ⟨holds, rest⟩ := along _ (m.logged_of_step taken log)
      exact ⟨holds, ih.mp rest⟩
    · rintro along ⟨t, log'⟩ logged
      obtain ⟨taken, _⟩ := m.logged_step.mp logged
      obtain ⟨holds, rest⟩ := along t taken
      exact ⟨holds, ih.mpr rest⟩

end Machine

end HashMiner.Foundation
