import HashMiner.Foundation.Machine

/-!
# Programs that are called and call out

A program runs a call until it calls out; what it still has to do then waits on a stack of
frames. The code that it has called may call it again, and may open calls of its own. A
frame knows the state that is left behind when it reverts.
-/

namespace HashMiner.Foundation

universe u

/-- What a call comes to: an end, or a call of other code. -/
inductive Outcome (State Pending Result : Type u) where
  | done (s : State) (r : Result)
  | waits (s : State) (p : Pending)

namespace Outcome

variable {State Pending Result : Type u}

def state : Outcome State Pending Result → State
  | .done s _ => s
  | .waits s _ => s

def pendings : Outcome State Pending Result → List Pending
  | .done _ _ => []
  | .waits _ p => [p]

end Outcome

/-- A program that nothing calls in some environments and that reverts by `none`. -/
structure Callee (Env State Call Pending Result : Type u) where
  advance : Env → Env → Bool
  admits : Call → Bool
  start : Env → State → Call → Option (Outcome State Pending Result)
  resume : Env → State → Pending → Option (Outcome State Pending Result)

namespace Callee

variable {Env State Call Pending Result : Type u}

/-- A call that has not returned: one of the program, or one between two other programs. -/
structure Frame (State Pending : Type u) where
  saved : State
  pending : Option Pending

structure Execution (Env State Pending : Type u) where
  env : Env
  state : State
  frames : List (Frame State Pending)

inductive Action (Env Call : Type u) where
  | advance (env : Env)
  | attempt
  | call (c : Call)
  | ret (success : Bool)

variable (p : Callee Env State Call Pending Result)

/-- The environment changes between two calls from outside. -/
def step (x : Execution Env State Pending) :
    Action Env Call → Option (Execution Env State Pending)
  | .advance env =>
    if x.frames.isEmpty ∧ p.advance x.env env then some { x with env } else none
  | .attempt => some { x with frames := ⟨x.state, none⟩ :: x.frames }
  | .call c =>
    if p.admits c then
      match p.start x.env x.state c with
      | some (.done s _) => some { x with state := s }
      | some (.waits s next) =>
        some { x with state := s, frames := ⟨x.state, some next⟩ :: x.frames }
      | none => some x
    else none
  | .ret success =>
    match x.frames with
    | [] => none
    | ⟨saved, none⟩ :: rest =>
      some { x with state := if success then x.state else saved, frames := rest }
    | ⟨saved, some pending⟩ :: rest =>
      if success then
        match p.resume x.env x.state pending with
        | some (.done s _) => some { x with state := s, frames := rest }
        | some (.waits s next) => some { x with state := s, frames := ⟨saved, some next⟩ :: rest }
        | none => some { x with state := saved, frames := rest }
      else some { x with state := saved, frames := rest }

def machine : Machine (Execution Env State Pending) (Action Env Call) := ⟨p.step⟩

/-- What the program still has to do, the latest first. -/
def pendings (frames : List (Frame State Pending)) : List Pending :=
  frames.filterMap (·.pending)

/-- A property of a state and of what is pending on it. -/
abbrev Property (Env State Pending : Type u) := Env → State → List Pending → Prop

/-- The property holds of every state that can still come back. -/
def Holds (I : Property Env State Pending) (e : Env) : State → List (Frame State Pending) → Prop
  | s, [] => I e s []
  | s, f :: rest => I e s (pendings (f :: rest)) ∧ Holds I e f.saved rest

variable {I : Property Env State Pending} {e : Env} {s : State}
variable {frames : List (Frame State Pending)}

theorem Holds.here (holds : Holds I e s frames) : I e s (pendings frames) := by
  cases frames with
  | nil => exact holds
  | cons f rest => exact holds.1

/-- Only the latest state changes. -/
theorem Holds.replace {t : State} (holds : Holds I e s frames) (now : I e t (pendings frames)) :
    Holds I e t frames := by
  cases frames with
  | nil => exact now
  | cons f rest => exact ⟨now, holds.2⟩

/-- What the parts of a program keep, where the calls that it gets are allowed. -/
structure Keeps (I : Property Env State Pending) (allowed : Env → State → Call → Prop) :
    Prop where
  advance : ∀ {e e' s}, I e s [] → p.advance e e' = true → I e' s []
  start : ∀ {e s ps c o}, I e s ps → p.admits c = true → allowed e s c →
    p.start e s c = some o → I e o.state (o.pendings ++ ps)
  resume : ∀ {e s ps q o}, I e s (q :: ps) → p.resume e s q = some o →
    I e o.state (o.pendings ++ ps)

/-- The condition on the calls of a run. -/
def Allows (allowed : Env → State → Call → Prop) (x : Execution Env State Pending) :
    Action Env Call → Prop
  | .call c => allowed x.env x.state c
  | _ => True

variable {p} {allowed : Env → State → Call → Prop}

/-- A call that starts nothing changes nothing. -/
theorem start_of_step {x y : Execution Env State Pending} {c : Call}
    (taken : p.step x (.call c) = some y) : y = x ∨ ∃ o, p.start x.env x.state c = some o := by
  simp only [Callee.step] at taken
  split at taken
  · split at taken <;> cases taken
    · next started => exact .inr ⟨_, started⟩
    · next started => exact .inr ⟨_, started⟩
    · exact .inl rfl
  · cases taken

theorem Keeps.step (keeps : p.Keeps I allowed) {x y : Execution Env State Pending}
    {a : Action Env Call} (holds : Holds I x.env x.state x.frames) (allows : Allows allowed x a)
    (taken : p.step x a = some y) : Holds I y.env y.state y.frames := by
  obtain ⟨env, state, frames⟩ := x
  cases a with
  | advance next =>
    simp only [Callee.step] at taken
    split at taken <;> cases taken
    next follows =>
    obtain ⟨none, follows⟩ := follows
    obtain rfl := List.isEmpty_iff.mp none
    exact keeps.advance holds follows
  | attempt =>
    cases taken
    exact ⟨holds.here, holds⟩
  | call c =>
    simp only [Callee.step] at taken
    split at taken
    · next admitted =>
      split at taken <;> cases taken
      · next started => exact holds.replace (keeps.start holds.here admitted allows started)
      · next started => exact ⟨keeps.start holds.here admitted allows started, holds⟩
      · exact holds
    · cases taken
  | ret success =>
    simp only [Callee.step] at taken
    cases frames with
    | nil => cases taken
    | cons f rest =>
      obtain ⟨now, before⟩ := holds
      obtain ⟨saved, pending⟩ := f
      cases pending with
      | none =>
        cases taken
        cases success
        · exact before
        · exact before.replace now
      | some next =>
        dsimp only at taken
        split at taken
        · split at taken <;> cases taken
          · next resumed => exact before.replace (keeps.resume now resumed)
          · next resumed => exact ⟨keeps.resume now resumed, before⟩
          · exact before
        · cases taken
          exact before

/-- The rule for runs: every state that can still come back has the property. -/
theorem Keeps.run (keeps : p.Keeps I allowed) {x y : Execution Env State Pending}
    {actions : List (Action Env Call)} (holds : Holds I x.env x.state x.frames)
    (condition : p.machine.Along (fun x a _ => Allows allowed x a) x actions)
    (reached : p.machine.run x actions = some y) : Holds I y.env y.state y.frames := by
  have kept : ∀ (x : Execution Env State Pending) (a : Action Env Call)
      (y : Execution Env State Pending), Holds I x.env x.state x.frames →
      p.machine.step x a = some y → Allows allowed x a → Holds I y.env y.state y.frames :=
    fun _ _ _ holds taken allows => keeps.step holds allows taken
  exact Machine.Along.invariant_run kept holds condition reached

/-- The rule without a condition on the calls. -/
theorem Keeps.run_all (keeps : p.Keeps I (fun _ _ _ => True)) {x y : Execution Env State Pending}
    {actions : List (Action Env Call)} (holds : Holds I x.env x.state x.frames)
    (reached : p.machine.run x actions = some y) : Holds I y.env y.state y.frames := by
  refine keeps.run holds (Machine.along_of_forall (fun a _ s _ => ?_) x) reached
  cases a <;> trivial

end Callee

end HashMiner.Foundation
