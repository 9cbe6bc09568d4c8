import HashMiner.Foundation.Machine
import Mathlib.Logic.Function.Basic

/-!
# Clients of a shared state

Any number of clients work on one shared state. A step is one critical section of one
client: it reads and writes the shared state and what that client keeps for itself, and
nothing of the others. What a client keeps may be out of date when it goes on.
-/

namespace HashMiner.Foundation

universe u v w x

structure Clients (Shared : Type u) (Local : Type v) (Event : Type w) where
  act : Shared → Local → Event → Option (Shared × Local)

namespace Clients

structure State (Id : Type x) (Shared : Type u) (Local : Type v) where
  shared : Shared
  locals : Id → Local

variable {Shared : Type u} {Local : Type v} {Event : Type w} {Id : Type x} [DecidableEq Id]
variable (c : Clients Shared Local Event)

def machine : Machine (State Id Shared Local) (Id × Event) where
  step s e := (c.act s.shared (s.locals e.1) e.2).map fun p =>
    ⟨p.1, Function.update s.locals e.1 p.2⟩

variable {c} {s t : State Id Shared Local} {id : Id} {e : Event}

theorem machine_step :
    c.machine.step s (id, e) = some t ↔
      ∃ shared own, c.act s.shared (s.locals id) e = some (shared, own) ∧
        t = ⟨shared, Function.update s.locals id own⟩ := by
  simp only [machine, Option.map_eq_some_iff, Prod.exists]
  constructor
  · rintro ⟨shared, own, taken, rfl⟩
    exact ⟨shared, own, taken, rfl⟩
  · rintro ⟨shared, own, taken, rfl⟩
    exact ⟨shared, own, taken, rfl⟩

/-- The rule of non-interference: a section establishes what its client may rely on
next, and what the others rely on is still so. -/
theorem rely_update {Rely Rely' : Local → Prop} {locals : Id → Local} {own : Local}
    (all : ∀ other, Rely (locals other)) (mine : Rely' own)
    (stable : ∀ kept, Rely kept → Rely' kept) :
    ∀ other, Rely' (Function.update locals id own other) :=
  (Function.forall_update_iff locals fun _ => Rely').mpr
    ⟨mine, fun other _ => stable _ (all other)⟩

end Clients

end HashMiner.Foundation
