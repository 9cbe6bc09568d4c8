import HashMiner.Foundation.Clients
import HashMiner.Tx.Submitter
import Mathlib.Data.List.Range

/-!
# Calls of `reserve` side by side

A call takes the lock twice: it reads the counter, and later writes back the successor of
what it read. When there was no counter it asks the chain in between.
-/

namespace HashMiner.Tx

open Foundation

namespace NonceGate

/-- A call between its two locks, or none. -/
inductive Reserve where
  | idle
  | counting
  | holding (n : U64)

inductive ReserveEvent where
  | lock
  | transactionCount (reply : Except String U64)
  | store

variable (overflowChecks : Bool) (count : U64)

/-- The chain answers the count of one state throughout. A call that fails or panics is
over. -/
def reserve (next : Option U64) : Reserve → ReserveEvent → Option (Option U64 × Reserve)
  | .idle, .lock =>
    match next with
    | some n => some (next, .holding n)
    | none => some (next, .counting)
  | .counting, .transactionCount (.error _) => some (next, .idle)
  | .counting, .transactionCount (.ok n) => if n = count then some (next, .holding n) else none
  | .holding n, .store =>
    match addUnsigned overflowChecks n 1 with
    | none => some (next, .idle)
    | some after => some (some after, .idle)
  | _, _ => none

def clients : Clients (Option U64) Reserve ReserveEvent := ⟨reserve overflowChecks count⟩

abbrev Gate (Id : Type*) := Clients.State Id (Option U64) Reserve

variable {Id : Type*}

def start (initial : Option U64) : Gate Id := ⟨initial, fun _ => .idle⟩

/-- The nonce that a step returns to its caller. -/
def returned (g : Gate Id) : Id × ReserveEvent → List U64
  | (id, .store) =>
    match g.locals id with
    | .holding n => if (addUnsigned overflowChecks n 1).isSome then [n] else []
    | _ => []
  | _ => []

/-- The nonces are those from the first one on, once each, and the counter is past them. -/
structure Contiguous (first : U64) (next : Option U64) (nonces : List U64) : Prop where
  range : (nonces.map BitVec.toNat).Perm (List.range' first.toNat nonces.length)
  past : nonces ≠ [] → ∃ m, next = some m ∧ m.toNat = first.toNat + nonces.length

/-- The counter that a call writes to is the one that it has read, and its successor fits. -/
def Unmoved (g : Gate Id) : Id × ReserveEvent → Prop
  | (id, .store) => ∀ n, g.locals id = .holding n →
      (g.shared = none ∨ g.shared = some n) ∧ (overflowChecks = false → n.toNat + 1 < 2 ^ 64)
  | _ => True

variable {overflowChecks count} {g t : Gate Id} {id : Id} {e : ReserveEvent}
variable {initial : Option U64} {nonces : List U64}

/-- What a call may rely on while `returned` nonces have been returned. -/
def Relies (initial : Option U64) (count : U64) (returned : Nat) : Reserve → Prop
  | .idle => True
  | .counting => initial = none
  | .holding n => (initial.getD count).toNat ≤ n.toNat ∧
      n.toNat ≤ (initial.getD count).toNat + returned

theorem Relies.mono {few many : Nat} (le : few ≤ many) (call : Reserve)
    (relies : Relies initial count few call) : Relies initial count many call := by
  cases call with
  | idle => trivial
  | counting => exact relies
  | holding n => exact ⟨relies.1, Nat.le_trans relies.2 (Nat.add_le_add_left le _)⟩

/-- The counter is past the nonces of the range, which no call is ahead of. -/
structure Counted (initial : Option U64) (count : U64) (g : Gate Id) (nonces : List U64) :
    Prop where
  range : (nonces.map BitVec.toNat).Perm
    (List.range' (initial.getD count).toNat nonces.length)
  past : (g.shared.getD count).toNat = (initial.getD count).toNat + nonces.length
  unheld : g.shared = none → initial = none ∧ nonces = []
  calls : ∀ id, Relies initial count nonces.length (g.locals id)

theorem Counted.contiguous (inv : Counted initial count g nonces) :
    Contiguous (initial.getD count) g.shared nonces where
  range := inv.range
  past := by
    intro some
    cases held : g.shared with
    | none => exact absurd (inv.unheld held).2 some
    | some m =>
      refine ⟨m, rfl, ?_⟩
      have past := inv.past
      rw [held] at past
      exact past

/-- The nonce is the one that the counter has come to. -/
theorem Counted.unmoved {n : U64} (inv : Counted initial count g nonces)
    (relies : Relies initial count nonces.length (.holding n))
    (same : g.shared = none ∨ g.shared = some n) :
    n.toNat = (initial.getD count).toNat + nonces.length := by
  rcases same with unheld | held
  · obtain ⟨_, rfl⟩ := inv.unheld unheld
    exact Nat.le_antisymm relies.2 relies.1
  · have past := inv.past
    rw [held] at past
    exact past

/-- A nonce below the counter has been returned. -/
theorem Counted.repeated {n : U64} {next : Option U64} (inv : Counted initial count g nonces)
    (low : (initial.getD count).toNat ≤ n.toNat)
    (below : n.toNat < (initial.getD count).toNat + nonces.length) :
    ¬ Contiguous (initial.getD count) next (nonces ++ [n]) := by
  intro contiguous
  have member : n.toNat ∈ nonces.map BitVec.toNat :=
    inv.range.mem_iff.mpr (List.mem_range'_1.mpr ⟨low, below⟩)
  have distinct := contiguous.range.nodup_iff.mpr List.nodup_range'
  rw [List.map_append, List.map_singleton] at distinct
  exact (List.nodup_append.mp distinct).2.2 _ member _ (List.mem_singleton.mpr rfl) rfl

theorem start_counted (initial : Option U64) (count : U64) :
    Counted initial count (start initial : Gate Id) [] where
  range := .refl _
  past := by
    cases initial <;> rfl
  unheld := fun unheld => ⟨unheld, rfl⟩
  calls := fun _ => trivial

/-- The steps by name. -/
inductive Moves (overflowChecks : Bool) (count : U64) (g : Gate Id) (id : Id) :
    ReserveEvent → Option U64 → Reserve → List U64 → Prop
  | held (n : U64) : g.locals id = .idle → g.shared = some n →
      Moves overflowChecks count g id .lock g.shared (.holding n) []
  | unheld : g.locals id = .idle → g.shared = none →
      Moves overflowChecks count g id .lock g.shared .counting []
  | failed (error : String) : g.locals id = .counting →
      Moves overflowChecks count g id (.transactionCount (.error error)) g.shared .idle []
  | counted : g.locals id = .counting →
      Moves overflowChecks count g id (.transactionCount (.ok count)) g.shared (.holding count) []
  | panicked (n : U64) : g.locals id = .holding n → addUnsigned overflowChecks n 1 = none →
      Moves overflowChecks count g id .store g.shared .idle []
  | stored (n after : U64) : g.locals id = .holding n →
      addUnsigned overflowChecks n 1 = some after →
      Moves overflowChecks count g id .store (some after) .idle [n]

variable [DecidableEq Id]

def machine (overflowChecks : Bool) (count : U64) (Id : Type*) [DecidableEq Id] :
    Machine (Gate Id) (Id × ReserveEvent) := (clients overflowChecks count).machine

theorem step_cases (taken : (machine overflowChecks count Id).step g (id, e) = some t) :
    ∃ next own, Moves overflowChecks count g id e next own (returned overflowChecks g (id, e)) ∧
      t = ⟨next, Function.update g.locals id own⟩ := by
  obtain ⟨next, own, moved, rfl⟩ := Clients.machine_step.mp taken
  refine ⟨next, own, ?_, rfl⟩
  generalize here : g.locals id = call at moved
  simp only [clients] at moved
  unfold reserve at moved
  split at moved
  · split at moved <;> cases moved
    · next n held => exact .held n here held
    · next unheld => exact .unheld here unheld
  · cases moved
    exact .failed _ here
  · split at moved <;> cases moved
    next same => exact same ▸ .counted here
  · next n =>
    split at moved <;> cases moved
    · next overflow =>
      have quiet : returned overflowChecks g (id, .store) = [] := by
        simp only [returned, here, overflow]
        rfl
      rw [quiet]
      exact .panicked n here overflow
    · next after sum =>
      have nonce : returned overflowChecks g (id, .store) = [n] := by
        simp only [returned, here, sum]
        rfl
      rw [nonce]
      exact .stored n after here sum
  · cases moved

/-- A step that returns nothing and leaves the counter. -/
theorem Counted.quiet (inv : Counted initial count g nonces) (id : Id) (own : Reserve)
    (mine : Relies initial count nonces.length own) :
    Counted initial count ⟨g.shared, Function.update g.locals id own⟩ (nonces ++ []) := by
  rw [List.append_nil]
  exact ⟨inv.range, inv.past, inv.unheld, Clients.rely_update inv.calls mine fun _ kept => kept⟩

theorem Counted.store {n after : U64} (inv : Counted initial count g nonces)
    (first : n.toNat = (initial.getD count).toNat + nonces.length)
    (sum : after.toNat = n.toNat + 1) :
    Counted initial count ⟨some after, Function.update g.locals id .idle⟩ (nonces ++ [n]) where
  range := by
    rw [List.map_append, List.length_append, List.map_singleton, List.length_singleton,
      List.range'_1_concat, first]
    exact inv.range.append_right _
  past := by
    rw [List.length_append, List.length_singleton, ← Nat.add_assoc, ← first]
    exact sum
  unheld := nofun
  calls := by
    refine Clients.rely_update inv.calls trivial (Relies.mono ?_)
    rw [List.length_append]
    exact Nat.le_add_right _ _

/-- A store keeps the range exactly when the counter has not moved since it was read. -/
theorem Counted.stored {n after : U64} (inv : Counted initial count g nonces)
    (here : g.locals id = .holding n) (sum : addUnsigned overflowChecks n 1 = some after) :
    (Contiguous (initial.getD count) (some after) (nonces ++ [n]) ↔
        Unmoved overflowChecks g (id, .store)) ∧
      (Unmoved overflowChecks g (id, .store) →
        Counted initial count ⟨some after, Function.update g.locals id .idle⟩
          (nonces ++ [n])) := by
  have relies : Relies initial count nonces.length (.holding n) := here ▸ inv.calls id
  have keeps : Unmoved overflowChecks g (id, .store) →
      Counted initial count ⟨some after, Function.update g.locals id .idle⟩ (nonces ++ [n]) := by
    intro unmoved
    obtain ⟨same, fits⟩ := unmoved n here
    exact inv.store (inv.unmoved relies same) (toNat_of_addUnsigned sum fits)
  refine ⟨⟨fun contiguous => ?_, fun unmoved => (keeps unmoved).contiguous⟩, keeps⟩
  intro n' here'
  cases here.symm.trans here'
  have first : n.toNat = (initial.getD count).toNat + nonces.length := by
    by_contra other
    exact inv.repeated relies.1 (Nat.lt_of_le_of_ne relies.2 other) contiguous
  constructor
  · cases held : g.shared with
    | none => exact .inl rfl
    | some m =>
      have past := inv.past
      rw [held] at past
      exact .inr (congrArg some (BitVec.eq_of_toNat_eq (past.trans first.symm)))
  · intro _
    obtain ⟨m, _, past⟩ := contiguous.past (by simp)
    rw [List.length_append, List.length_singleton, ← Nat.add_assoc, ← first] at past
    exact past ▸ m.isLt

theorem Counted.step (inv : Counted initial count g nonces)
    (taken : (machine overflowChecks count Id).step g (id, e) = some t) :
    (Contiguous (initial.getD count) t.shared (nonces ++ returned overflowChecks g (id, e)) ↔
        Unmoved overflowChecks g (id, e)) ∧
      (Contiguous (initial.getD count) t.shared (nonces ++ returned overflowChecks g (id, e)) →
        Counted initial count t (nonces ++ returned overflowChecks g (id, e))) := by
  obtain ⟨next, own, moves, rfl⟩ := step_cases taken
  generalize returned overflowChecks g (id, e) = new at moves ⊢
  cases moves with
  | held n here held =>
    have past := inv.past
    rw [held] at past
    have mine : Relies initial count nonces.length (.holding n) :=
      ⟨Nat.le.intro past.symm, Nat.le_of_eq past⟩
    have counted := inv.quiet id _ mine
    exact ⟨iff_of_true counted.contiguous trivial, fun _ => counted⟩
  | unheld here unheld =>
    have counted := inv.quiet id .counting (inv.unheld unheld).1
    exact ⟨iff_of_true counted.contiguous trivial, fun _ => counted⟩
  | failed error here =>
    have counted := inv.quiet id .idle trivial
    exact ⟨iff_of_true counted.contiguous trivial, fun _ => counted⟩
  | counted here =>
    have fresh : Relies initial count nonces.length .counting := here ▸ inv.calls id
    have mine : Relies initial count nonces.length (.holding count) := by
      cases fresh
      exact ⟨Nat.le_refl _, Nat.le_add_right _ _⟩
    have counted := inv.quiet id _ mine
    exact ⟨iff_of_true counted.contiguous trivial, fun _ => counted⟩
  | panicked n here overflow =>
    have counted := inv.quiet id .idle trivial
    refine ⟨iff_of_true counted.contiguous fun n' here' => ?_, fun _ => counted⟩
    cases here.symm.trans here'
    obtain ⟨checked, large⟩ := addUnsigned_eq_none.mp overflow
    refine ⟨?_, fun unchecked => absurd (checked.symm.trans unchecked) nofun⟩
    have relies : Relies initial count nonces.length (.holding n) := here ▸ inv.calls id
    have last : n.toNat ≤ (g.shared.getD count).toNat := inv.past ▸ relies.2
    cases held : g.shared with
    | none => exact .inl rfl
    | some m =>
      rw [held] at last
      have bound := m.isLt
      have one : (1 : U64).toNat = 1 := rfl
      have same : m.toNat = n.toNat := by
        rw [one] at large
        change n.toNat ≤ m.toNat at last
        omega
      exact .inr (congrArg some (BitVec.eq_of_toNat_eq same))
  | stored n after here sum =>
    obtain ⟨exact, keeps⟩ := inv.stored here sum
    exact ⟨exact, fun contiguous => keeps (exact.mp contiguous)⟩

/-- Calls side by side return the nonces from the counter on, once each, exactly when none
of them stores over the successor that another has stored since it read. -/
theorem along_contiguous_iff (overflowChecks : Bool) (count : U64) (Id : Type*)
    [DecidableEq Id] (initial : Option U64) (es : List (Id × ReserveEvent)) :
    ((machine overflowChecks count Id).logged (returned overflowChecks)).Along
        (fun _ _ q => Contiguous (initial.getD count) q.1.shared q.2) (start initial, []) es ↔
      (machine overflowChecks count Id).Along (fun g e _ => Unmoved overflowChecks g e)
        (start initial) es := by
  let inv (p : Gate Id × List U64) : Prop := Counted initial count p.1 p.2
  have first : inv (start initial, []) := start_counted initial count
  have exact : ∀ p e q, inv p →
      ((machine overflowChecks count Id).logged (returned overflowChecks)).step p e = some q →
      (Contiguous (initial.getD count) q.1.shared q.2 ↔ Unmoved overflowChecks p.1 e) ∧
        (Contiguous (initial.getD count) q.1.shared q.2 → inv q) := by
    rintro ⟨g, nonces⟩ ⟨id, e⟩ ⟨t, nonces'⟩ inv taken
    obtain ⟨moved, rfl⟩ := (Machine.logged_step _).mp taken
    exact inv.step moved
  exact (Machine.along_iff exact first es).trans
    (Machine.along_logged (P := fun g e _ => Unmoved overflowChecks g e))

/-- Both calls read that there is no counter yet, and both return nonce 0. -/
theorem overlapping_calls_return_one_nonce :
    ¬ ((machine false 0 Nat).logged (returned false)).Along
      (fun _ _ q => Contiguous 0 q.1.shared q.2) (start none, [])
      ([(0, .lock), (1, .lock), (0, .transactionCount (.ok 0)), (1, .transactionCount (.ok 0)),
        (0, .store)] ++ [(1, .store)]) := by
  intro along
  have contiguous : Contiguous 0 (some 1) [0, 0] := along.at_step rfl rfl
  exact absurd contiguous.range (by decide)

end NonceGate

end HashMiner.Tx
