import Mathlib.Data.BitVec

/-!
# Calls that may revert

A call is an `Except`: it gives a value or reverts for a reason. A sequence of calls
reverts where the first of them does.
-/

namespace HashMiner.Foundation

universe u v

variable {ε : Type u} {α β : Type v} {w : Nat}

theorem ok_bind (a : α) (f : α → Except ε β) : (.ok a : Except ε α) >>= f = f a := rfl

theorem bind_reverts {x : Except ε α} {f : α → Except ε β} {e : ε} :
    x >>= f = .error e ↔ x = .error e ∨ ∃ a, x = .ok a ∧ f a = .error e := by
  cases x with
  | error d => simp [bind, Except.bind]
  | ok a => simp [bind, Except.bind]

theorem bind_returns {x : Except ε α} {f : α → Except ε β} {b : β} :
    x >>= f = .ok b ↔ ∃ a, x = .ok a ∧ f a = .ok b := by
  cases x with
  | error d => simp [bind, Except.bind]
  | ok a => simp [bind, Except.bind]

theorem toOption_some {x : Except ε α} {a : α} : x.toOption = some a ↔ x = .ok a := by
  cases x with
  | error d => simp [Except.toOption]
  | ok a => simp [Except.toOption]

theorem mapError_reverts {δ : Type u} {x : Except δ α} {f : δ → ε} {e : ε} :
    x.mapError f = .error e ↔ ∃ d, x = .error d ∧ f d = e := by
  cases x with
  | error d => simp [Except.mapError]
  | ok a => simp [Except.mapError]

theorem mapError_returns {δ : Type u} {x : Except δ α} {f : δ → ε} {a : α} :
    x.mapError f = .ok a ↔ x = .ok a := by
  cases x with
  | error d => simp [Except.mapError]
  | ok a => simp [Except.mapError]

def revertIf (c : Prop) [Decidable c] (e : ε) : Except ε Unit :=
  if c then .error e else .ok ()

@[simp] theorem revertIf_error {c : Prop} [Decidable c] {d e : ε} :
    revertIf c d = .error e ↔ c ∧ d = e := by
  by_cases h : c <;> simp [revertIf, h]

@[simp] theorem revertIf_ok {c : Prop} [Decidable c] {d : ε} {u : Unit} :
    revertIf c d = .ok u ↔ ¬ c := by
  by_cases h : c <;> simp [revertIf, h]

theorem revertIf_of_not {c : Prop} [Decidable c] {e : ε} (passes : ¬ c) : revertIf c e = .ok () :=
  if_neg passes

section Arithmetic

variable (overflow : ε) (a b : BitVec w)

def addChecked : Except ε (BitVec w) :=
  if 2 ^ w ≤ a.toNat + b.toNat then .error overflow else .ok (a + b)

def subChecked : Except ε (BitVec w) :=
  if a.toNat < b.toNat then .error overflow else .ok (a - b)

def mulChecked : Except ε (BitVec w) :=
  if 2 ^ w ≤ a.toNat * b.toNat then .error overflow else .ok (a * b)

variable {overflow a b} {c : BitVec w} {e : ε}

theorem addChecked_error :
    addChecked overflow a b = .error e ↔ 2 ^ w ≤ a.toNat + b.toNat ∧ overflow = e := by
  by_cases h : 2 ^ w ≤ a.toNat + b.toNat <;> simp [addChecked, h]

theorem subChecked_error :
    subChecked overflow a b = .error e ↔ a.toNat < b.toNat ∧ overflow = e := by
  by_cases h : a.toNat < b.toNat <;> simp [subChecked, h]

theorem mulChecked_error :
    mulChecked overflow a b = .error e ↔ 2 ^ w ≤ a.toNat * b.toNat ∧ overflow = e := by
  by_cases h : 2 ^ w ≤ a.toNat * b.toNat <;> simp [mulChecked, h]

theorem toNat_of_addChecked (added : addChecked overflow a b = .ok c) :
    c.toNat = a.toNat + b.toNat := by
  unfold addChecked at added
  split at added <;> cases added
  next fits => rw [BitVec.toNat_add, Nat.mod_eq_of_lt (Nat.not_le.mp fits)]

theorem toNat_of_subChecked (subtracted : subChecked overflow a b = .ok c) :
    b.toNat ≤ a.toNat ∧ c.toNat = a.toNat - b.toNat := by
  unfold subChecked at subtracted
  split at subtracted <;> cases subtracted
  next fits =>
  have le := Nat.not_lt.mp fits
  exact ⟨le, BitVec.toNat_sub_of_le (BitVec.le_def.mpr le)⟩

theorem subChecked_of_le (le : b.toNat ≤ a.toNat) : subChecked overflow a b = .ok (a - b) :=
  if_neg (Nat.not_lt.mpr le)

end Arithmetic

end HashMiner.Foundation
