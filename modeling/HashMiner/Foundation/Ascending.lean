import Mathlib.Data.List.Basic
import Mathlib.Data.List.Nodup
import Mathlib.Data.List.Range

/-!
# Numbers with a property, in ascending order

A search from a number on finds the first number with the property. Searches that follow
one another list the numbers with the property when each begins where the last one has
ended, or later with none in between.
-/

namespace HashMiner.Foundation.Ascending

variable (p : Nat → Prop) [DecidablePred p]

/-- The numbers below `b` with the property. -/
def below (b : Nat) : List Nat := (List.range b).filter p

/-- The number after the last one of a list. -/
def past (found : List Nat) : Nat :=
  match found.getLast? with
  | none => 0
  | some n => n + 1

/-- `n` is the first number from `b` on. -/
structure First (b n : Nat) : Prop where
  holds : p n
  le : b ≤ n
  gap : ∀ m, b ≤ m → m < n → ¬ p m

variable {p} {b c n start : Nat}

@[simp] theorem mem_below : n ∈ below p b ↔ n < b ∧ p n := by simp [below]

theorem nodup_below : (below p b).Nodup := List.nodup_range.filter _

theorem below_succ : below p (b + 1) = below p b ++ if p b then [b] else [] := by
  rw [below, List.range_succ, List.filter_append]
  by_cases holds : p b <;> simp [below, holds]

theorem below_of_gap (le : b ≤ c) (gap : ∀ m, b ≤ m → m < c → ¬ p m) : below p c = below p b := by
  induction c, le using Nat.le_induction with
  | base => rfl
  | succ c le ih =>
    have none : ¬ p c := gap c le (Nat.lt_succ_self c)
    rw [below_succ, if_neg none, List.append_nil]
    exact ih fun m low high => gap m low (Nat.lt_succ_of_lt high)

theorem First.below (first : First p b n) : below p (n + 1) = below p b ++ [n] := by
  rw [below_succ, if_pos first.holds, below_of_gap first.le first.gap]

/-- A list that one more number continues. -/
theorem First.of_below (more : Ascending.below p c = Ascending.below p b ++ [n]) :
    First p b n := by
  have distinct : (Ascending.below p b ++ [n]).Nodup := more ▸ nodup_below
  have mem : ∀ m, m < c ∧ p m ↔ (m < b ∧ p m) ∨ m = n := by
    intro m
    rw [← mem_below, more, List.mem_append, mem_below, List.mem_singleton]
  obtain ⟨small, holds⟩ := (mem n).mpr (.inr rfl)
  have le : b ≤ n := by
    by_contra before
    have listed : n ∈ Ascending.below p b := mem_below.mpr ⟨Nat.not_le.mp before, holds⟩
    exact (List.nodup_append.mp distinct).2.2 n listed n (List.mem_singleton.mpr rfl) rfl
  refine ⟨holds, le, fun m low high also => ?_⟩
  rcases (mem m).mp ⟨Nat.lt_trans high small, also⟩ with ⟨before, _⟩ | rfl
  · exact Nat.not_lt.mpr low before
  · exact Nat.lt_irrefl _ high

theorem past_concat (found : List Nat) : past (found ++ [n]) = n + 1 := by
  simp [past]

/-- What is listed below `b` ends at the last number with the property. -/
theorem past_below : past (below p b) ≤ b ∧ (∀ m, past (below p b) ≤ m → m < b → ¬ p m) ∧
    (∀ m, m + 1 = past (below p b) → p m) := by
  induction b with
  | zero => exact ⟨Nat.le_refl _, fun m _ low => absurd low (Nat.not_lt_zero m), nofun⟩
  | succ b ih =>
    obtain ⟨le, gap, last⟩ := ih
    by_cases holds : p b
    · rw [below_succ, if_pos holds, past_concat]
      refine ⟨Nat.le_refl _, fun m low high => absurd high (Nat.not_lt.mpr low), fun m same => ?_⟩
      cases same
      exact holds
    · rw [below_succ, if_neg holds, List.append_nil]
      refine ⟨Nat.le_succ_of_le le, fun m low high => ?_, last⟩
      rcases Nat.lt_succ_iff_lt_or_eq.mp high with less | rfl
      · exact gap m low less
      · exact holds

/-- A search from `start` continues the list below `b` exactly when it begins behind the
list with no number in between. -/
theorem First.continues_iff (first : First p start n) :
    First p b n ↔ past (Ascending.below p b) ≤ start ∧
      ∀ m, past (Ascending.below p b) ≤ m → m < start → ¬ p m := by
  obtain ⟨le, gap, last⟩ := past_below (p := p) (b := b)
  constructor
  · intro continues
    have begins : past (Ascending.below p b) ≤ start := by
      by_contra early
      obtain ⟨m, same⟩ := Nat.exists_eq_add_one_of_ne_zero (Nat.ne_zero_of_lt (Nat.not_le.mp early))
      rw [same] at early le
      have low : start ≤ m := Nat.lt_succ_iff.mp (Nat.not_le.mp early)
      have small : m < n := Nat.lt_of_succ_le (Nat.le_trans le continues.le)
      exact first.gap m low small (last m same.symm)
    refine ⟨begins, fun m low high also => ?_⟩
    have small : m < n := Nat.lt_of_lt_of_le high first.le
    by_cases before : m < b
    · exact gap m low before also
    · exact continues.gap m (Nat.not_lt.mp before) small also
  · rintro ⟨begins, none⟩
    have behind : b ≤ n := by
      by_contra before
      exact gap n (Nat.le_trans begins first.le) (Nat.not_le.mp before) first.holds
    refine ⟨first.holds, behind, fun m low high also => ?_⟩
    by_cases early : m < start
    · exact none m (Nat.le_trans le low) early also
    · exact first.gap m (Nat.not_lt.mp early) high also

end HashMiner.Foundation.Ascending
