import Mathlib.Algebra.BigOperators.Intervals
import Mathlib.Algebra.BigOperators.Ring.Finset
import Mathlib.Algebra.Order.Ring.Unbundled.Basic
import Mathlib.Data.Nat.Sqrt
import Mathlib.Tactic.Ring

/-!
# Rounded arithmetic

Quotients, square roots and sums of values that change only every so often, all on natural
numbers.
-/

namespace HashMiner.Foundation

/-- The least number that is not below a quotient. -/
theorem ceil_div (p : Nat) {d : Nat} (positive : 0 < d) :
    (p + d - 1) / d = p / d + if p % d = 0 then 0 else 1 := by
  have whole := Nat.div_add_mod p d
  have rest := Nat.mod_lt p positive
  rw [show p + d - 1 = d * (p / d) + (p % d + d - 1) by omega, Nat.mul_add_div positive]
  congr 1
  split
  · next zero =>
    rw [zero]
    exact Nat.div_eq_of_lt (by omega)
  · next some =>
    rw [show p % d + d - 1 = d * 1 + (p % d - 1) by omega, Nat.mul_add_div positive,
      Nat.div_eq_of_lt (by omega)]

/-! ## The square root by averages -/

/-- The average of a guess and its cofactor is not below the root. -/
theorem sqrt_le_average (x : Nat) {guess : Nat} (positive : 0 < guess) :
    Nat.sqrt x ≤ (x / guess + guess) / 2 := by
  have square := Nat.sqrt_le' x
  have cofactor : 2 * Nat.sqrt x - guess ≤ x / guess := by
    rw [Nat.le_div_iff_mul_le positive]
    rcases Nat.le_total (2 * Nat.sqrt x) guess with large | small
    · rw [Nat.sub_eq_zero_of_le large, Nat.zero_mul]
      exact Nat.zero_le x
    · obtain ⟨rest, double⟩ := Nat.exists_eq_add_of_le small
      refine Nat.le_trans ?_ square
      rw [double, Nat.add_sub_cancel_left]
      have means := four_mul_le_sq_add guess rest
      rw [← double, Nat.mul_pow, Nat.mul_assoc] at means
      rw [Nat.mul_comm]
      omega
  omega

/-- A guess that its average does not improve is not above the root. -/
theorem le_sqrt_of_le_average {x guess : Nat} (stops : guess ≤ (x / guess + guess) / 2) :
    guess ≤ Nat.sqrt x := by
  have cofactor : guess ≤ x / guess := by omega
  rw [Nat.le_sqrt]
  exact Nat.le_trans (Nat.mul_le_mul_left guess cofactor) (Nat.mul_div_le x guess)

/-- The sum before the average is not above the number by more than one. -/
theorem cofactor_add_le {x guess : Nat} (positive : 0 < guess) (le : guess ≤ x) :
    x / guess + guess ≤ x + 1 := by
  have cofactor : 0 < x / guess := Nat.div_pos le positive
  have product := Nat.mul_div_le x guess
  obtain ⟨g, rfl⟩ : ∃ g, guess = g + 1 := ⟨guess - 1, by omega⟩
  generalize x / (g + 1) = q at cofactor product ⊢
  obtain ⟨p, rfl⟩ : ∃ p, q = p + 1 := ⟨q - 1, by omega⟩
  have expand : (g + 1) * (p + 1) = g * p + g + p + 1 := by ring
  have least := Nat.zero_le (g * p)
  omega

/-! ## Sums of steps -/

/-- A sum of values that change every `period` terms. -/
theorem sum_div_range (f : Nat → Nat) (period : Nat) (eras : Nat) {rest : Nat}
    (within : rest ≤ period) :
    ∑ k ∈ Finset.range (period * eras + rest), f (k / period) =
      period * ∑ era ∈ Finset.range eras, f era + rest * f eras := by
  rcases Nat.eq_zero_or_pos period with rfl | positive
  · rw [Nat.le_zero.mp within]
    simp
  have era : ∀ e n, n ≤ period →
      ∑ k ∈ Finset.range n, f ((period * e + k) / period) = n * f e := by
    intro e n le
    have same : ∀ k ∈ Finset.range n, f ((period * e + k) / period) = f e := by
      intro k member
      have below : k < period := Nat.lt_of_lt_of_le (Finset.mem_range.mp member) le
      rw [Nat.mul_add_div positive, Nat.div_eq_of_lt below, Nat.add_zero]
    rw [Finset.sum_congr rfl same, Finset.sum_const, Finset.card_range, Nat.nsmul_eq_mul]
  have whole : ∑ k ∈ Finset.range (period * eras), f (k / period) =
      period * ∑ era ∈ Finset.range eras, f era := by
    induction eras with
    | zero => simp
    | succ e ih =>
      rw [Nat.mul_succ, Finset.sum_range_add, ih, era e period le_rfl, Finset.sum_range_succ,
        Nat.mul_add]
  rw [Finset.sum_range_add, whole, era eras rest within]

/-! ## Products over the bits of a number -/

/-- A fixed-point product with one factor for each bit that is set, the lowest bit first. The
product is rounded after every factor. -/
def scaleByBits (shift : Nat) : List Nat → Nat → Nat → Nat
  | [], _, p => p
  | c :: cs, n, p => scaleByBits shift cs (n / 2) (if n % 2 = 1 then p * c / 2 ^ shift else p)

/-- The least such product over the numbers up to `bound`: they have a free low bit, except
that the last of them has not when `bound` is even. -/
def leastByBits (shift : Nat) : List Nat → Nat → Nat → Nat
  | [], _, p => p
  | c :: cs, bound, p =>
    if bound % 2 = 1 then leastByBits shift cs (bound / 2) (p * c / 2 ^ shift)
    else if bound = 0 then scaleByBits shift cs 0 p
    else min (scaleByBits shift cs (bound / 2) p)
      (leastByBits shift cs (bound / 2 - 1) (p * c / 2 ^ shift))

section Bits

variable {shift : Nat} {cs : List Nat}

theorem mul_div_le {c p : Nat} (fraction : c ≤ 2 ^ shift) : p * c / 2 ^ shift ≤ p := by
  rw [Nat.div_le_iff_le_mul_add_pred (Nat.two_pow_pos shift)]
  calc p * c ≤ p * 2 ^ shift := Nat.mul_le_mul_left p fraction
    _ ≤ 2 ^ shift * p + (2 ^ shift - 1) := by
        rw [Nat.mul_comm]
        exact Nat.le_add_right _ _

theorem scaleByBits_mono {n p q : Nat} (le : p ≤ q) :
    scaleByBits shift cs n p ≤ scaleByBits shift cs n q := by
  induction cs generalizing n p q with
  | nil => exact le
  | cons c cs ih =>
    rw [scaleByBits, scaleByBits]
    split
    · exact ih (Nat.div_le_div_right (Nat.mul_le_mul_right c le))
    · exact ih le

theorem scaleByBits_le (fractions : ∀ c ∈ cs, c ≤ 2 ^ shift) (n p : Nat) :
    scaleByBits shift cs n p ≤ p := by
  induction cs generalizing n p with
  | nil => exact le_rfl
  | cons c cs ih =>
    have rest := ih fun d member => fractions d (List.mem_cons_of_mem c member)
    rw [scaleByBits]
    split
    · exact Nat.le_trans (rest _ _) (mul_div_le (fractions c List.mem_cons_self))
    · exact rest _ _

theorem leastByBits_mono {bound p q : Nat} (le : p ≤ q) :
    leastByBits shift cs bound p ≤ leastByBits shift cs bound q := by
  induction cs generalizing bound p q with
  | nil => exact le
  | cons c cs ih =>
    have scaled : p * c / 2 ^ shift ≤ q * c / 2 ^ shift :=
      Nat.div_le_div_right (Nat.mul_le_mul_right c le)
    rw [leastByBits, leastByBits]
    split
    · exact ih scaled
    · split
      · exact scaleByBits_mono le
      · exact min_le_min (scaleByBits_mono le) (ih scaled)

/-- No number up to the bound has a smaller product. -/
theorem leastByBits_le (fractions : ∀ c ∈ cs, c ≤ 2 ^ shift) {n bound : Nat} (within : n ≤ bound)
    (p : Nat) : leastByBits shift cs bound p ≤ scaleByBits shift cs n p := by
  induction cs generalizing n bound p with
  | nil => exact le_rfl
  | cons c cs ih =>
    have less : p * c / 2 ^ shift ≤ p := mul_div_le (fractions c List.mem_cons_self)
    have rest := fun n bound (le : n ≤ bound) =>
      ih (fun d member => fractions d (List.mem_cons_of_mem c member)) le
    rw [leastByBits, scaleByBits]
    by_cases odd : bound % 2 = 1
    · rw [if_pos odd]
      refine Nat.le_trans ?_ (rest (n / 2) (bound / 2) (by omega) _)
      split
      · exact le_rfl
      · exact leastByBits_mono less
    rw [if_neg odd]
    split
    · next zero =>
      rw [show n = 0 by omega]
      exact le_rfl
    by_cases last : n = bound
    · rw [last, if_neg odd]
      exact Nat.min_le_left _ _
    · refine Nat.le_trans (Nat.min_le_right _ _) ?_
      refine Nat.le_trans ?_ (rest (n / 2) (bound / 2 - 1) (by omega) _)
      split
      · exact le_rfl
      · exact leastByBits_mono less

end Bits

end HashMiner.Foundation
