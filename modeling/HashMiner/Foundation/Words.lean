import Mathlib.Algebra.Ring.Basic
import Mathlib.Data.BitVec
import Mathlib.Data.Nat.Factorization.Basic
import Mathlib.Tactic.Ring

/-!
# Machine words and products of two words

A product of two words is known by its residues modulo `2 ^ w` and `2 ^ w - 1`. An exact
division of it by a word is a multiplication by an inverse, after the powers of two are
shifted out.
-/

namespace HashMiner.Foundation

variable {w : Nat}

def lt (x y : BitVec w) : BitVec w := if x < y then 1 else 0

def gt (x y : BitVec w) : BitVec w := lt y x

def mulmod (x y m : BitVec w) : BitVec w :=
  if m = 0 then 0 else BitVec.ofNat w (x.toNat * y.toNat % m.toNat)

theorem toNat_mulmod {x y m : BitVec w} (positive : 0 < m.toNat) :
    (mulmod x y m).toNat = x.toNat * y.toNat % m.toNat := by
  have nonzero : m ≠ 0 := by
    rintro rfl
    exact Nat.ne_of_gt positive rfl
  rw [mulmod, if_neg nonzero, BitVec.toNat_ofNat]
  exact Nat.mod_eq_of_lt (Nat.lt_trans (Nat.mod_lt _ positive) m.isLt)

/-! ## The high word of a product -/

section HighWord

variable (x y : BitVec w)

theorem mul_lt (wide : 0 < w) : x.toNat * y.toNat < 2 ^ w * (2 ^ w - 1) := by
  have some : 1 < 2 ^ w := Nat.one_lt_two_pow wide.ne'
  calc x.toNat * y.toNat ≤ (2 ^ w - 1) * (2 ^ w - 1) :=
        Nat.mul_le_mul (Nat.le_sub_one_of_lt x.isLt) (Nat.le_sub_one_of_lt y.isLt)
    _ < 2 ^ w * (2 ^ w - 1) := by
        have less : 2 ^ w - 1 < 2 ^ w := by omega
        exact Nat.mul_lt_mul_of_pos_right less (by omega)

/-- Modulo `2 ^ w - 1`, a product is the sum of its words. -/
theorem mul_mod_allOnes (b high low : Nat) (large : 0 < b) :
    (b * high + low) % (b - 1) = (high + low) % (b - 1) := by
  obtain ⟨m, rfl⟩ : ∃ m, b = m + 1 := ⟨b - 1, by omega⟩
  rw [Nat.add_sub_cancel, show (m + 1) * high + low = high + low + m * high by ring]
  exact Nat.add_mul_mod_self_left ..

/-- The high word, as the difference of the residues with a borrow. -/
theorem highWord :
    mulmod x y (~~~0) - x * y - lt (mulmod x y (~~~0)) (x * y) =
      BitVec.ofNat w (x.toNat * y.toNat / 2 ^ w) := by
  rcases Nat.eq_zero_or_pos w with rfl | wide
  · exact Subsingleton.elim _ _
  have some : 1 < 2 ^ w := Nat.one_lt_two_pow wide.ne'
  have ones : (~~~0 : BitVec w).toNat = 2 ^ w - 1 := by simp
  have low : (x * y).toNat = x.toNat * y.toNat % 2 ^ w := BitVec.toNat_mul ..
  have residue : (mulmod x y (~~~0)).toNat =
      (x.toNat * y.toNat / 2 ^ w + (x * y).toNat) % (2 ^ w - 1) := by
    rw [toNat_mulmod (by omega), ones, low, ← mul_mod_allOnes _ _ _ (Nat.two_pow_pos w),
      Nat.div_add_mod]
  have high : x.toNat * y.toNat / 2 ^ w < 2 ^ w - 1 := Nat.div_lt_of_lt_mul (mul_lt x y wide)
  have word := (x * y).isLt
  generalize mulmod x y (~~~0) = mm at residue ⊢
  generalize x.toNat * y.toNat / 2 ^ w = h at residue high ⊢
  generalize x * y = l at residue word ⊢
  by_cases below : h + l.toNat < 2 ^ w - 1
  · rw [Nat.mod_eq_of_lt below] at residue
    have sum : mm = BitVec.ofNat w h + l := by
      apply BitVec.eq_of_toNat_eq
      rw [BitVec.toNat_add, BitVec.toNat_ofNat, Nat.mod_add_mod, residue]
      exact (Nat.mod_eq_of_lt (by omega)).symm
    have borrow : lt mm l = 0 := if_neg (Nat.not_lt.mpr (by omega))
    rw [borrow, sum]
    ring
  · have once : mm.toNat = h + l.toNat - (2 ^ w - 1) := by
      rw [residue, Nat.mod_eq_sub_mod (Nat.not_lt.mp below)]
      exact Nat.mod_eq_of_lt (by omega)
    have sum : mm = BitVec.ofNat w h + l + 1 := by
      apply BitVec.eq_of_toNat_eq
      have one : (1 : BitVec w).toNat = 1 := by
        simp [Nat.mod_eq_of_lt some]
      rw [BitVec.toNat_add, BitVec.toNat_add, BitVec.toNat_ofNat, one, Nat.mod_add_mod,
        Nat.mod_eq_of_lt (show h < 2 ^ w by omega), once, Nat.mod_eq_sub_mod (by omega),
        Nat.mod_eq_of_lt (by omega)]
      omega
    have borrow : lt mm l = 1 := if_pos (show mm.toNat < l.toNat by omega)
    rw [borrow, sum]
    ring

end HighWord

/-- A word is taken off a number of two words that is not below it. -/
theorem sub_borrow {high low r : BitVec w} (wide : 0 < w)
    (le : r.toNat ≤ 2 ^ w * high.toNat + low.toNat) :
    2 ^ w * (high - gt r low).toNat + (low - r).toNat =
      2 ^ w * high.toNat + low.toNat - r.toNat := by
  have some : 1 < 2 ^ w := Nat.one_lt_two_pow wide.ne'
  have word := low.isLt
  by_cases below : low < r
  · have less : low.toNat < r.toNat := below
    have one : (1 : BitVec w).toNat = 1 := by
      simp [Nat.mod_eq_of_lt some]
    have carries : 1 ≤ high.toNat := by
      by_contra none
      rw [Nat.lt_one_iff.mp (Nat.not_le.mp none)] at le
      omega
    have upper : (high - 1).toNat = high.toNat - 1 := by
      rw [BitVec.toNat_sub_of_le (by rw [BitVec.le_def, one]; exact carries), one]
    have lower : (low - r).toNat = 2 ^ w - r.toNat + low.toNat := by
      rw [BitVec.toNat_sub]
      exact Nat.mod_eq_of_lt (by omega)
    rw [show gt r low = 1 from if_pos below, upper, lower, Nat.mul_sub, Nat.mul_one]
    have whole := Nat.mul_le_mul_left (2 ^ w) carries
    have := r.isLt
    omega
  · have ge : r.toNat ≤ low.toNat := Nat.not_lt.mp below
    rw [show gt r low = 0 from if_neg below, sub_zero,
      BitVec.toNat_sub_of_le (BitVec.le_def.mpr ge)]
    exact (Nat.add_sub_assoc ge _).symm

/-! ## Powers of two -/

/-- `-d & d` is the largest power of two that divides `d`. -/
theorem neg_and_self {d : BitVec w} (nonzero : d ≠ 0) :
    ∃ k odd, k < w ∧ d.toNat = 2 ^ k * (2 * odd + 1) ∧ ((0 - d) &&& d).toNat = 2 ^ k := by
  have positive : d.toNat ≠ 0 := fun zero => nonzero (BitVec.eq_of_toNat_eq zero)
  obtain ⟨k, o, ⟨e, rfl⟩, split⟩ := Nat.exists_eq_two_pow_mul_odd positive
  have least : 2 ^ k ≤ d.toNat := by
    rw [split]
    exact Nat.le_mul_of_pos_right _ (Nat.succ_pos _)
  have small : k < w := (Nat.pow_lt_pow_iff_right (by decide)).mp (Nat.lt_of_le_of_lt least d.isLt)
  refine ⟨k, e, small, split, ?_⟩
  have parts : 2 ^ w = 2 ^ k * 2 ^ (w - k) := by
    rw [← Nat.pow_add, Nat.add_sub_cancel' small.le]
  have rest : 2 * e + 1 < 2 ^ (w - k) := by
    have := d.isLt
    rw [split, parts] at this
    exact Nat.lt_of_mul_lt_mul_left this
  have negated : (0 - d).toNat = 2 ^ k * (2 ^ (w - k) - (2 * e + 1)) := by
    have zero : (0 : BitVec w).toNat = 0 := by simp
    rw [BitVec.toNat_sub, zero, Nat.add_zero, split, Nat.mul_sub, ← parts]
    refine Nat.mod_eq_of_lt ?_
    have := Nat.two_pow_pos w
    have := Nat.mul_pos (Nat.two_pow_pos k) (Nat.succ_pos (2 * e))
    omega
  rw [BitVec.toNat_and, negated, split, Nat.mul_comm, Nat.mul_comm _ (2 * e + 1),
    ← Nat.shiftLeft_eq, ← Nat.shiftLeft_eq, ← Nat.shiftLeft_and_distrib, Nat.shiftLeft_eq]
  rw [show (2 ^ (w - k) - (2 * e + 1)) &&& (2 * e + 1) = 1 from ?_, Nat.one_mul]
  apply Nat.eq_of_testBit_eq
  intro i
  have even : 2 * e < 2 ^ (w - k) := by omega
  rw [Nat.testBit_and, Nat.testBit_two_pow_sub_succ even]
  cases i with
  | zero => simp [show 0 < w - k by omega]
  | succ i =>
    rw [Nat.testBit_succ, Nat.testBit_succ, Nat.testBit_succ]
    simp [show (2 * e + 1) / 2 = e by omega]

/-- `-t / t + 1` is `2 ^ w / t`, which is zero when it is no word. -/
theorem toNat_flip {t : BitVec w} {k : Nat} (power : t.toNat = 2 ^ k) (small : k < w) :
    ((0 - t) / t + 1).toNat = 2 ^ (w - k) % 2 ^ w := by
  have parts : 2 ^ w = 2 ^ k * 2 ^ (w - k) := by
    rw [← Nat.pow_add, Nat.add_sub_cancel' small.le]
  have zero : (0 : BitVec w).toNat = 0 := by simp
  have one : (1 : BitVec w).toNat = 1 := by
    simp [Nat.mod_eq_of_lt (Nat.one_lt_two_pow (Nat.ne_of_gt (Nat.zero_lt_of_lt small)))]
  have negated : (0 - t).toNat = 2 ^ k * (2 ^ (w - k) - 1) := by
    rw [BitVec.toNat_sub, zero, Nat.add_zero, power, Nat.mul_sub, Nat.mul_one, ← parts]
    have := Nat.two_pow_pos w
    have := Nat.two_pow_pos k
    exact Nat.mod_eq_of_lt (by omega)
  rw [BitVec.toNat_add, BitVec.toNat_udiv, negated, power, one,
    Nat.mul_div_cancel_left _ (Nat.two_pow_pos k), Nat.sub_add_cancel (Nat.two_pow_pos _)]

/-- The bits of the high word are shifted in over those of the low word. -/
theorem toNat_shiftIn (high low : BitVec w) {t : BitVec w} {k : Nat} (power : t.toNat = 2 ^ k)
    (small : k < w) :
    (low / t ||| high * ((0 - t) / t + 1)).toNat =
      (2 ^ w * high.toNat + low.toNat) / 2 ^ k % 2 ^ w := by
  have parts : 2 ^ w = 2 ^ (w - k) * 2 ^ k := by
    rw [← Nat.pow_add, Nat.sub_add_cancel small.le]
  have upper : (high * ((0 - t) / t + 1)).toNat = 2 ^ (w - k) * (high.toNat % 2 ^ k) := by
    rw [BitVec.toNat_mul, toNat_flip power small, Nat.mul_mod_mod, Nat.mul_comm, parts,
      Nat.mul_mod_mul_left]
  have lower : low.toNat / 2 ^ k < 2 ^ (w - k) := by
    refine Nat.div_lt_of_lt_mul ?_
    rw [Nat.mul_comm, ← parts]
    exact low.isLt
  have quotient : (2 ^ w * high.toNat + low.toNat) / 2 ^ k =
      2 ^ (w - k) * high.toNat + low.toNat / 2 ^ k := by
    rw [parts, show 2 ^ (w - k) * 2 ^ k * high.toNat + low.toNat =
      low.toNat + 2 ^ k * (2 ^ (w - k) * high.toNat) by ring,
      Nat.add_mul_div_left _ _ (Nat.two_pow_pos k), Nat.add_comm]
  rw [BitVec.toNat_or, upper, BitVec.toNat_udiv, power, Nat.or_comm,
    ← Nat.two_pow_add_eq_or_of_lt lower, quotient]
  have split := Nat.mul_mod_mul_left (2 ^ (w - k)) high.toNat (2 ^ k)
  rw [← parts] at split
  rw [← split, ← Nat.mod_add_mod]
  refine (Nat.mod_eq_of_lt ?_).symm
  rw [split, parts]
  calc 2 ^ (w - k) * (high.toNat % 2 ^ k) + low.toNat / 2 ^ k
      < 2 ^ (w - k) * (high.toNat % 2 ^ k) + 2 ^ (w - k) := Nat.add_lt_add_left lower _
    _ = 2 ^ (w - k) * (high.toNat % 2 ^ k + 1) := by ring
    _ ≤ 2 ^ (w - k) * 2 ^ k := Nat.mul_le_mul_left _ (Nat.mod_lt _ (Nat.two_pow_pos k))

/-! ## Inverses -/

section Newton

variable {R : Type*} [CommRing R] (a : R)

/-- One iteration of Newton and Raphson for the inverse of `a`. -/
def newton (x : R) : R := x * (2 - a * x)

theorem newton_error (x : R) : 1 - a * newton a x = (1 - a * x) ^ 2 := by
  unfold newton
  ring

/-- The error is squared each time. -/
theorem iterate_newton_error (n : Nat) (x : R) :
    1 - a * (newton a)^[n] x = (1 - a * x) ^ 2 ^ n := by
  induction n generalizing x with
  | zero => simp
  | succ n ih =>
    rw [Function.iterate_succ_apply, ih, newton_error, ← pow_mul, ← Nat.pow_succ']

end Newton

theorem natCast_toNat (x : BitVec w) : (x.toNat : BitVec w) = x := by
  rw [BitVec.natCast_eq_ofNat, BitVec.ofNat_toNat, BitVec.setWidth_eq]

/-- An odd word times its seed is one in the last four bits. -/
theorem seed_error {a : BitVec w} (wide : 4 ≤ w) (odd : a.toNat % 2 = 1) :
    ∃ c, 1 - a * ((3 * a) ^^^ 2) = 2 ^ 4 * c := by
  have holds : 2 ^ 4 ≤ 2 ^ w := Nat.pow_le_pow_right (by decide) wide
  have three : (3 : BitVec w).toNat = 3 := by
    simp [Nat.mod_eq_of_lt (show 3 < 2 ^ w by omega)]
  have two : (2 : BitVec w).toNat = 2 := by
    simp [Nat.mod_eq_of_lt (show 2 < 2 ^ w by omega)]
  have seed : ((3 * a) ^^^ 2).toNat % 16 = (3 * (a.toNat % 16) % 16) ^^^ 2 := by
    have divides : 2 ^ 4 ∣ 2 ^ w := Nat.pow_dvd_pow 2 wide
    rw [BitVec.toNat_xor, BitVec.toNat_mul, three, two, Nat.xor_mod_two_pow (n := 4),
      Nat.mod_mod_of_dvd _ divides, Nat.mul_mod]
    simp
  have last : a.toNat * ((3 * a) ^^^ 2).toNat % 16 = 1 := by
    have cases : ∀ b < 16, b % 2 = 1 → b * ((3 * b % 16) ^^^ 2) % 16 = 1 := by decide
    rw [Nat.mul_mod, seed]
    exact cases _ (Nat.mod_lt _ (by decide)) (by omega)
  generalize (3 * a) ^^^ 2 = x at last ⊢
  refine ⟨-(a.toNat * x.toNat / 16 : Nat), ?_⟩
  have product : a * x = 16 * (a.toNat * x.toNat / 16 : Nat) + 1 := by
    have split := Nat.div_add_mod (a.toNat * x.toNat) 16
    rw [last] at split
    calc a * x = (a.toNat * x.toNat : Nat) := by
          rw [Nat.cast_mul, natCast_toNat, natCast_toNat]
      _ = (16 * (a.toNat * x.toNat / 16) + 1 : Nat) := by rw [split]
      _ = 16 * (a.toNat * x.toNat / 16 : Nat) + 1 := by
          push_cast
          rfl
  rw [product]
  ring

/-- The error vanishes once it has as many factors two as the word has bits. -/
theorem mul_iterate_newton {a x c : BitVec w} {bits n : Nat} (seed : 1 - a * x = 2 ^ bits * c)
    (enough : w ≤ bits * 2 ^ n) : a * (newton a)^[n] x = 1 := by
  have power : (2 : BitVec w) ^ (bits * 2 ^ n) = 0 := by
    have cast : (2 : BitVec w) ^ (bits * 2 ^ n) = ((2 ^ (bits * 2 ^ n) : Nat) : BitVec w) := by
      push_cast
      rfl
    rw [cast, BitVec.natCast_eq_ofNat]
    apply BitVec.eq_of_toNat_eq
    rw [BitVec.toNat_ofNat, Nat.mod_eq_zero_of_dvd (Nat.pow_dvd_pow 2 enough)]
    simp
  have vanishes : 1 - a * (newton a)^[n] x = 0 := by
    rw [iterate_newton_error, seed, mul_pow, ← pow_mul, power, zero_mul]
  exact (sub_eq_zero.mp vanishes).symm

end HashMiner.Foundation
