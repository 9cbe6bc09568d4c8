import HashMiner.Contract.Mining
import HashMiner.Foundation.Rounding
import HashMiner.Foundation.Words

/-!
# Products of 512 bits

The arithmetic is unchecked. The quotient is exact although the product may not be a word.
-/

namespace HashMiner.Contract.FullMath

open Foundation

/-- The inverse of an odd number modulo `2 ^ 256`. -/
def inverse (denominator : U256) : U256 :=
  let inv := (3 * denominator) ^^^ 2
  let inv := inv * (2 - denominator * inv)
  let inv := inv * (2 - denominator * inv)
  let inv := inv * (2 - denominator * inv)
  let inv := inv * (2 - denominator * inv)
  let inv := inv * (2 - denominator * inv)
  let inv := inv * (2 - denominator * inv)
  inv

/-- The division of 512 by 256 bits. -/
def divide (a b prod1 prod0 denominator : U256) : U256 :=
  let remainder := mulmod a b denominator
  let prod1 := prod1 - gt remainder prod0
  let prod0 := prod0 - remainder
  let twos := (0 - denominator) &&& denominator
  let denominator := denominator / twos
  let prod0 := prod0 / twos
  let twos := (0 - twos) / twos + 1
  let prod0 := prod0 ||| prod1 * twos
  prod0 * inverse denominator

def mulDiv (a b denominator : U256) : Except Revert U256 := do
  let prod0 := a * b
  let mm := mulmod a b (~~~0)
  let prod1 := mm - prod0 - lt mm prod0
  revertIf (¬ prod1 < denominator) .mulDiv
  return if prod1 = 0 then prod0 / denominator else divide a b prod1 prod0 denominator

def mulDivRoundingUp (a b denominator : U256) : Except Revert U256 := do
  let result ← mulDiv a b denominator
  if mulmod a b denominator ≠ 0 then
    let result := result + 1
    revertIf (¬ 0 < result) .mulDiv
    return result
  else
    return result

theorem mul_inverse {denominator : U256} (odd : denominator.toNat % 2 = 1) :
    denominator * inverse denominator = 1 := by
  obtain ⟨c, seed⟩ := seed_error (by decide) odd
  exact mul_iterate_newton (n := 6) seed (by decide)

/-- The remainder is taken off, so the quotient by the odd part is a product with its
inverse. -/
theorem divide_eq {a b prod1 prod0 denominator : U256} (nonzero : denominator ≠ 0)
    (product : 2 ^ 256 * prod1.toNat + prod0.toNat = a.toNat * b.toNat) :
    divide a b prod1 prod0 denominator =
      BitVec.ofNat 256 (a.toNat * b.toNat / denominator.toNat) := by
  have positive : 0 < denominator.toNat :=
    Nat.pos_of_ne_zero fun zero => nonzero (BitVec.eq_of_toNat_eq zero)
  have remainder := toNat_mulmod (x := a) (y := b) positive
  have le : (mulmod a b denominator).toNat ≤ 2 ^ 256 * prod1.toNat + prod0.toNat := by
    rw [remainder, product]
    exact Nat.mod_le _ _
  obtain ⟨k, odd, small, split, twos⟩ := neg_and_self nonzero
  have exact : (2 ^ 256 * prod1.toNat + prod0.toNat - (mulmod a b denominator).toNat) / 2 ^ k =
      (2 * odd + 1) * (a.toNat * b.toNat / denominator.toNat) := by
    have whole := Nat.div_add_mod (a.toNat * b.toNat) denominator.toNat
    rw [product, remainder, Nat.sub_eq_of_eq_add whole.symm]
    nth_rewrite 1 [split]
    rw [Nat.mul_assoc, Nat.mul_div_cancel_left _ (Nat.two_pow_pos k)]
  have shifted := toNat_shiftIn (prod1 - gt (mulmod a b denominator) prod0)
    (prod0 - mulmod a b denominator) twos small
  rw [sub_borrow (by decide) le, exact] at shifted
  have reduced : (denominator / ((0 - denominator) &&& denominator)).toNat = 2 * odd + 1 := by
    rw [BitVec.toNat_udiv, twos, split, Nat.mul_div_cancel_left _ (Nat.two_pow_pos k)]
  have uneven : (denominator / ((0 - denominator) &&& denominator)).toNat % 2 = 1 := by omega
  have inverts := mul_inverse uneven
  unfold divide
  dsimp only
  generalize (prod0 - mulmod a b denominator) / _ ||| _ = word at shifted ⊢
  generalize denominator / ((0 - denominator) &&& denominator) = reducedTo at reduced inverts ⊢
  generalize a.toNat * b.toNat / denominator.toNat = quotient at shifted ⊢
  have multiple : word = reducedTo * BitVec.ofNat 256 quotient := by
    apply BitVec.eq_of_toNat_eq
    rw [shifted, BitVec.toNat_mul, BitVec.toNat_ofNat, reduced, Nat.mul_mod_mod]
  calc word * inverse reducedTo
      = reducedTo * inverse reducedTo * BitVec.ofNat 256 quotient := by
        rw [multiple]
        ring
    _ = BitVec.ofNat 256 quotient := by rw [inverts, one_mul]

/-- The code gives the quotient of the whole product, and reverts when there is none. -/
theorem mulDiv_eq (a b denominator : U256) :
    mulDiv a b denominator = Contract.mulDiv a b denominator := by
  have high := highWord a b
  have word : a.toNat * b.toNat / 2 ^ 256 < 2 ^ 256 :=
    Nat.div_lt_of_lt_mul (Nat.mul_lt_mul'' a.isLt b.isLt)
  have upper : (BitVec.ofNat 256 (a.toNat * b.toNat / 2 ^ 256)).toNat =
      a.toNat * b.toNat / 2 ^ 256 := by
    rw [BitVec.toNat_ofNat, Nat.mod_eq_of_lt word]
  have product : 2 ^ 256 * (BitVec.ofNat 256 (a.toNat * b.toNat / 2 ^ 256)).toNat +
      (a * b).toNat = a.toNat * b.toNat := by
    rw [upper, BitVec.toNat_mul]
    exact Nat.div_add_mod _ _
  have reverts : ¬ BitVec.ofNat 256 (a.toNat * b.toNat / 2 ^ 256) < denominator ↔
      denominator = 0 ∨ 2 ^ 256 ≤ a.toNat * b.toNat / denominator.toNat := by
    rw [BitVec.lt_def, upper]
    rcases eq_or_ne denominator 0 with rfl | nonzero
    · simp
    · have positive : 0 < denominator.toNat :=
        Nat.pos_of_ne_zero fun zero => nonzero (BitVec.eq_of_toNat_eq zero)
      rw [Nat.div_lt_iff_lt_mul (by decide), Nat.not_lt, or_iff_right nonzero,
        Nat.le_div_iff_mul_le positive, Nat.mul_comm denominator.toNat]
  unfold mulDiv Contract.mulDiv
  dsimp only
  rw [high]
  by_cases fails : denominator = 0 ∨ 2 ^ 256 ≤ a.toNat * b.toNat / denominator.toNat
  · rw [if_pos fails, revertIf, if_pos (reverts.mpr fails)]
    rfl
  · have nonzero : denominator ≠ 0 := fun zero => fails (.inl zero)
    rw [if_neg fails, revertIf, if_neg fun none => fails (reverts.mp none)]
    refine congrArg Except.ok ?_
    split
    · next zero =>
      have none : a.toNat * b.toNat / 2 ^ 256 = 0 := by
        rw [← upper, zero]
        rfl
      rw [upper, none, Nat.mul_zero, Nat.zero_add] at product
      apply BitVec.eq_of_toNat_eq
      rw [BitVec.toNat_udiv, product, BitVec.toNat_ofNat]
      refine (Nat.mod_eq_of_lt ?_).symm
      exact Nat.not_le.mp fun large => fails (.inr large)
    · exact divide_eq nonzero product

/-- The adjustment of the difficulty by the code's own product. -/
theorem scaled_eq (old taken target : U256) :
    scaled old taken target = if taken = 0 then .ok (old / 4) else mulDiv old taken target := by
  rw [mulDiv_eq, scaled]

/-- The least number that is not below the quotient, when it is a word. -/
theorem mulDivRoundingUp_eq (a b denominator : U256) :
    mulDivRoundingUp a b denominator =
      if denominator = 0 ∨
        2 ^ 256 ≤ (a.toNat * b.toNat + denominator.toNat - 1) / denominator.toNat
      then .error .mulDiv
      else .ok (BitVec.ofNat 256
        ((a.toNat * b.toNat + denominator.toNat - 1) / denominator.toNat)) := by
  rcases eq_or_ne denominator 0 with rfl | nonzero
  · rw [if_pos (.inl rfl), mulDivRoundingUp, mulDiv_eq, Contract.mulDiv]
    rfl
  have positive : 0 < denominator.toNat :=
    Nat.pos_of_ne_zero fun zero => nonzero (BitVec.eq_of_toNat_eq zero)
  have rest : mulmod a b denominator = 0 ↔ a.toNat * b.toNat % denominator.toNat = 0 := by
    rw [← toNat_mulmod positive]
    exact ⟨fun zero => by rw [zero]; rfl, fun zero => BitVec.eq_of_toNat_eq zero⟩
  rw [mulDivRoundingUp, mulDiv_eq, Contract.mulDiv, ceil_div _ positive]
  generalize a.toNat * b.toNat / denominator.toNat = quotient
  dsimp only
  simp only [or_iff_right nonzero]
  by_cases large : 2 ^ 256 ≤ quotient
  · rw [if_pos large, if_pos (Nat.le_add_right_of_le large)]
    rfl
  rw [if_neg large]
  change (if mulmod a b denominator ≠ 0 then _ else _) = _
  by_cases exact : a.toNat * b.toNat % denominator.toNat = 0
  · rw [if_neg (not_not.mpr (rest.mpr exact)), if_pos exact, Nat.add_zero, if_neg large]
    rfl
  have next : (BitVec.ofNat 256 quotient + 1).toNat = (quotient + 1) % 2 ^ 256 := by
    rw [BitVec.toNat_add, BitVec.toNat_ofNat, Nat.mod_add_mod]
    rfl
  have wraps : ¬ 0 < BitVec.ofNat 256 quotient + 1 ↔ 2 ^ 256 ≤ quotient + 1 := by
    have zero : (0 : U256).toNat = 0 := rfl
    rw [BitVec.lt_def, next, zero]
    omega
  have same : BitVec.ofNat 256 quotient + 1 = BitVec.ofNat 256 (quotient + 1) := by
    apply BitVec.eq_of_toNat_eq
    rw [next, BitVec.toNat_ofNat]
  rw [if_pos (mt rest.mp exact), if_neg exact]
  by_cases last : 2 ^ 256 ≤ quotient + 1
  · rw [if_pos last, revertIf, if_pos (wraps.mpr last)]
    rfl
  · rw [if_neg last, revertIf, if_neg (mt wraps.mp last), ← same]
    rfl

/-- Both quotients are those of the numbers, and each is given whenever it is a word. -/
theorem quotients_exact (a b denominator : U256) :
    (∀ q, mulDiv a b denominator = .ok q ↔
      denominator ≠ 0 ∧ q.toNat = a.toNat * b.toNat / denominator.toNat) ∧
    (∀ q, mulDivRoundingUp a b denominator = .ok q ↔
      denominator ≠ 0 ∧
        q.toNat = (a.toNat * b.toNat + denominator.toNat - 1) / denominator.toNat) := by
  have word (n : Nat) (q : U256) : (if denominator = 0 ∨ 2 ^ 256 ≤ n then .error Revert.mulDiv
      else .ok (BitVec.ofNat 256 n)) = Except.ok q ↔ denominator ≠ 0 ∧ q.toNat = n := by
    split
    · next fails =>
      simp only [reduceCtorEq, false_iff, not_and]
      rintro nonzero rfl
      exact Nat.not_le.mpr q.isLt (fails.resolve_left nonzero)
    · next fits =>
      obtain ⟨nonzero, small⟩ := not_or.mp fits
      have same : (BitVec.ofNat 256 n).toNat = n := by
        rw [BitVec.toNat_ofNat, Nat.mod_eq_of_lt (Nat.not_le.mp small)]
      rw [Except.ok.injEq, ← BitVec.toNat_inj, same, and_iff_right nonzero, eq_comm]
  constructor
  · intro q
    rw [mulDiv_eq, Contract.mulDiv]
    exact word _ q
  · intro q
    rw [mulDivRoundingUp_eq]
    exact word _ q

end HashMiner.Contract.FullMath
