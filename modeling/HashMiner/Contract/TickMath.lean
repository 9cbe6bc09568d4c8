import HashMiner.Contract.Price
import Mathlib.Data.Nat.Bitwise

/-!
# Prices of ticks

The reciprocal of a price is a product with one factor for each bit of the tick. The
arithmetic is unchecked.
-/

namespace HashMiner.Contract.TickMath

open Foundation

def maxTick : U256 := 887272

def minSqrtPrice : U160 := 4295128739

def maxSqrtPrice : U160 := 1461446703485210103287273052203988822378723970342

/-- The lines after the first one, each with its bit of the tick and its factor. -/
def factors : List (U256 × U256) :=
  [ (0x2, 0xfff97272373d413259a46990580e213a),
    (0x4, 0xfff2e50f5f656932ef12357cf3c7fdcc),
    (0x8, 0xffe5caca7e10e4e61c3624eaa0941cd0),
    (0x10, 0xffcb9843d60f6159c9db58835c926644),
    (0x20, 0xff973b41fa98c081472e6896dfb254c0),
    (0x40, 0xff2ea16466c96a3843ec78b326b52861),
    (0x80, 0xfe5dee046a99a2a811c461f1969c3053),
    (0x100, 0xfcbe86c7900a88aedcffc83b479aa3a4),
    (0x200, 0xf987a7253ac413176f2b074cf7815e54),
    (0x400, 0xf3392b0822b70005940c7a398e4b70f3),
    (0x800, 0xe7159475a2c29b7443b29c7fa6e889d9),
    (0x1000, 0xd097f3bdfd2022b8845ad8f792aa5825),
    (0x2000, 0xa9f746462d870fdf8a65dc1f90e061e5),
    (0x4000, 0x70d869a156d2a1b890bb3df62baf32f7),
    (0x8000, 0x31be135f97d08fd981231505542fcfa6),
    (0x10000, 0x9aa508b5b7a84e1c677de54f3e99bc9),
    (0x20000, 0x5d6af8dedb81196699c329225ee604),
    (0x40000, 0x2216e584f5fa1ea926041bedfe98),
    (0x80000, 0x48a170391f7dc42444e8fa2) ]

def scale (absTick price : U256) (line : U256 × U256) : U256 :=
  if absTick &&& line.1 ≠ 0 then (price * line.2) >>> 128 else price

/-- The product of the factors. -/
def ratio (absTick : U256) : U256 :=
  let price := (1 <<< 128) ^^^
    (((1 <<< 128) ^^^ 0xfffcb933bd6fad37aa2d162d1a594001) * (absTick &&& 0x1))
  factors.foldl (scale absTick) price

def abs (tick : BitVec 24) : U256 :=
  let tick := tick.signExtend 256
  let mask := tick.sshiftRight 255
  mask ^^^ (mask + tick)

def getSqrtPriceAtTick (tick : BitVec 24) : Except Failure U160 := do
  let absTick := abs tick
  revertIf (maxTick < absTick) (Failure.invalidTick tick)
  let price := ratio absTick
  let price := if 0 < tick.toInt then (~~~0) / price else price
  return ((price + ((1 <<< 32) - 1)) >>> 32).setWidth 160

/-- The mask has the sign in every bit. -/
theorem mask_eq (word : U256) :
    word.sshiftRight 255 = if word.msb then BitVec.allOnes 256 else 0 := by
  have top : ∀ x : U256, x.msb = false → x >>> 255 = 0 := by
    intro x positive
    apply BitVec.eq_of_toNat_eq
    rw [BitVec.toNat_ushiftRight, Nat.shiftRight_eq_div_pow]
    exact Nat.div_eq_of_lt (BitVec.msb_eq_false_iff_two_mul_lt.mp positive |> fun half => by omega)
  cases negative : word.msb with
  | false =>
    rw [BitVec.sshiftRight_eq_of_msb_false negative, top word negative]
    rfl
  | true =>
    have flipped : (~~~word).msb = false := by
      rw [BitVec.msb_not, negative]
      rfl
    rw [BitVec.sshiftRight_eq_of_msb_true negative, top _ flipped]
    rfl

theorem toNat_abs (tick : BitVec 24) : (abs tick).toNat = tick.toInt.natAbs := by
  have extended : (tick.signExtend 256).toInt = tick.toInt :=
    BitVec.toInt_signExtend_of_le (by decide)
  have value := BitVec.toInt_eq_msb_cond (tick.signExtend 256)
  rw [extended] at value
  unfold abs
  dsimp only
  rw [mask_eq]
  generalize tick.signExtend 256 = word at value ⊢
  have size := word.isLt
  cases negative : word.msb with
  | false =>
    have same : (0 : U256) ^^^ (0 + word) = word := by simp
    rw [negative, if_neg (by decide)] at value
    rw [if_neg (by decide), same, value]
    rfl
  | true =>
    have ones : (-1#256 : U256) = BitVec.allOnes 256 := BitVec.neg_one_eq_allOnes
    have same : BitVec.allOnes 256 ^^^ (BitVec.allOnes 256 + word) = -word := by
      rw [BitVec.allOnes_xor, BitVec.not_eq_neg_add, ← ones]
      ring
    rw [negative, if_pos rfl] at value
    rw [if_pos rfl, same, BitVec.toNat_neg, value]
    have half := BitVec.msb_eq_true_iff_two_mul_ge.mp negative
    rw [Nat.mod_eq_of_lt (by omega)]
    omega

/-- A line on numbers. -/
theorem toNat_scale {absTick price bit factor : U256} {i : Nat} (power : bit.toNat = 2 ^ i)
    (small : price.toNat ≤ 2 ^ 128) (fraction : factor.toNat < 2 ^ 128) :
    (scale absTick price (bit, factor)).toNat =
      if absTick.toNat / 2 ^ i % 2 = 1 then price.toNat * factor.toNat / 2 ^ 128
      else price.toNat := by
  have set : absTick &&& bit ≠ 0 ↔ absTick.toNat / 2 ^ i % 2 = 1 := by
    have value : (absTick &&& bit).toNat = (absTick.toNat.testBit i).toNat * 2 ^ i := by
      rw [BitVec.toNat_and, power, Nat.and_two_pow]
    have zero : absTick &&& bit = 0 ↔ (absTick &&& bit).toNat = 0 :=
      ⟨fun none => by rw [none]; rfl, fun none => BitVec.eq_of_toNat_eq none⟩
    rw [ne_eq, zero, value, Nat.testBit_eq_decide_div_mod_eq]
    have positive := Nat.two_pow_pos i
    by_cases odd : absTick.toNat / 2 ^ i % 2 = 1 <;> simp [odd]
  have fits : price.toNat * factor.toNat < 2 ^ 256 :=
    calc price.toNat * factor.toNat ≤ 2 ^ 128 * factor.toNat := Nat.mul_le_mul_right _ small
      _ < 2 ^ 128 * 2 ^ 128 := Nat.mul_lt_mul_of_pos_left fraction (by decide)
      _ = 2 ^ 256 := by decide
  unfold scale
  simp only [set]
  split
  · rw [BitVec.toNat_ushiftRight, BitVec.toNat_mul, Nat.mod_eq_of_lt fits,
      Nat.shiftRight_eq_div_pow]
  · rfl

/-- The bits of the lines follow each other. -/
def Consecutive : Nat → List (U256 × U256) → Prop
  | _, [] => True
  | i, line :: rest => line.1.toNat = 2 ^ i ∧ line.2.toNat < 2 ^ 128 ∧ Consecutive (i + 1) rest

instance decidableConsecutive : ∀ i lines, Decidable (Consecutive i lines)
  | _, [] => .isTrue trivial
  | i, _ :: rest =>
    have := decidableConsecutive (i + 1) rest
    inferInstanceAs (Decidable (_ ∧ _ ∧ _))

theorem toNat_foldl {lines : List (U256 × U256)} {i : Nat} (consecutive : Consecutive i lines)
    (absTick : U256) {price : U256} (small : price.toNat ≤ 2 ^ 128) :
    (lines.foldl (scale absTick) price).toNat =
      scaleByBits 128 (lines.map fun line => line.2.toNat) (absTick.toNat / 2 ^ i) price.toNat := by
  induction lines generalizing i price with
  | nil => rfl
  | cons line rest ih =>
    obtain ⟨power, fraction, later⟩ := consecutive
    have value : (scale absTick price line).toNat = _ := toNat_scale power small fraction
    have next : (scale absTick price line).toNat ≤ 2 ^ 128 := by
      rw [value]
      split
      · exact Nat.le_trans (mul_div_le (Nat.le_of_lt fraction)) small
      · exact small
    rw [List.foldl_cons, ih later next, value, List.map_cons, scaleByBits, Nat.div_div_eq_div_mul,
      Nat.pow_succ]

/-! ## The arithmetic on numbers -/

/-- The factors of all bits, the lowest bit first. -/
def ladder : List Nat :=
  0xfffcb933bd6fad37aa2d162d1a594001 :: factors.map fun line => line.2.toNat

/-- The reciprocal of a price, with 128 bits behind the point. -/
def reciprocal (n : Nat) : Nat := scaleByBits 128 ladder n (2 ^ 128)

/-- The price of a tick, rounded up to 96 bits behind the point. -/
def priceOf (tick : Int) : Nat :=
  ((if 0 < tick then (2 ^ 256 - 1) / reciprocal tick.natAbs else reciprocal tick.natAbs) +
    (2 ^ 32 - 1)) / 2 ^ 32

theorem fractions : ∀ c ∈ ladder, c ≤ 2 ^ 128 := by decide

theorem toNat_ratio (absTick : U256) : (ratio absTick).toNat = reciprocal absTick.toNat := by
  have consecutive : Consecutive 1 factors := by decide
  have last : (absTick &&& 1).toNat = absTick.toNat % 2 := by
    rw [BitVec.toNat_and]
    exact Nat.and_one_is_mod _
  have first : ((1 <<< 128) ^^^
      (((1 <<< 128) ^^^ 0xfffcb933bd6fad37aa2d162d1a594001) * (absTick &&& 0x1)) : U256).toNat =
      if absTick.toNat % 2 = 1 then 2 ^ 128 * 0xfffcb933bd6fad37aa2d162d1a594001 / 2 ^ 128
      else 2 ^ 128 := by
    by_cases odd : absTick.toNat % 2 = 1
    · have one : absTick &&& 1 = 1 := BitVec.eq_of_toNat_eq (last.trans odd)
      rw [if_pos odd, one]
      decide
    · have zero : absTick &&& 1 = 0 := BitVec.eq_of_toNat_eq (last.trans (by
        rw [Nat.mod_two_ne_one.mp odd]
        rfl))
      rw [if_neg odd, zero]
      decide
  unfold ratio
  dsimp only
  rw [toNat_foldl consecutive, first, reciprocal, ladder, scaleByBits, Nat.pow_one]
  rw [first]
  split
  · decide
  · exact le_rfl

theorem least_reciprocal : leastByBits 128 ladder 887272 (2 ^ 128) = 18447437462383981825 := by
  decide +kernel

theorem reciprocal_bounds {n : Nat} (within : n ≤ 887272) :
    18447437462383981825 ≤ reciprocal n ∧ reciprocal n ≤ 2 ^ 128 := by
  constructor
  · rw [← least_reciprocal]
    exact leastByBits_le fractions within _
  · exact scaleByBits_le fractions _ _

theorem priceOf_bounds {tick : Int} (within : tick.natAbs ≤ 887272) :
    minSqrtPrice.toNat ≤ priceOf tick ∧ priceOf tick ≤ maxSqrtPrice.toNat := by
  obtain ⟨least, most⟩ := reciprocal_bounds within
  have min : minSqrtPrice.toNat = 4295128739 := rfl
  have max : maxSqrtPrice.toNat = 1461446703485210103287273052203988822378723970342 := rfl
  rw [min, max, priceOf]
  generalize reciprocal tick.natAbs = r at least most ⊢
  split
  · have low : (2 ^ 256 - 1) / 2 ^ 128 ≤ (2 ^ 256 - 1) / r :=
      Nat.div_le_div_left most (by omega)
    have high : (2 ^ 256 - 1) / r ≤ (2 ^ 256 - 1) / 18447437462383981825 :=
      Nat.div_le_div_left least (by decide)
    generalize (2 ^ 256 - 1) / r = q at low high ⊢
    omega
  · omega

theorem getSqrtPriceAtTick_eq (tick : BitVec 24) :
    getSqrtPriceAtTick tick =
      if 887272 < tick.toInt.natAbs then .error (.invalidTick tick)
      else .ok (BitVec.ofNat 160 (priceOf tick.toInt)) := by
  have size : maxTick < abs tick ↔ 887272 < tick.toInt.natAbs := by
    rw [BitVec.lt_def, toNat_abs]
    rfl
  rw [getSqrtPriceAtTick, revertIf]
  by_cases invalid : 887272 < tick.toInt.natAbs
  · rw [if_pos invalid, if_pos (size.mpr invalid)]
    rfl
  rw [if_neg invalid, if_neg (mt size.mp invalid)]
  refine congrArg Except.ok ?_
  obtain ⟨least, most⟩ := reciprocal_bounds (Nat.not_lt.mp invalid)
  have value := toNat_ratio (abs tick)
  rw [toNat_abs] at value
  have ones : (~~~0 : U256).toNat = 2 ^ 256 - 1 := rfl
  have price : (if 0 < tick.toInt then (~~~0) / ratio (abs tick) else ratio (abs tick)).toNat =
      if 0 < tick.toInt then (2 ^ 256 - 1) / reciprocal tick.toInt.natAbs
      else reciprocal tick.toInt.natAbs := by
    split
    · rw [BitVec.toNat_udiv, ones, value]
    · exact value
  have fits : (if 0 < tick.toInt then (2 ^ 256 - 1) / reciprocal tick.toInt.natAbs
      else reciprocal tick.toInt.natAbs) ≤ 2 ^ 192 := by
    split
    · have high : (2 ^ 256 - 1) / reciprocal tick.toInt.natAbs ≤
          (2 ^ 256 - 1) / 18447437462383981825 := Nat.div_le_div_left least (by decide)
      exact Nat.le_trans high (by decide)
    · exact Nat.le_trans most (by decide)
  have round : ((1 <<< 32) - 1 : U256).toNat = 2 ^ 32 - 1 := rfl
  have sum : 2 ^ 192 + (2 ^ 32 - 1) < 2 ^ 256 := by decide
  apply BitVec.eq_of_toNat_eq
  rw [BitVec.toNat_setWidth, BitVec.toNat_ushiftRight, BitVec.toNat_add, price, BitVec.toNat_ofNat,
    Nat.shiftRight_eq_div_pow, round,
    Nat.mod_eq_of_lt (Nat.lt_of_le_of_lt (Nat.add_le_add_right fits _) sum), priceOf]

/-- The price of every tick is computed without a wrap and lies between the least and the
greatest price. What is not a tick has none. -/
theorem getSqrtPriceAtTick_range (tick : BitVec 24) :
    if 887272 < tick.toInt.natAbs then getSqrtPriceAtTick tick = .error (.invalidTick tick)
    else ∃ price, getSqrtPriceAtTick tick = .ok price ∧ price.toNat = priceOf tick.toInt ∧
      minSqrtPrice ≤ price ∧ price ≤ maxSqrtPrice := by
  rw [getSqrtPriceAtTick_eq]
  split
  · rfl
  · next valid =>
    obtain ⟨least, most⟩ := priceOf_bounds (Nat.not_lt.mp valid)
    have value : (BitVec.ofNat 160 (priceOf tick.toInt)).toNat = priceOf tick.toInt := by
      rw [BitVec.toNat_ofNat]
      exact Nat.mod_eq_of_lt (Nat.lt_of_le_of_lt most maxSqrtPrice.isLt)
    refine ⟨_, rfl, value, ?_, ?_⟩
    · rw [BitVec.le_def, value]
      exact least
    · rw [BitVec.le_def, value]
      exact most

end HashMiner.Contract.TickMath
