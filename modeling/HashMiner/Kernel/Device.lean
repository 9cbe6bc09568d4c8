import HashMiner.Types

/-!
# Device functions

`rol64` and `bswap64Kernel` are written over the intrinsics `__funnelshift_l` and
`__byte_perm`; here they are shown to be the rotation and the byte swap.
-/

namespace HashMiner.Kernel

open Foundation

/-- `__funnelshift_l`: the high word of `hi:lo` shifted left by `shift & 31`. -/
def funnelshiftL (lo hi shift : U32) : U32 :=
  ((hi ++ lo) <<< (shift &&& 31).toNat).extractLsb' 32 32

/-- `__byte_perm`: byte `n` of the result is the byte of `y:x` that the low three
bits of nibble `n` of `s` select. -/
def bytePerm (x y s : U32) : U32 :=
  let byte (n : Nat) : Byte := (y ++ x).extractLsb' (8 * (s.extractLsb' (4 * n) 3).toNat) 8
  byte 3 ++ byte 2 ++ byte 1 ++ byte 0

def rol64 (x : U64) (n : U32) : U64 :=
  let lo : U32 := x.setWidth 32
  let hi : U32 := (x >>> 32).setWidth 32
  if 32 ≤ n.toNat then
    let m := n - 32
    (funnelshiftL hi lo m).setWidth 64 <<< 32 ||| (funnelshiftL lo hi m).setWidth 64
  else
    (funnelshiftL lo hi n).setWidth 64 <<< 32 ||| (funnelshiftL hi lo n).setWidth 64

def bswap64Kernel (x : U64) : U64 :=
  let lo := bytePerm (x.setWidth 32) 0 0x0123
  let hi := bytePerm ((x >>> 32).setWidth 32) 0 0x0123
  lo.setWidth 64 <<< 32 ||| hi.setWidth 64

theorem join_eq_append (hi lo : U32) :
    (hi.setWidth 64 <<< 32 ||| lo.setWidth 64 : U64) = hi ++ lo := by
  apply BitVec.eq_of_getLsbD_eq
  intro i h
  rw [BitVec.getLsbD_append]
  split
  · next low => simp [h, low]
  · next high =>
    have beyond : lo.getLsbD i = false := BitVec.getLsbD_of_ge _ _ (by omega)
    simp [h, high, beyond]

theorem getLsbD_lowWord (x : U64) (j : Nat) (hj : j < 32) :
    (x.setWidth 32).getLsbD j = x.getLsbD j := by simp [hj]

theorem getLsbD_highWord (x : U64) (j : Nat) (hj : j < 32) :
    ((x >>> 32).setWidth 32).getLsbD j = x.getLsbD (32 + j) := by simp [hj]

theorem getLsbD_funnelshiftL (lo hi shift : U32) (small : shift.toNat < 32) (j : Nat)
    (hj : j < 32) :
    (funnelshiftL lo hi shift).getLsbD j =
      if j < shift.toNat then lo.getLsbD (32 + j - shift.toNat)
      else hi.getLsbD (j - shift.toNat) := by
  have masked : (shift &&& 31).toNat = shift.toNat := by
    rw [BitVec.toNat_and, show (31 : U32).toNat = 2 ^ 5 - 1 from rfl,
      Nat.and_two_pow_sub_one_eq_mod]
    exact Nat.mod_eq_of_lt small
  rw [funnelshiftL, masked]
  generalize shift.toNat = s at small
  have shifted : ¬ 32 + j < s := by omega
  have width : 32 + j < 64 := by omega
  simp only [BitVec.getLsbD_extractLsb', BitVec.getLsbD_shiftLeft, BitVec.getLsbD_append, hj,
    shifted, width, decide_true, decide_false, Bool.true_and, Bool.not_false]
  split
  · next low => rw [if_pos (by omega)]
  · next high => rw [if_neg (by omega), show 32 + j - s - 32 = j - s by omega]

/-- The two branches exchange the words when the distance passes 32. -/
theorem rol64_eq_rotateLeft (x : U64) (n : U32) (small : n.toNat < 64) :
    rol64 x n = x.rotateLeft n.toNat := by
  apply BitVec.eq_of_getLsbD_eq
  intro i hi
  have difference : 32 ≤ n.toNat → (n - 32).toNat = n.toNat - 32 := by
    intro large
    rw [BitVec.toNat_sub_of_le (by simpa [BitVec.le_def] using large)]
    rfl
  rw [rol64, BitVec.getLsbD_rotateLeft_of_le small, decide_eq_true hi, Bool.true_and,
    Bool.cond_decide]
  split
  · next large =>
    have shift := difference large
    rw [join_eq_append, BitVec.getLsbD_append]
    split
    · next low =>
      rw [getLsbD_funnelshiftL _ _ _ (by omega) i low, shift]
      split
      · rw [getLsbD_lowWord _ _ (by omega), if_pos (by omega)]
        congr 1
        omega
      · rw [getLsbD_highWord _ _ (by omega), if_pos (by omega)]
        congr 1
        omega
    · next high =>
      rw [getLsbD_funnelshiftL _ _ _ (by omega) (i - 32) (by omega), shift]
      split
      · rw [getLsbD_highWord _ _ (by omega), if_pos (by omega)]
        congr 1
        omega
      · rw [getLsbD_lowWord _ _ (by omega), if_neg (by omega)]
        congr 1
        omega
  · next small =>
    rw [join_eq_append, BitVec.getLsbD_append]
    split
    · next low =>
      rw [getLsbD_funnelshiftL _ _ _ (by omega) i low]
      split
      · rw [getLsbD_highWord _ _ (by omega)]
        congr 1
        omega
      · rw [getLsbD_lowWord _ _ (by omega)]
    · next high =>
      rw [getLsbD_funnelshiftL _ _ _ (by omega) (i - 32) (by omega),
        if_neg (show ¬ i < n.toNat by omega)]
      split
      · rw [getLsbD_lowWord _ _ (by omega)]
        congr 1
        omega
      · rw [getLsbD_highWord _ _ (by omega)]
        congr 1
        omega

theorem toNat_append_add {m n : Nat} (x : BitVec m) (y : BitVec n) :
    (x ++ y).toNat = x.toNat * 2 ^ n + y.toNat := by
  rw [BitVec.toNat_append, ← Nat.shiftLeft_add_eq_or_of_lt y.isLt, Nat.shiftLeft_eq]

/-- The selector `0x0123` reverses the four bytes of the first word. -/
theorem toNat_bytePerm_reverse (x : U32) :
    (bytePerm x 0 0x0123).toNat = leNat (beBytes 4 x.toNat) := by
  have s0 : ((0x0123 : U32).extractLsb' (4 * 0) 3).toNat = 3 := by decide
  have s1 : ((0x0123 : U32).extractLsb' (4 * 1) 3).toNat = 2 := by decide
  have s2 : ((0x0123 : U32).extractLsb' (4 * 2) 3).toNat = 1 := by decide
  have s3 : ((0x0123 : U32).extractLsb' (4 * 3) 3).toNat = 0 := by decide
  have empty : (0 : U32).toNat = 0 := rfl
  simp only [bytePerm, s0, s1, s2, s3, toNat_append_add, BitVec.extractLsb'_toNat, empty,
    Nat.shiftRight_eq_div_pow]
  simp only [beBytes, leBytes, leNat, List.reverse_cons, List.reverse_nil, List.nil_append,
    List.cons_append, BitVec.toNat_ofNat, Nat.div_div_eq_div_mul]
  norm_num
  ring

theorem toNat_bswap64Kernel (x : U64) :
    (bswap64Kernel x).toNat = leNat (beBytes 8 x.toNat) := by
  have low : x.toNat % 2 ^ 32 = x.toNat % 256 ^ 4 := by norm_num
  have high : x.toNat / 2 ^ 32 % 2 ^ 32 = x.toNat / 256 ^ 4 % 256 ^ 4 := by norm_num
  simp only [bswap64Kernel, join_eq_append, toNat_append_add, toNat_bytePerm_reverse,
    BitVec.toNat_setWidth, BitVec.toNat_ushiftRight, Nat.shiftRight_eq_div_pow]
  rw [low, high, beBytes_mod, beBytes_mod, beBytes_add 4 4, leNat_append, length_beBytes]
  ring

end HashMiner.Kernel
