import Mathlib.Tactic.Ring
import Mathlib.Data.List.Basic

/-!
# Byte strings and the numbers they write

`leNat` and `beNat` read a byte string, `leBytes` and `beBytes` write a number on
a fixed count of bytes. Little-endian carries the recursion; big-endian is its
mirror image.
-/

namespace HashMiner.Foundation

abbrev Byte := BitVec 8

def leNat : List Byte → Nat
  | [] => 0
  | b :: bs => b.toNat + 256 * leNat bs

def beNat (bs : List Byte) : Nat := leNat bs.reverse

def leBytes : Nat → Nat → List Byte
  | 0, _ => []
  | n + 1, x => BitVec.ofNat 8 x :: leBytes n (x / 256)

def beBytes (n x : Nat) : List Byte := (leBytes n x).reverse

/-- The 64-bit word that a little-endian machine loads from eight bytes. -/
def leWord (bs : List Byte) : BitVec 64 := BitVec.ofNat 64 (leNat bs)

def beWord (bs : List Byte) : BitVec 64 := BitVec.ofNat 64 (beNat bs)

@[simp] theorem length_leBytes (n x : Nat) : (leBytes n x).length = n := by
  induction n generalizing x with
  | zero => rfl
  | succ n ih => simp [leBytes, ih]

@[simp] theorem length_beBytes (n x : Nat) : (beBytes n x).length = n := by
  simp [beBytes]

theorem leNat_append (as bs : List Byte) :
    leNat (as ++ bs) = leNat as + 256 ^ as.length * leNat bs := by
  induction as with
  | nil => simp [leNat]
  | cons a as ih =>
    simp only [List.cons_append, leNat, ih, List.length_cons, pow_succ]
    ring

theorem beNat_append (as bs : List Byte) :
    beNat (as ++ bs) = beNat as * 256 ^ bs.length + beNat bs := by
  simp only [beNat, List.reverse_append, leNat_append, List.length_reverse]
  ring

theorem leNat_lt (bs : List Byte) : leNat bs < 256 ^ bs.length := by
  induction bs with
  | nil => simp [leNat]
  | cons b bs ih =>
    have head : b.toNat < 256 := b.isLt
    simp only [leNat, List.length_cons, pow_succ]
    omega

theorem beNat_lt (bs : List Byte) : beNat bs < 256 ^ bs.length := by
  simpa [beNat] using leNat_lt bs.reverse

@[simp] theorem leNat_leBytes (n x : Nat) : leNat (leBytes n x) = x % 256 ^ n := by
  induction n generalizing x with
  | zero => simp [leBytes, leNat, Nat.mod_one]
  | succ n ih =>
    rw [leBytes, leNat, ih, BitVec.toNat_ofNat, pow_succ' 256 n, Nat.mod_mul]

@[simp] theorem beNat_beBytes (n x : Nat) : beNat (beBytes n x) = x % 256 ^ n := by
  simp [beNat, beBytes]

theorem leBytes_leNat (bs : List Byte) : leBytes bs.length (leNat bs) = bs := by
  induction bs with
  | nil => rfl
  | cons b bs ih =>
    have small : b.toNat < 256 := b.isLt
    have low : BitVec.ofNat 8 (b.toNat + 256 * leNat bs) = b := by
      apply BitVec.eq_of_toNat_eq
      rw [BitVec.toNat_ofNat]
      omega
    have upper : (b.toNat + 256 * leNat bs) / 256 = leNat bs := by omega
    rw [List.length_cons, leNat, leBytes, low, upper, ih]

theorem beBytes_beNat (bs : List Byte) : beBytes bs.length (beNat bs) = bs := by
  have mirrored := leBytes_leNat bs.reverse
  rw [List.length_reverse] at mirrored
  rw [beBytes, beNat, mirrored, List.reverse_reverse]

theorem leBytes_add (m n x : Nat) :
    leBytes (m + n) x = leBytes m x ++ leBytes n (x / 256 ^ m) := by
  induction m generalizing x with
  | zero => simp [leBytes]
  | succ m ih =>
    rw [Nat.succ_add]
    simp only [leBytes, ih, List.cons_append, pow_succ', Nat.div_div_eq_div_mul]

theorem beBytes_add (m n x : Nat) :
    beBytes (m + n) x = beBytes m (x / 256 ^ n) ++ beBytes n x := by
  simp [beBytes, Nat.add_comm m n, leBytes_add]

theorem leBytes_mod (n x : Nat) : leBytes n (x % 256 ^ n) = leBytes n x := by
  induction n generalizing x with
  | zero => rfl
  | succ n ih =>
    have lowByte : BitVec.ofNat 8 (x % 256 ^ (n + 1)) = BitVec.ofNat 8 x := by
      apply BitVec.eq_of_toNat_eq
      rw [BitVec.toNat_ofNat, BitVec.toNat_ofNat, pow_succ' 256 n]
      exact Nat.mod_mul_right_mod x 256 (256 ^ n)
    have upper : x % 256 ^ (n + 1) / 256 = x / 256 % 256 ^ n := by
      rw [pow_succ' 256 n, Nat.mod_mul_right_div_self]
    rw [leBytes, leBytes, lowByte, upper, ih]

theorem beBytes_mod (n x : Nat) : beBytes n (x % 256 ^ n) = beBytes n x := by
  rw [beBytes, leBytes_mod, beBytes]

theorem beBytes_zero (n : Nat) : beBytes n 0 = List.replicate n 0 := by
  have zeros : leBytes n 0 = List.replicate n 0 := by
    induction n with
    | zero => rfl
    | succ n ih =>
      rw [leBytes, Nat.zero_div, ih, List.replicate_succ]
      rfl
  rw [beBytes, zeros, List.reverse_replicate]

theorem beBytes_pad (m : Nat) {n x : Nat} (small : x < 256 ^ n) :
    beBytes (m + n) x = List.replicate m 0 ++ beBytes n x := by
  rw [beBytes_add, Nat.div_eq_of_lt small, beBytes_zero]

theorem toNat_leWord {bs : List Byte} (h : bs.length = 8) : (leWord bs).toNat = leNat bs := by
  have bound := leNat_lt bs
  rw [h] at bound
  rw [leWord, BitVec.toNat_ofNat, Nat.mod_eq_of_lt (by simpa using bound)]

theorem toNat_beWord {bs : List Byte} (h : bs.length = 8) : (beWord bs).toNat = beNat bs := by
  have bound := beNat_lt bs
  rw [h] at bound
  rw [beWord, BitVec.toNat_ofNat, Nat.mod_eq_of_lt (by simpa using bound)]

/-- Thirty-two big-endian bytes are four big-endian words, the first one leading. -/
theorem beNat_four {as bs cs ds : List Byte} (hb : bs.length = 8) (hc : cs.length = 8)
    (hd : ds.length = 8) :
    beNat (as ++ bs ++ cs ++ ds) =
      beNat as * 2 ^ 192 + beNat bs * 2 ^ 128 + beNat cs * 2 ^ 64 + beNat ds := by
  simp only [beNat_append, hb, hc, hd]
  norm_num
  ring

theorem beNat_words {bytes : List Byte} (h : bytes.length = 32) :
    beNat bytes = (beWord ((bytes.drop 0).take 8)).toNat * 2 ^ 192 +
      (beWord ((bytes.drop 8).take 8)).toNat * 2 ^ 128 +
      (beWord ((bytes.drop 16).take 8)).toNat * 2 ^ 64 +
      (beWord ((bytes.drop 24).take 8)).toNat := by
  have joined : (bytes.drop 0).take 8 ++ (bytes.drop 8).take 8 ++ (bytes.drop 16).take 8 ++
      (bytes.drop 24).take 8 = bytes := by
    rw [List.drop_zero, ← List.take_add, ← List.take_add, ← List.take_add]
    exact List.take_of_length_le (by omega)
  rw [toNat_beWord (by simp [h]), toNat_beWord (by simp [h]), toNat_beWord (by simp [h]),
    toNat_beWord (by simp [h]), ← beNat_four (by simp [h]) (by simp [h]) (by simp [h]), joined]

end HashMiner.Foundation
