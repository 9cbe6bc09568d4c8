import HashMiner.Foundation.Bytes
import Mathlib.Data.Prod.TProd

/-!
# Contract ABI: the static types

The head of a static value is one word of 32 bytes. Numbers are written big-endian,
with the padding in front; byte strings are padded behind. A list of static values
has no tail, so it is encoded by its heads in order.
-/

namespace HashMiner.Foundation.Abi

inductive Ty where
  | uint (bits : Nat) (le : bits ≤ 256)
  | address
  | bytes (n : Nat) (le : n ≤ 32)

abbrev Ty.Value : Ty → Type
  | .uint bits _ => BitVec bits
  | .address => Vector Byte 20
  | .bytes n _ => Vector Byte n

abbrev Values (ts : List Ty) : Type := List.TProd Ty.Value ts

def uint256 : Ty := .uint 256 (Nat.le_refl 256)

def bytes32 : Ty := .bytes 32 (Nat.le_refl 32)

/-- An address is encoded as a number of 160 bits. -/
def encodeHead : (t : Ty) → t.Value → List Byte
  | .uint _ _, x => beBytes 32 x.toNat
  | .address, a => beBytes 32 (beNat a.toList)
  | .bytes n _, b => b.toList ++ List.replicate (32 - n) 0

def encode : (ts : List Ty) → Values ts → List Byte
  | [], _ => []
  | t :: ts, (v, vs) => encodeHead t v ++ encode ts vs

def vector? (n : Nat) (bs : List Byte) : Option (Vector Byte n) :=
  if h : bs.length = n then some ⟨bs.toArray, h⟩ else none

/-- Padding that is not zero is refused. -/
def decodeHead (word : List Byte) : (t : Ty) → Option t.Value
  | .uint bits _ => if beNat word < 2 ^ bits then some (BitVec.ofNat bits (beNat word)) else none
  | .address => if beNat word < 2 ^ 160 then vector? 20 (beBytes 20 (beNat word)) else none
  | .bytes n _ =>
    if word.drop n = List.replicate (32 - n) 0 then vector? n (word.take n) else none

def decode : (ts : List Ty) → List Byte → Option (Values ts)
  | [], bs => if bs = [] then some ⟨⟩ else none
  | t :: ts, bs =>
    if 32 ≤ bs.length then
      (decodeHead (bs.take 32) t).bind fun v => (decode ts (bs.drop 32)).map fun vs => (v, vs)
    else none

theorem vector?_toList {n : Nat} (b : Vector Byte n) : vector? n b.toList = some b := by
  rw [vector?, dif_pos b.length_toList]
  rfl

@[simp] theorem encodeHead_uint256 (x : BitVec 256) :
    encodeHead uint256 x = beBytes 32 x.toNat := rfl

@[simp] theorem encodeHead_bytes32 (b : Vector Byte 32) : encodeHead bytes32 b = b.toList :=
  List.append_nil b.toList

@[simp] theorem length_encodeHead (t : Ty) (v : t.Value) : (encodeHead t v).length = 32 := by
  cases t with
  | uint | address => exact length_beBytes 32 _
  | bytes n le =>
    rw [encodeHead, List.length_append, Vector.length_toList, List.length_replicate]
    exact Nat.add_sub_of_le le

theorem length_encode (ts : List Ty) (vs : Values ts) :
    (encode ts vs).length = 32 * ts.length := by
  induction ts with
  | nil => rfl
  | cons t ts ih =>
    obtain ⟨v, vs⟩ := vs
    rw [encode, List.length_append, length_encodeHead, ih, List.length_cons, Nat.mul_succ,
      Nat.add_comm]

theorem decodeHead_encodeHead (t : Ty) (v : t.Value) :
    decodeHead (encodeHead t v) t = some v := by
  cases t with
  | uint bits le =>
    have small : v.toNat < 2 ^ bits := v.isLt
    have word : v.toNat < 256 ^ 32 :=
      Nat.lt_of_lt_of_le small (Nat.pow_le_pow_right (by decide) le)
    rw [decodeHead, encodeHead, beNat_beBytes, Nat.mod_eq_of_lt word, if_pos small,
      BitVec.ofNat_toNat, BitVec.setWidth_eq]
  | address =>
    have small := beNat_lt v.toList
    have whole := beBytes_beNat v.toList
    rw [Vector.length_toList] at small whole
    have word : beNat v.toList < 256 ^ 32 :=
      Nat.lt_of_lt_of_le small (Nat.pow_le_pow_right (by decide) (by decide))
    rw [decodeHead, encodeHead, beNat_beBytes, Nat.mod_eq_of_lt word,
      if_pos (Nat.lt_of_lt_of_eq small (by norm_num)), whole, vector?_toList]
  | bytes n le =>
    rw [decodeHead, encodeHead, List.drop_left' v.length_toList,
      List.take_left' v.length_toList, if_pos rfl, vector?_toList]

theorem decode_encode (ts : List Ty) (vs : Values ts) : decode ts (encode ts vs) = some vs := by
  induction ts with
  | nil => rfl
  | cons t ts ih =>
    obtain ⟨v, vs⟩ := vs
    have long : 32 ≤ (encodeHead t v ++ encode ts vs).length := by
      rw [List.length_append, length_encodeHead]
      exact Nat.le_add_right 32 _
    rw [encode, decode, if_pos long, List.take_left' (length_encodeHead t v),
      List.drop_left' (length_encodeHead t v), decodeHead_encodeHead, ih]
    rfl

/-- A function writes its arguments as the encoding of `words`, from which `args`
reads them back. -/
structure Writes {Args : Type} (bytes : Args → List Byte) (ts : List Ty)
    (words : Args → Values ts) (args : Values ts → Args) : Prop where
  encodes : ∀ a, bytes a = encode ts (words a)
  length : ∀ a, (bytes a).length = 32 * ts.length
  decodes : ∀ a, (decode ts (bytes a)).map args = some a
  injective : Function.Injective bytes

theorem writes_of_encodes {Args : Type} {bytes : Args → List Byte} {ts : List Ty}
    {words : Args → Values ts} {args : Values ts → Args}
    (encodes : ∀ a, bytes a = encode ts (words a)) (back : ∀ a, args (words a) = a) :
    Writes bytes ts words args := by
  have decodes : ∀ a, (decode ts (bytes a)).map args = some a := by
    intro a
    rw [encodes, decode_encode, Option.map_some, back]
  refine ⟨encodes, fun a => ?_, decodes, fun a b same => ?_⟩
  · rw [encodes, length_encode]
  · have both := decodes a
    rw [same, decodes b] at both
    exact (Option.some.inj both).symm

end HashMiner.Foundation.Abi
