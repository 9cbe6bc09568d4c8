import HashMiner.Types
import Mathlib.Data.List.DropRight
import Mathlib.Tactic.IntervalCases

/-!
# Texts of private keys

Prefixes are taken off before blanks are, and the digits are read from the bytes of what
is left.
-/

namespace HashMiner.Wallet

open Foundation

/-- `trim_start_matches("0x")`. -/
def trimStartMatches : List Char → List Char
  | '0' :: 'x' :: rest => trimStartMatches rest
  | text => text

/-- `char::is_whitespace`. -/
def isWhitespace (c : Char) : Bool :=
  (0x09 ≤ c.toNat && c.toNat ≤ 0x0d) || (0x2000 ≤ c.toNat && c.toNat ≤ 0x200a) ||
    c.toNat ∈ [0x20, 0x85, 0xa0, 0x1680, 0x2028, 0x2029, 0x202f, 0x205f, 0x3000]

def trim (text : List Char) : List Char := (text.dropWhile isWhitespace).rdropWhile isWhitespace

def utf8 (text : List Char) : List Byte :=
  text.flatMap fun c => (String.utf8EncodeChar c).map UInt8.toBitVec

inductive FromHexError where
  | oddLength
  | invalidHexCharacter (c : Byte) (index : Nat)
  deriving DecidableEq, Repr

/-- `{:?}` of a `char` that is one byte. -/
def debugByte (c : Byte) : String :=
  match c.toNat with
  | 0 => "'\\0'"
  | 9 => "'\\t'"
  | 10 => "'\\n'"
  | 13 => "'\\r'"
  | 39 => "'\\''"
  | 92 => "'\\\\'"
  | n =>
    if n < 0x20 ∨ (0x7f ≤ n ∧ n ≤ 0xa0) ∨ n = 0xad then
      "'\\u\x7b" ++ String.ofList (Nat.toDigits 16 n) ++ "\x7d'"
    else "'" ++ String.singleton (Char.ofNat n) ++ "'"

def FromHexError.display : FromHexError → String
  | .oddLength => "Odd number of digits"
  | .invalidHexCharacter c index =>
    "Invalid character " ++ debugByte c ++ " at position " ++ toString index

def hexVal (c : Byte) (index : Nat) : Except FromHexError Byte :=
  if 0x41 ≤ c ∧ c ≤ 0x46 then .ok (c - 0x41 + 10)
  else if 0x61 ≤ c ∧ c ≤ 0x66 then .ok (c - 0x61 + 10)
  else if 0x30 ≤ c ∧ c ≤ 0x39 then .ok (c - 0x30)
  else .error (.invalidHexCharacter c index)

def decodePairs (index : Nat) : List Byte → Except FromHexError (List Byte)
  | high :: low :: rest => do
    let h ← hexVal high index
    let l ← hexVal low (index + 1)
    let bytes ← decodePairs (index + 2) rest
    return (h <<< 4 ||| l) :: bytes
  | _ => return []

/-- `hex::decode`. -/
def decodeHex (text : List Byte) : Except FromHexError (List Byte) :=
  if text.length % 2 ≠ 0 then .error .oddLength else decodePairs 0 text

/-- The key that a text stands for, else the message of the error. -/
def parseKey (text : String) : Except String B256 :=
  let trimmed := trim (trimStartMatches text.toList)
  match decodeHex (utf8 trimmed) with
  | .error e => .error ("invalid hex: " ++ e.display)
  | .ok bytes =>
    if h : bytes.length = 32 then .ok ⟨bytes.toArray, h⟩
    else .error ("private key must be 32 bytes (got " ++ toString bytes.length ++ ")")

section Digits

def byteDigits (b : Byte) : List Char :=
  [Nat.digitChar (b.toNat / 16), Nat.digitChar (b.toNat % 16)]

/-- The plain way to write bytes, in lower case. -/
def hexText (bytes : List Byte) : List Char := bytes.flatMap byteDigits

theorem utf8_append (xs ys : List Char) : utf8 (xs ++ ys) = utf8 xs ++ utf8 ys :=
  List.flatMap_append

theorem digit_read {n : Nat} (digit : n < 16) :
    ∃ c, utf8 [Nat.digitChar n] = [c] ∧ ∀ index, hexVal c index = .ok (BitVec.ofNat 8 n) := by
  interval_cases n <;> exact ⟨_, rfl, fun _ => rfl⟩

theorem nibbles (b : Byte) :
    BitVec.ofNat 8 (b.toNat / 16) <<< 4 ||| BitVec.ofNat 8 (b.toNat % 16) = b := by
  have range := b.isLt
  apply BitVec.eq_of_toNat_eq
  rw [BitVec.toNat_or, BitVec.toNat_shiftLeft, BitVec.toNat_ofNat, BitVec.toNat_ofNat,
    Nat.mod_eq_of_lt (by omega : b.toNat / 16 < 2 ^ 8),
    Nat.mod_eq_of_lt (by omega : b.toNat % 16 < 2 ^ 8), Nat.shiftLeft_eq,
    Nat.mod_eq_of_lt (by omega : b.toNat / 16 * 2 ^ 4 < 2 ^ 8), Nat.mul_comm,
    ← Nat.two_pow_add_eq_or_of_lt (Nat.mod_lt _ (by decide))]
  exact Nat.div_add_mod b.toNat 16

theorem byteDigits_read (b : Byte) (index : Nat) :
    ∃ high low h l, utf8 (byteDigits b) = [high, low] ∧ hexVal high index = .ok h ∧
      hexVal low (index + 1) = .ok l ∧ h <<< 4 ||| l = b := by
  have range := b.isLt
  obtain ⟨high, first, readHigh⟩ := digit_read (by omega : b.toNat / 16 < 16)
  obtain ⟨low, second, readLow⟩ := digit_read (Nat.mod_lt b.toNat (by decide : 0 < 16))
  refine ⟨high, low, _, _, ?_, readHigh index, readLow (index + 1), nibbles b⟩
  change utf8 ([Nat.digitChar (b.toNat / 16)] ++ [Nat.digitChar (b.toNat % 16)]) = _
  rw [utf8_append, first, second]
  rfl

theorem utf8_hexText_cons (b : Byte) (bytes : List Byte) :
    utf8 (hexText (b :: bytes)) = utf8 (byteDigits b) ++ utf8 (hexText bytes) := by
  rw [← utf8_append]
  rfl

theorem length_utf8_hexText (bytes : List Byte) :
    (utf8 (hexText bytes)).length = 2 * bytes.length := by
  induction bytes with
  | nil => rfl
  | cons b bytes ih =>
    obtain ⟨_, _, _, _, text, _⟩ := byteDigits_read b 0
    rw [utf8_hexText_cons, text, List.length_append, ih, List.length_cons, List.length_cons]
    exact Nat.add_comm ..

theorem decodePairs_hexText (bytes : List Byte) (index : Nat) :
    decodePairs index (utf8 (hexText bytes)) = .ok bytes := by
  induction bytes generalizing index with
  | nil => rfl
  | cons b bytes ih =>
    obtain ⟨high, low, h, l, text, first, second, whole⟩ := byteDigits_read b index
    rw [utf8_hexText_cons, text, List.cons_append, List.singleton_append, decodePairs, first,
      second, ih]
    change Except.ok ((h <<< 4 ||| l) :: bytes) = _
    rw [whole]

theorem decodeHex_hexText (bytes : List Byte) : decodeHex (utf8 (hexText bytes)) = .ok bytes := by
  have even : (utf8 (hexText bytes)).length % 2 = 0 := by
    rw [length_utf8_hexText]
    exact Nat.mul_mod_right 2 _
  rw [decodeHex, if_neg (not_not.mpr even)]
  exact decodePairs_hexText bytes 0

theorem digit_plain {n : Nat} (digit : n < 16) :
    Nat.digitChar n ≠ 'x' ∧ isWhitespace (Nat.digitChar n) = false := by
  interval_cases n <;> decide

theorem hexText_plain {bytes : List Byte} {c : Char} (member : c ∈ hexText bytes) :
    c ≠ 'x' ∧ isWhitespace c = false := by
  obtain ⟨b, _, digit⟩ := List.mem_flatMap.mp member
  have range := b.isLt
  rcases List.mem_cons.mp digit with rfl | last
  · exact digit_plain (by omega)
  · rw [List.mem_singleton.mp last]
    exact digit_plain (Nat.mod_lt _ (by decide))

theorem trimStartMatches_hexText (bytes : List Byte) :
    trimStartMatches (hexText bytes) = hexText bytes := by
  unfold trimStartMatches
  split
  · next rest text =>
    have member : 'x' ∈ hexText bytes := by
      rw [text]
      simp
    exact absurd rfl (hexText_plain member).1
  · rfl

theorem trim_hexText (bytes : List Byte) : trim (hexText bytes) = hexText bytes := by
  have front : (hexText bytes).dropWhile isWhitespace = hexText bytes := by
    rw [List.dropWhile_eq_self_iff]
    intro nonempty
    rw [(hexText_plain (List.getElem_mem nonempty)).2]
    nofun
  rw [trim, front, List.rdropWhile_eq_self_iff]
  intro nonempty
  rw [(hexText_plain (List.getLast_mem nonempty)).2]
  nofun

theorem parseKey_hexText (key : B256) :
    parseKey (String.ofList (hexText key.toList)) = .ok key := by
  have plain : trim (trimStartMatches (String.ofList (hexText key.toList)).toList) =
      hexText key.toList := by
    rw [String.toList_ofList, trimStartMatches_hexText, trim_hexText]
  simp only [parseKey, plain, decodeHex_hexText]
  rw [dif_pos key.length_toList]
  rfl

end Digits

end HashMiner.Wallet
