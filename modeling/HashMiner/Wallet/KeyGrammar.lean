import HashMiner.Wallet.KeyText
import Mathlib.Data.Nat.Digits.Defs

/-!
# Which texts are keys

A key is 64 hexadecimal digits, perhaps after `0x`, and blanks around them. The prefix is
taken off first and as often as it is there, and only then the blanks.
-/

namespace HashMiner.Wallet

open Foundation

/-- The value of a hexadecimal digit, of either case. -/
def digitValue? (c : Char) : Option Nat :=
  if 'A' ≤ c ∧ c ≤ 'F' then some (c.toNat - 'A'.toNat + 10)
  else if 'a' ≤ c ∧ c ≤ 'f' then some (c.toNat - 'a'.toNat + 10)
  else if '0' ≤ c ∧ c ≤ '9' then some (c.toNat - '0'.toNat)
  else none

/-- These 64 digits denote the key in base 16. -/
structure Denotes (digits : List Char) (key : B256) : Prop where
  count : digits.length = 64
  value : ∃ values, digits.mapM digitValue? = some values ∧
    Nat.ofDigits 16 values.reverse = key.value

def Blank (text : List Char) : Prop := ∀ c ∈ text, isWhitespace c = true

/-- The ways to write a key: blanks, at most one `0x`, the digits, blanks. -/
def Writes (text : List Char) (key : B256) : Prop :=
  ∃ before start digits after, text = before ++ (start ++ (digits ++ after)) ∧ Blank before ∧
    (start = [] ∨ start = ['0', 'x']) ∧ Denotes digits key ∧ Blank after

def prefixes : Nat → List Char
  | 0 => []
  | k + 1 => '0' :: 'x' :: prefixes k

/-- The texts that are read in another way: a blank stands before or after the prefix, or
there is more than one. -/
inductive Misread : List Char → Prop
  | blankBefore (before digits after : List Char) (key : B256) : before ≠ [] →
      Blank before → Denotes digits key → Blank after →
      Misread (before ++ (['0', 'x'] ++ (digits ++ after)))
  | blankAfter (between digits after : List Char) (key : B256) : between ≠ [] →
      Blank between → Denotes digits key → Blank after →
      Misread (prefixes 1 ++ (between ++ (digits ++ after)))
  | twice (k : Nat) (between digits after : List Char) (key : B256) : 2 ≤ k →
      Blank between → Denotes digits key → Blank after →
      Misread (prefixes k ++ (between ++ (digits ++ after)))

section Digits

theorem ascii_byte {c : Char} (ascii : c.toNat < 128) :
    utf8 [c] = [BitVec.ofNat 8 c.toNat] := by
  have short : c.toNat ≤ 127 := Nat.le_of_lt_succ ascii
  simp only [utf8, List.flatMap_cons, List.flatMap_nil, List.append_nil, String.utf8EncodeChar,
    Char.toNat_val, short, if_true, List.map_cons, List.map_nil, UInt8.toBitVec_ofNat']

theorem wide_bytes {c : Char} (wide : 128 ≤ c.toNat) :
    ∃ b rest, utf8 [c] = b :: rest ∧ 128 ≤ b.toNat := by
  have long : ¬ c.toNat ≤ 127 := Nat.not_le.mpr wide
  simp only [utf8, List.flatMap_cons, List.flatMap_nil, String.utf8EncodeChar, Char.toNat_val,
    long, if_false]
  split
  · refine ⟨_, _, rfl, ?_⟩
    rw [UInt8.toBitVec_ofNat', BitVec.toNat_ofNat]
    omega
  · split
    · refine ⟨_, _, rfl, ?_⟩
      rw [UInt8.toBitVec_ofNat', BitVec.toNat_ofNat]
      omega
    · refine ⟨_, _, rfl, ?_⟩
      rw [UInt8.toBitVec_ofNat', BitVec.toNat_ofNat]
      omega

theorem digitValue?_eq (c : Char) : digitValue? c =
    if 0x41 ≤ c.toNat ∧ c.toNat ≤ 0x46 then some (c.toNat - 0x41 + 10)
    else if 0x61 ≤ c.toNat ∧ c.toNat ≤ 0x66 then some (c.toNat - 0x61 + 10)
    else if 0x30 ≤ c.toNat ∧ c.toNat ≤ 0x39 then some (c.toNat - 0x30)
    else none := rfl

theorem hexVal_ascii {c : Char} (ascii : c.toNat < 128) (index : Nat) :
    hexVal (BitVec.ofNat 8 c.toNat) index =
      match digitValue? c with
      | some v => .ok (BitVec.ofNat 8 v)
      | none => .error (.invalidHexCharacter (BitVec.ofNat 8 c.toNat) index) := by
  have range : c.toNat < 2 ^ 8 := by omega
  rw [digitValue?_eq]
  unfold hexVal
  simp only [BitVec.le_def, BitVec.toNat_ofNat, Nat.mod_eq_of_lt range]
  change (if 0x41 ≤ c.toNat ∧ c.toNat ≤ 0x46 then _ else
    if 0x61 ≤ c.toNat ∧ c.toNat ≤ 0x66 then _ else
    if 0x30 ≤ c.toNat ∧ c.toNat ≤ 0x39 then _ else _) = _
  split_ifs with upper lower digit
  · have value := BitVec.ofNat_sub_ofNat_of_le c.toNat 0x41 (w := 8) (by decide) upper.1
    exact congrArg Except.ok ((congrArg (· + 10) value).trans (BitVec.ofNat_add _ 10).symm)
  · have value := BitVec.ofNat_sub_ofNat_of_le c.toNat 0x61 (w := 8) (by decide) lower.1
    exact congrArg Except.ok ((congrArg (· + 10) value).trans (BitVec.ofNat_add _ 10).symm)
  · have value := BitVec.ofNat_sub_ofNat_of_le c.toNat 0x30 (w := 8) (by decide) digit.1
    exact congrArg Except.ok value
  · rfl

theorem digitValue?_wide {c : Char} (wide : 128 ≤ c.toNat) : digitValue? c = none := by
  rw [digitValue?_eq]
  split_ifs <;> first | rfl | omega

theorem hexVal_high {b : Byte} (high : 128 ≤ b.toNat) (index : Nat) :
    hexVal b index = .error (.invalidHexCharacter b index) := by
  unfold hexVal
  simp only [BitVec.le_def]
  split_ifs with upper lower digit
  · exact absurd (Nat.le_trans high upper.2) (by decide)
  · exact absurd (Nat.le_trans high lower.2) (by decide)
  · exact absurd (Nat.le_trans high digit.2) (by decide)
  · rfl

/-- A digit is one byte, which is read as its value. -/
theorem digit_byte {c : Char} {v : Nat} (value : digitValue? c = some v) :
    ∃ b, utf8 [c] = [b] ∧ ∀ index, hexVal b index = .ok (BitVec.ofNat 8 v) := by
  have ascii : c.toNat < 128 := by
    by_contra wide
    cases value.symm.trans (digitValue?_wide (Nat.not_lt.mp wide))
  refine ⟨_, ascii_byte ascii, fun index => ?_⟩
  rw [hexVal_ascii ascii, value]

/-- The first byte of any other character is refused. -/
theorem other_byte {c : Char} (none : digitValue? c = none) :
    ∃ b rest, utf8 [c] = b :: rest ∧
      ∀ index, hexVal b index = .error (.invalidHexCharacter b index) := by
  by_cases ascii : c.toNat < 128
  · refine ⟨_, _, ascii_byte ascii, fun index => ?_⟩
    rw [hexVal_ascii ascii, none]
  · obtain ⟨b, rest, bytes, high⟩ := wide_bytes (Nat.not_lt.mp ascii)
    exact ⟨b, rest, bytes, hexVal_high high⟩

theorem digitValue?_lt {c : Char} {v : Nat} (value : digitValue? c = some v) : v < 16 := by
  rw [digitValue?_eq] at value
  split_ifs at value <;> cases value <;> omega

theorem utf8_cons (c : Char) (text : List Char) : utf8 (c :: text) = utf8 [c] ++ utf8 text :=
  utf8_append [c] text

theorem toNat_nibbles {high low : Nat} (first : high < 16) (second : low < 16) :
    (BitVec.ofNat 8 high <<< 4 ||| BitVec.ofNat 8 low).toNat = 16 * high + low := by
  have byte : (BitVec.ofNat 8 (16 * high + low)).toNat = 16 * high + low := by
    rw [BitVec.toNat_ofNat]
    omega
  have whole := nibbles (BitVec.ofNat 8 (16 * high + low))
  rw [byte, Nat.mul_add_div (by decide), Nat.div_eq_of_lt second, Nat.mul_add_mod,
    Nat.mod_eq_of_lt second, Nat.add_zero] at whole
  rw [whole, byte]

theorem mapM_cons_some {c : Char} {text : List Char} {values : List Nat} :
    (c :: text).mapM digitValue? = some values ↔
      ∃ v rest, digitValue? c = some v ∧ text.mapM digitValue? = some rest ∧
        values = v :: rest := by
  simp only [List.mapM_cons, Option.bind_eq_bind, Option.bind_eq_some_iff, Option.pure_def,
    Option.some.injEq]
  constructor
  · rintro ⟨v, value, rest, others, rfl⟩
    exact ⟨v, rest, value, others, rfl⟩
  · rintro ⟨v, rest, value, others, rfl⟩
    exact ⟨v, value, rest, others, rfl⟩

/-- Pairs of digits are read as the bytes of their number. -/
theorem decodePairs_values {n : Nat} {text : List Char} {values : List Nat}
    (pairs : text.length = 2 * n) (read : text.mapM digitValue? = some values) (index : Nat) :
    ∃ bytes, decodePairs index (utf8 text) = .ok bytes ∧ bytes.length = n ∧
      (utf8 text).length = 2 * n ∧ values.length = 2 * n ∧
      beNat bytes = Nat.ofDigits 16 values.reverse := by
  induction n generalizing text values index with
  | zero =>
    cases List.eq_nil_of_length_eq_zero pairs
    cases read
    exact ⟨[], rfl, rfl, rfl, rfl, rfl⟩
  | succ n ih =>
    obtain ⟨c, d, rest, rfl⟩ : ∃ c d rest, text = c :: d :: rest := by
      match text, pairs with
      | c :: d :: rest, _ => exact ⟨c, d, rest, rfl⟩
    obtain ⟨high, _, first, more, rfl⟩ := mapM_cons_some.mp read
    obtain ⟨low, vs, second, others, rfl⟩ := mapM_cons_some.mp more
    have fewer : rest.length = 2 * n := by
      rw [List.length_cons, List.length_cons] at pairs
      omega
    obtain ⟨bytes, decoded, count, width, length, number⟩ := ih fewer others (index + 2)
    obtain ⟨b, one, readHigh⟩ := digit_byte first
    obtain ⟨b', one', readLow⟩ := digit_byte second
    have text : utf8 (c :: d :: rest) = b :: b' :: utf8 rest := by
      rw [utf8_cons c, one, utf8_cons d, one']
      rfl
    refine ⟨(BitVec.ofNat 8 high <<< 4 ||| BitVec.ofNat 8 low) :: bytes, ?_, ?_, ?_, ?_, ?_⟩
    · rw [text, decodePairs, readHigh, readLow, decoded]
      rfl
    · rw [List.length_cons, count]
    · rw [text, List.length_cons, List.length_cons, width]
      rfl
    · rw [List.length_cons, List.length_cons, length]
      rfl
    · have byte := toNat_nibbles (digitValue?_lt first) (digitValue?_lt second)
      have single : beNat [BitVec.ofNat 8 high <<< 4 ||| BitVec.ofNat 8 low] =
          16 * high + low := byte
      have front := beNat_append [BitVec.ofNat 8 high <<< 4 ||| BitVec.ofNat 8 low] bytes
      rw [List.singleton_append, single, number, count] at front
      rw [front, List.reverse_cons, List.reverse_cons, Nat.ofDigits_append, Nat.ofDigits_append,
        Nat.ofDigits_singleton, Nat.ofDigits_singleton, List.length_append, List.length_reverse,
        List.length_singleton, length, pow_succ, pow_mul]
      norm_num
      ring

theorem decodePairs_refused {b : Byte} {rest bytes : List Byte} {index : Nat}
    (even : (b :: rest).length % 2 = 0)
    (refused : hexVal b index = .error (.invalidHexCharacter b index)) :
    decodePairs index (b :: rest) ≠ .ok bytes := by
  cases rest with
  | nil => cases even
  | cons low rest =>
    rw [decodePairs, refused]
    intro decoded
    cases decoded

theorem decodePairs_cons {b low : Byte} {rest bytes : List Byte} {index : Nat}
    (decoded : decodePairs index (b :: low :: rest) = .ok bytes) :
    (∃ v, hexVal low (index + 1) = .ok v) ∧
      ∃ bytes, decodePairs (index + 2) rest = .ok bytes := by
  rw [decodePairs] at decoded
  cases high : hexVal b index with
  | error e =>
    rw [high] at decoded
    cases decoded
  | ok h =>
    cases second : hexVal low (index + 1) with
    | error e =>
      rw [high, second] at decoded
      cases decoded
    | ok l =>
      cases others : decodePairs (index + 2) rest with
      | error e =>
        rw [high, second, others] at decoded
        cases decoded
      | ok more => exact ⟨⟨l, rfl⟩, more, rfl⟩

/-- Nothing else is read. -/
theorem values_of_decodePairs {text : List Char} {index : Nat} {bytes : List Byte}
    (even : (utf8 text).length % 2 = 0) (decoded : decodePairs index (utf8 text) = .ok bytes) :
    ∃ values, text.mapM digitValue? = some values := by
  induction text using List.twoStepInduction generalizing index bytes with
  | nil => exact ⟨[], rfl⟩
  | singleton c =>
    cases value : digitValue? c with
    | some v =>
      obtain ⟨b, one, _⟩ := digit_byte value
      rw [one] at even
      cases even
    | none =>
      obtain ⟨b, rest, text, refused⟩ := other_byte value
      rw [text] at even decoded
      exact absurd decoded (decodePairs_refused even (refused index))
  | cons_cons c d rest ih =>
    cases first : digitValue? c with
    | none =>
      obtain ⟨b, more, text, refused⟩ := other_byte first
      rw [utf8_cons, text, List.cons_append] at even decoded
      exact absurd decoded (decodePairs_refused even (refused index))
    | some high =>
      obtain ⟨b, one, _⟩ := digit_byte first
      cases second : digitValue? d with
      | none =>
        obtain ⟨b', more, text, refused⟩ := other_byte second
        rw [utf8_cons c, one, utf8_cons d, text] at decoded
        obtain ⟨⟨v, read⟩, _⟩ := decodePairs_cons decoded
        cases read.symm.trans (refused _)
      | some low =>
        obtain ⟨b', one', _⟩ := digit_byte second
        rw [utf8_cons c, one, utf8_cons d, one'] at even decoded
        obtain ⟨_, more, others⟩ := decodePairs_cons decoded
        have fewer : (utf8 rest).length % 2 = 0 := by
          rw [List.singleton_append, List.singleton_append, List.length_cons,
            List.length_cons] at even
          omega
        obtain ⟨values, read⟩ := ih fewer others
        exact ⟨_, mapM_cons_some.mpr ⟨high, _, first,
          mapM_cons_some.mpr ⟨low, _, second, read, rfl⟩, rfl⟩⟩

theorem length_utf8_values {text : List Char} {values : List Nat}
    (read : text.mapM digitValue? = some values) : (utf8 text).length = text.length := by
  induction text generalizing values with
  | nil => rfl
  | cons c text ih =>
    obtain ⟨v, rest, value, others, _⟩ := mapM_cons_some.mp read
    obtain ⟨b, one, _⟩ := digit_byte value
    rw [utf8_cons, one, List.length_append, ih others]
    exact Nat.add_comm 1 _

theorem decodeHex_iff {digits : List Char} {key : B256} :
    decodeHex (utf8 digits) = .ok key.toList ↔ Denotes digits key := by
  constructor
  · intro decoded
    unfold decodeHex at decoded
    split at decoded
    · cases decoded
    next odd =>
    have even := not_not.mp odd
    obtain ⟨values, read⟩ := values_of_decodePairs even decoded
    rw [length_utf8_values read] at even
    have pairs : digits.length = 2 * (digits.length / 2) := by omega
    obtain ⟨bytes, same, count, _, _, number⟩ := decodePairs_values pairs read 0
    cases same.symm.trans decoded
    rw [Vector.length_toList] at count
    exact ⟨by omega, values, read, number.symm⟩
  · rintro ⟨count, values, read, number⟩
    obtain ⟨bytes, decoded, length, width, _, value⟩ := decodePairs_values (n := 32) count read 0
    have same : bytes = key.toList := by
      have written := beBytes_beNat bytes
      rw [value, number, length, B256.value] at written
      have original := beBytes_beNat key.toList
      rw [key.length_toList] at original
      exact written.symm.trans original
    rw [decodeHex, if_neg (by rw [width]; decide), decoded, same]

end Digits

section Trimming

theorem trimStartMatches_prefixes (k : Nat) (rest : List Char) :
    trimStartMatches (prefixes k ++ rest) = trimStartMatches rest := by
  induction k with
  | zero => rfl
  | succ k ih => exact ih

theorem exists_prefixes (text : List Char) :
    ∃ k, text = prefixes k ++ trimStartMatches text := by
  induction text using trimStartMatches.induct with
  | case1 rest ih =>
    obtain ⟨k, split⟩ := ih
    refine ⟨k + 1, ?_⟩
    rw [trimStartMatches]
    exact congrArg ('0' :: 'x' :: ·) split
  | case2 text other =>
    refine ⟨0, ?_⟩
    rw [trimStartMatches]
    · rfl
    · exact other

theorem exists_blanks (text : List Char) :
    ∃ before after, text = before ++ (trim text ++ after) ∧ Blank before ∧ Blank after := by
  refine ⟨text.takeWhile isWhitespace, (text.dropWhile isWhitespace).rtakeWhile isWhitespace,
    ?_, fun c member => List.mem_takeWhile_imp member, fun c member =>
      List.mem_rtakeWhile_imp member⟩
  rw [trim, List.rdropWhile_append_rtakeWhile, List.takeWhile_append_dropWhile]

theorem trim_blanks {before digits after : List Char} (first : Blank before)
    (plain : ∀ c ∈ digits, isWhitespace c = false) (nonempty : digits ≠ [])
    (last : Blank after) : trim (before ++ (digits ++ after)) = digits := by
  have front : (digits ++ after).dropWhile isWhitespace = digits ++ after := by
    rw [List.dropWhile_eq_self_iff]
    intro _
    rw [List.getElem_append_left (List.length_pos_of_ne_nil nonempty),
      plain _ (List.getElem_mem _)]
    nofun
  have back : digits.reverse.dropWhile isWhitespace = digits.reverse := by
    rw [List.dropWhile_eq_self_iff]
    intro _
    rw [plain _ (List.mem_reverse.mp (List.getElem_mem _))]
    nofun
  have blank : ∀ c ∈ after.reverse, isWhitespace c = true :=
    fun c member => last c (List.mem_reverse.mp member)
  rw [trim, List.dropWhile_append_of_pos first, front, List.rdropWhile, List.reverse_append,
    List.dropWhile_append_of_pos blank, back, List.reverse_reverse]

end Trimming

variable {text digits before after : List Char} {key : B256}

theorem values_of_mem {values : List Nat} {c : Char} (read : digits.mapM digitValue? = some values)
    (member : c ∈ digits) : ∃ v, digitValue? c = some v := by
  induction digits generalizing values with
  | nil => cases member
  | cons d digits ih =>
    obtain ⟨v, rest, value, others, _⟩ := mapM_cons_some.mp read
    rcases List.mem_cons.mp member with rfl | later
    · exact ⟨v, value⟩
    · exact ih others later

/-- A digit is neither a blank nor the `x` of the prefix. -/
theorem digit_distinct {c : Char} {v : Nat} (value : digitValue? c = some v) :
    isWhitespace c = false ∧ c ≠ 'x' := by
  have range : (0x30 ≤ c.toNat ∧ c.toNat ≤ 0x39) ∨ (0x41 ≤ c.toNat ∧ c.toNat ≤ 0x46) ∨
      (0x61 ≤ c.toNat ∧ c.toNat ≤ 0x66) := by
    rw [digitValue?_eq] at value
    split_ifs at value <;> omega
  constructor
  · simp [isWhitespace]
    omega
  · rintro rfl
    revert range
    decide

theorem Denotes.distinct (denotes : Denotes digits key) {c : Char} (member : c ∈ digits) :
    isWhitespace c = false ∧ c ≠ 'x' := by
  obtain ⟨values, read, _⟩ := denotes.value
  obtain ⟨v, value⟩ := values_of_mem read member
  exact digit_distinct value

/-- The digits and the blanks before them do not begin with a prefix. -/
theorem Denotes.no_prefix (denotes : Denotes digits key) (blank : Blank before)
    (rest : List Char) : before ++ (digits ++ after) ≠ '0' :: 'x' :: rest := by
  intro same
  cases before with
  | cons c before =>
    injection same with head _
    subst head
    exact absurd (blank '0' List.mem_cons_self) (by decide)
  | nil =>
    match digits, denotes.count with
    | c :: d :: digits, _ =>
      cases same
      exact (denotes.distinct (List.mem_cons_of_mem _ List.mem_cons_self)).2 rfl

theorem Denotes.nonempty (denotes : Denotes digits key) : digits ≠ [] := by
  rintro rfl
  exact absurd denotes.count (by decide)

theorem parseKey_iff {s : String} :
    parseKey s = .ok key ↔ ∃ k before digits after,
      s.toList = prefixes k ++ (before ++ (digits ++ after)) ∧ Blank before ∧
        Denotes digits key ∧ Blank after := by
  constructor
  · intro parsed
    obtain ⟨k, whole⟩ := exists_prefixes s.toList
    obtain ⟨before, after, rest, first, last⟩ := exists_blanks (trimStartMatches s.toList)
    refine ⟨k, before, trim (trimStartMatches s.toList), after,
      whole.trans (congrArg (prefixes k ++ ·) rest), first, ?_, last⟩
    · simp only [parseKey] at parsed
      split at parsed
      · cases parsed
      next bytes decoded =>
      split at parsed <;> cases parsed
      next count => exact decodeHex_iff.mp decoded
  · rintro ⟨k, before, digits, after, text, first, denotes, last⟩
    have start : trimStartMatches (before ++ (digits ++ after)) = before ++ (digits ++ after) := by
      rw [trimStartMatches]
      exact fun rest same => denotes.no_prefix first rest same
    have trimmed : trim (trimStartMatches s.toList) = digits := by
      rw [text, trimStartMatches_prefixes, start]
      exact trim_blanks first (fun c member => (denotes.distinct member).1) denotes.nonempty last
    simp only [parseKey, trimmed, decodeHex_iff.mpr denotes]
    rw [dif_pos key.length_toList]
    rfl

/-- A text that begins with the prefix writes what comes after it. -/
theorem Writes.after_prefix {rest : List Char} (writes : Writes ('0' :: 'x' :: rest) key) :
    ∃ digits after, rest = digits ++ after ∧ Denotes digits key := by
  obtain ⟨before, start, digits, after, text, first, begins, denotes, _⟩ := writes
  have none : before = [] := by
    cases before with
    | nil => rfl
    | cons c before =>
      injection text with head _
      subst head
      exact absurd (first '0' List.mem_cons_self) (by decide)
  subst none
  rcases begins with rfl | rfl
  · exact absurd text.symm (denotes.no_prefix first rest)
  · cases text
    exact ⟨digits, after, rfl, denotes⟩

/-- A blank before the prefix stays there. -/
theorem parseKey_blankBefore {s : String} {rest : List Char} (text : s.toList = before ++ rest)
    (some : before ≠ []) (blank : Blank before) (starts : ∃ more, rest = '0' :: 'x' :: more) :
    parseKey s ≠ .ok key := by
  intro parsed
  obtain ⟨more, rfl⟩ := starts
  obtain ⟨k, before', digits, after, text', first, denotes, _⟩ := parseKey_iff.mp parsed
  rw [text] at text'
  match k with
  | k + 1 =>
    cases before with
    | nil => exact some rfl
    | cons c before =>
      injection text' with head _
      subst head
      exact absurd (blank '0' List.mem_cons_self) (by decide)
  | 0 =>
    have trimmed := congrArg (List.dropWhile isWhitespace) text'
    have stays : ('0' :: 'x' :: more).dropWhile isWhitespace = '0' :: 'x' :: more := rfl
    rw [prefixes, List.nil_append, List.dropWhile_append_of_pos blank, stays,
      List.dropWhile_append_of_pos first] at trimmed
    have front : (digits ++ after).dropWhile isWhitespace = digits ++ after := by
      match digits, denotes with
      | c :: digits, denotes =>
        rw [List.cons_append, List.dropWhile_cons_of_neg]
        rw [(denotes.distinct List.mem_cons_self).1]
        nofun
      | [], denotes => exact absurd rfl denotes.nonempty
    rw [front] at trimmed
    exact denotes.no_prefix (nofun : Blank []) more trimmed.symm

/-- A misread text is one that is read as a key and writes none, or the other way round. -/
theorem Misread.differs {s : String} (misread : Misread s.toList) :
    ¬ ∀ key, parseKey s = .ok key ↔ Writes s.toList key := by
  intro exact
  generalize text : s.toList = t at misread
  cases misread with
  | blankBefore before digits after key some blank denotes last =>
    have writes : Writes s.toList key :=
      ⟨before, _, digits, after, text, blank, .inr rfl, denotes, last⟩
    exact parseKey_blankBefore text some blank ⟨_, rfl⟩ ((exact key).mpr writes)
  | blankAfter between digits after key some blank denotes last =>
    have parsed : parseKey s = .ok key :=
      parseKey_iff.mpr ⟨1, between, digits, after, text, blank, denotes, last⟩
    have writes := (exact key).mp parsed
    rw [text] at writes
    obtain ⟨digits', after', same, denotes'⟩ := writes.after_prefix
    cases between with
    | nil => exact some rfl
    | cons c between =>
      cases digits' with
      | nil => exact denotes'.nonempty rfl
      | cons d digits' =>
        injection same with head _
        subst head
        have plain := (denotes'.distinct List.mem_cons_self).1
        rw [blank c List.mem_cons_self] at plain
        cases plain
  | twice k between digits after key more blank denotes last =>
    have parsed : parseKey s = .ok key :=
      parseKey_iff.mpr ⟨k, between, digits, after, text, blank, denotes, last⟩
    have writes := (exact key).mp parsed
    rw [text] at writes
    match k, more with
    | k + 2, _ =>
      obtain ⟨digits', after', same, denotes'⟩ := writes.after_prefix
      exact denotes'.no_prefix (nofun : Blank []) _ same.symm

theorem parseKey_plain {s : String} (plain : ¬ Misread s.toList) (key : B256) :
    parseKey s = .ok key ↔ Writes s.toList key := by
  constructor
  · intro parsed
    obtain ⟨k, before, digits, after, text, first, denotes, last⟩ := parseKey_iff.mp parsed
    match k with
    | 0 => exact ⟨before, [], digits, after, text, first, .inl rfl, denotes, last⟩
    | 1 =>
      have none : before = [] := by
        by_contra some
        exact plain (text ▸ .blankAfter before digits after key some first denotes last)
      subst none
      exact ⟨[], _, digits, after, text, first, .inr rfl, denotes, last⟩
    | k + 2 =>
      exact absurd (text ▸ .twice (k + 2) before digits after key (by omega) first denotes last)
        plain
  · rintro ⟨before, start, digits, after, text, first, rfl | rfl, denotes, last⟩
    · exact parseKey_iff.mpr ⟨0, before, digits, after, text, first, denotes, last⟩
    · have none : before = [] := by
        by_contra some
        exact plain (text ▸ .blankBefore before digits after key some first denotes last)
      subst none
      exact parseKey_iff.mpr ⟨1, [], digits, after, text, first, denotes, last⟩

/-- A text is read as the key that it writes, or refused when it writes none, exactly when
no blank stands next to the prefix and there is one prefix at most. -/
theorem parseKey_exact_iff (s : String) :
    (∀ key, parseKey s = .ok key ↔ Writes s.toList key) ↔ ¬ Misread s.toList := by
  constructor
  · intro exact misread
    exact misread.differs exact
  · intro plain key
    exact parseKey_plain plain key

/-- The plain text of a key, after `0x` and a blank before that. -/
def pastedText (key : B256) : String := String.ofList (' ' :: '0' :: 'x' :: hexText key.toList)

theorem pasted_key_refused :
    ¬ ∀ key, parseKey (pastedText (Vector.replicate 32 0x42)) = .ok key ↔
      Writes (pastedText (Vector.replicate 32 0x42)).toList key := by
  intro exact
  let key : B256 := Vector.replicate 32 0x42
  have text : (pastedText key).toList = [' '] ++ ('0' :: 'x' :: hexText key.toList) :=
    String.toList_ofList
  have blank : Blank [' '] := by
    intro c member
    cases List.mem_singleton.mp member
    rfl
  have writes : Writes (pastedText key).toList key :=
    ⟨[' '], ['0', 'x'], hexText key.toList, [], by rw [text, List.append_nil]; rfl, blank, .inr rfl,
      decodeHex_iff.mp (decodeHex_hexText key.toList), nofun⟩
  exact parseKey_blankBefore text nofun blank ⟨_, rfl⟩ ((exact key).mpr writes)

end HashMiner.Wallet
