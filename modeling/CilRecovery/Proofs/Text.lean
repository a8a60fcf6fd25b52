import CilRecovery.Text
import Mathlib.Data.List.Basic

/-!
# Text in bytes
-/

set_option autoImplicit false

namespace CilRecovery.Utf8

/-!
## Text survives its encoding

A character is encoded in one to four bytes. Each width has lead bytes of its own, and the second
byte rules out overlong forms, surrogates and values past the last code point, so that decoding
takes exactly the bytes of one character and gives it back.
-/

/-! ### One character -/

section

variable {char : Char} {lead second third fourth : UInt8}

private theorem codePoint_eq {number : Nat} {continuations : Bytes}
    (leadValue : continuations.foldl (fun value byte => value * 64 + byte.toNat % 64) number =
      char.toNat) : codePoint number continuations = char := by
  rw [codePoint, leadValue, Char.ofNat_toNat]

private theorem isContinuation_of_toNat {number : Nat}
    (value : second.toNat = number % 64 + 128) : isContinuation second = true := by
  refine between_iff.mpr ?_
  change 0x80 ≤ second.toNat ∧ second.toNat ≤ 0xBF
  omega

private theorem isSecondOfThree_of_toNat (leadValue : lead.toNat = char.toNat / 4096 + 224)
    (secondValue : second.toNat = char.toNat / 64 % 64 + 128) (many : 0x800 ≤ char.toNat) :
    isSecondOfThree lead second = true := by
  have noSurrogate : char.toNat < 0xD800 ∨ 0xDFFF < char.toNat := char.valid.imp id And.left
  unfold isSecondOfThree
  by_cases least : lead = 0xE0
  · have value : lead.toNat = 0xE0 := congrArg UInt8.toNat least
    rw [if_pos least, between_iff]
    change 0xA0 ≤ second.toNat ∧ second.toNat ≤ 0xBF
    omega
  · rw [if_neg least]
    by_cases surrogate : lead = 0xED
    · have value : lead.toNat = 0xED := congrArg UInt8.toNat surrogate
      rw [if_pos surrogate, between_iff]
      change 0x80 ≤ second.toNat ∧ second.toNat ≤ 0x9F
      omega
    · rw [if_neg surrogate]
      exact isContinuation_of_toNat secondValue

private theorem isSecondOfFour_of_toNat (leadValue : lead.toNat = char.toNat / 262144 + 240)
    (secondValue : second.toNat = char.toNat / 4096 % 64 + 128) (many : 0x10000 ≤ char.toNat)
    (few : char.toNat < 0x110000) : isSecondOfFour lead second = true := by
  unfold isSecondOfFour
  by_cases least : lead = 0xF0
  · have value : lead.toNat = 0xF0 := congrArg UInt8.toNat least
    rw [if_pos least, between_iff]
    change 0x90 ≤ second.toNat ∧ second.toNat ≤ 0xBF
    omega
  · rw [if_neg least]
    by_cases greatest : lead = 0xF4
    · have value : lead.toNat = 0xF4 := congrArg UInt8.toNat greatest
      rw [if_pos greatest, between_iff]
      change 0x80 ≤ second.toNat ∧ second.toNat ≤ 0x8F
      omega
    · rw [if_neg greatest]
      exact isContinuation_of_toNat secondValue

/-! Leads of the four widths -/

private theorem lt_0x80_iff (lead : UInt8) : lead < 0x80 ↔ lead.toNat < 0x80 :=
  UInt8.lt_iff_toNat_lt

private theorem isLeadOfTwo_iff (lead : UInt8) : (0xC2 ≤ lead && lead ≤ 0xDF) = true ↔
    0xC2 ≤ lead.toNat ∧ lead.toNat ≤ 0xDF := between_iff

private theorem isLeadOfThree_iff (lead : UInt8) : (0xE0 ≤ lead && lead ≤ 0xEF) = true ↔
    0xE0 ≤ lead.toNat ∧ lead.toNat ≤ 0xEF := between_iff

private theorem isLeadOfFour_iff (lead : UInt8) : (0xF0 ≤ lead && lead ≤ 0xF4) = true ↔
    0xF0 ≤ lead.toNat ∧ lead.toNat ≤ 0xF4 := between_iff

variable (index : Nat) (rest : Bytes)

private theorem decodeFrom_one (leadValue : lead.toNat = char.toNat) (few : char.toNat < 0x80) :
    decodeFrom index (lead :: rest) = (decodeFrom (index + 1) rest).map (char :: ·) := by
  have point : codePoint lead.toNat [] = char := codePoint_eq leadValue
  rw [decodeFrom.eq_def]
  dsimp only
  rw [if_pos ((lt_0x80_iff lead).mpr (by omega)), point]

private theorem decodeFrom_two (leadValue : lead.toNat = char.toNat / 64 + 192)
    (secondValue : second.toNat = char.toNat % 64 + 128) (many : 0x80 ≤ char.toNat)
    (few : char.toNat < 0x800) :
    decodeFrom index (lead :: second :: rest) =
      (decodeFrom (index + 2) rest).map (char :: ·) := by
  have notOne := mt (lt_0x80_iff lead).mp (by omega)
  have two := (isLeadOfTwo_iff lead).mpr (by omega)
  have point : codePoint (lead.toNat % 32) [second] = char := codePoint_eq (by
    simp only [List.foldl_cons, List.foldl_nil, leadValue, secondValue]
    omega)
  rw [decodeFrom.eq_def]
  dsimp only
  rw [if_neg notOne, if_pos two, if_pos (isContinuation_of_toNat secondValue), point]

private theorem decodeFrom_three (leadValue : lead.toNat = char.toNat / 4096 + 224)
    (secondValue : second.toNat = char.toNat / 64 % 64 + 128)
    (thirdValue : third.toNat = char.toNat % 64 + 128) (many : 0x800 ≤ char.toNat)
    (few : char.toNat < 0x10000) :
    decodeFrom index (lead :: second :: third :: rest) =
      (decodeFrom (index + 3) rest).map (char :: ·) := by
  have notOne := mt (lt_0x80_iff lead).mp (by omega)
  have notTwo := mt (isLeadOfTwo_iff lead).mp (by omega)
  have three := (isLeadOfThree_iff lead).mpr (by omega)
  have allowed := isSecondOfThree_of_toNat leadValue secondValue many
  have point : codePoint (lead.toNat % 16) [second, third] = char := codePoint_eq (by
    simp only [List.foldl_cons, List.foldl_nil, leadValue, secondValue, thirdValue]
    omega)
  rw [decodeFrom.eq_def]
  dsimp only
  rw [if_neg notOne, if_neg notTwo, if_pos three, if_pos allowed,
    if_pos (isContinuation_of_toNat thirdValue), point]

private theorem decodeFrom_four (leadValue : lead.toNat = char.toNat / 262144 + 240)
    (secondValue : second.toNat = char.toNat / 4096 % 64 + 128)
    (thirdValue : third.toNat = char.toNat / 64 % 64 + 128)
    (fourthValue : fourth.toNat = char.toNat % 64 + 128) (many : 0x10000 ≤ char.toNat)
    (few : char.toNat < 0x110000) :
    decodeFrom index (lead :: second :: third :: fourth :: rest) =
      (decodeFrom (index + 4) rest).map (char :: ·) := by
  have notOne := mt (lt_0x80_iff lead).mp (by omega)
  have notTwo := mt (isLeadOfTwo_iff lead).mp (by omega)
  have notThree := mt (isLeadOfThree_iff lead).mp (by omega)
  have four := (isLeadOfFour_iff lead).mpr (by omega)
  have allowed := isSecondOfFour_of_toNat leadValue secondValue many few
  have point : codePoint (lead.toNat % 8) [second, third, fourth] = char := codePoint_eq (by
    simp only [List.foldl_cons, List.foldl_nil, leadValue, secondValue, thirdValue, fourthValue]
    omega)
  rw [decodeFrom.eq_def]
  dsimp only
  rw [if_neg notOne, if_neg notTwo, if_neg notThree, if_pos four, if_pos allowed,
    if_pos (isContinuation_of_toNat thirdValue), if_pos (isContinuation_of_toNat fourthValue),
    point]

end

/-- One character is taken off, and whatever follows it is decoded from the next index on. -/
theorem decodeFrom_encodeChar (index : Nat) (char : Char) (rest : Bytes) :
    decodeFrom index (String.utf8EncodeChar char ++ rest) =
      (decodeFrom (index + (String.utf8EncodeChar char).length) rest).map (char :: ·) := by
  have bound : char.toNat < 0x110000 := by
    rcases char.valid with low | ⟨_, high⟩
    · exact Nat.lt_trans low (by decide)
    · exact high
  have same : char.val.toNat = char.toNat := rfl
  simp only [String.utf8EncodeChar, same]
  split
  · exact decodeFrom_one index rest (toNat_byte (by omega)) (by omega)
  · split
    · refine decodeFrom_two index rest ?_ (toNat_byte (by omega)) (by omega) (by omega)
      rw [toNat_byte (by omega)]
      omega
    · split
      · refine decodeFrom_three index rest ?_ (toNat_byte (by omega)) (toNat_byte (by omega))
          (by omega) (by omega)
        rw [toNat_byte (by omega)]
        omega
      · refine decodeFrom_four index rest ?_ (toNat_byte (by omega)) (toNat_byte (by omega))
          (toNat_byte (by omega)) (by omega) bound
        rw [toNat_byte (by omega)]
        omega

theorem encodeChar_of_ascii {char : Char} (ascii : char.toNat < 0x80) :
    String.utf8EncodeChar char = [UInt8.ofNat char.toNat] :=
  if_pos (Nat.le_of_lt_succ ascii)

/-- Behind ASCII no byte of a character is an ASCII one. -/
theorem le_of_mem_encodeChar {char : Char} (many : 0x80 ≤ char.toNat) {byte : UInt8}
    (member : byte ∈ String.utf8EncodeChar char) : 0x80 ≤ byte := by
  have same : char.val.toNat = char.toNat := rfl
  have lead (number offset : Nat) (bound : number + offset < 256) (high : 0x80 ≤ offset) :
      0x80 ≤ UInt8.ofNat (number + offset) := by
    rw [UInt8.le_iff_toNat_le, toNat_byte bound]
    exact Nat.le_trans high (Nat.le_add_left offset number)
  simp only [String.utf8EncodeChar, same] at member
  rw [if_neg (by omega)] at member
  split at member
  · simp only [List.mem_cons, List.not_mem_nil, or_false] at member
    rcases member with rfl | rfl <;> exact lead _ _ (by omega) (by decide)
  · split at member
    · simp only [List.mem_cons, List.not_mem_nil, or_false] at member
      rcases member with rfl | rfl | rfl <;> exact lead _ _ (by omega) (by decide)
    · simp only [List.mem_cons, List.not_mem_nil, or_false] at member
      rcases member with rfl | rfl | rfl | rfl <;> exact lead _ _ (by omega) (by decide)

/-! ### Texts -/

theorem encode_append (front back : String) :
    encode (front ++ back) = encode front ++ encode back := by
  rw [encode, String.toList_append, List.flatMap_append]
  rfl

/-- Text of any characters decodes without a fault. -/
theorem decodeFrom_encode (index : Nat) (chars : List Char) :
    decodeFrom index (chars.flatMap String.utf8EncodeChar) = .ok chars := by
  induction chars generalizing index with
  | nil => rw [List.flatMap_nil, decodeFrom.eq_def]
  | cons char chars ih => rw [List.flatMap_cons, decodeFrom_encodeChar, ih]; rfl

theorem decode_encode (text : String) : decode (encode text) = .ok text := by
  rw [decode, encode, decodeFrom_encode]
  exact congrArg Except.ok String.ofList_toList

end CilRecovery.Utf8

namespace CilRecovery.Digits

/-!
## Decimal numerals

The bytes of a numeral are digits without a leading zero, and they give the number back.
-/

/-- The decimal digits of a number as bytes, the most significant first. -/
def numeral (number : Nat) : Bytes :=
  (Nat.toDigits 10 number).map fun digit => UInt8.ofNat digit.toNat

private theorem range_of_mem {number : Nat} {digit : Char}
    (member : digit ∈ Nat.toDigits 10 number) : 48 ≤ digit.toNat ∧ digit.toNat ≤ 57 := by
  have decimal := Nat.isDigit_of_mem_toDigits (by decide) (by decide) member
  rwa [Char.isDigit, Bool.and_eq_true_iff, decide_eq_true_iff, decide_eq_true_iff] at decimal

theorem encode_repr (number : Nat) : Utf8.encode number.repr = numeral number := by
  rw [Utf8.encode, Nat.repr_eq_ofList_toDigits, String.toList_ofList, numeral, List.map_eq_flatMap]
  refine List.flatMap_congr fun digit member => Utf8.encodeChar_of_ascii ?_
  have range := range_of_mem member
  omega

theorem numeral_ne_nil (number : Nat) : numeral number ≠ [] :=
  fun none => Nat.toDigits_ne_nil (List.map_eq_nil_iff.mp none)

theorem isDigit_of_mem_numeral {number : Nat} {byte : UInt8} (member : byte ∈ numeral number) :
    isDigit byte = true := by
  obtain ⟨digit, inside, rfl⟩ := List.mem_map.mp member
  have range := range_of_mem inside
  rw [isDigit, between_iff, toNat_byte (by omega)]
  exact range

theorem decimal_numeral (number : Nat) : decimal (numeral number) = number := by
  have digitwise : decimal (numeral number) = Nat.ofDigitChars 10 (Nat.toDigits 10 number) 0 := by
    rw [decimal, numeral, List.foldl_map, Nat.ofDigitChars]
    refine List.foldl_ext _ _ _ fun value digit member => ?_
    have range := range_of_mem member
    have zero : '0'.toNat = 48 := rfl
    rw [toNat_byte (by omega), zero]
    omega
  rw [digitwise, Nat.ofDigitChars_toDigits (by decide) (by decide)]

private theorem head?_toDigits_ne_zero {number : Nat} (positive : 0 < number) :
    (Nat.toDigits 10 number).head? ≠ some '0' := by
  induction number using Nat.strongRecOn with
  | ind number ih =>
      rw [Nat.toDigits_eq_if (by decide)]
      by_cases small : number < 10
      · rw [if_pos small]
        have table : ∀ digit < 10, 0 < digit → [Nat.digitChar digit].head? ≠ some '0' := by
          decide
        exact table number small positive
      · have earlier := ih (number / 10) (by omega) (by omega)
        rw [if_neg small, List.head?_append_of_ne_nil _ Nat.toDigits_ne_nil]
        exact earlier

/-- Only the numeral of zero starts with a zero, and it has no other digit. -/
theorem no_leading_zero {number : Nat} (several : 1 < (numeral number).length) :
    (numeral number).head? ≠ some 0x30 := by
  rw [numeral, List.length_map] at several
  have positive : 0 < number := by
    refine Nat.pos_of_ne_zero fun zero => ?_
    subst zero
    exact absurd several (by decide)
  intro leading
  rw [numeral, List.head?_map] at leading
  obtain ⟨digit, first, same⟩ := Option.map_eq_some_iff.mp leading
  have range := range_of_mem (List.mem_of_mem_head? first)
  have value := congrArg UInt8.toNat same
  rw [toNat_byte (by omega)] at value
  have zero : digit = '0' := Char.toNat_inj.mp value
  exact head?_toDigits_ne_zero positive (zero ▸ first)

end CilRecovery.Digits
