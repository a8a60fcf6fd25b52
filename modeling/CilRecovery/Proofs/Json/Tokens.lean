import CilRecovery.Json
import CilRecovery.Proofs.Except
import CilRecovery.Proofs.Text

/-!
# Numbers and strings of documents

The numeral of a 64-bit integer and the quoted form of a text are read back, whatever follows them
in the document.
-/

set_option autoImplicit false

namespace CilRecovery.Json

open Digits (isDigit decimal numeral)

/-! ## Numbers -/

def EndsNumber (rest : Bytes) : Prop :=
  ∀ byte, rest.head? = some byte →
    isDigit byte = false ∧ byte ≠ point ∧ byte ≠ 0x65 ∧ byte ≠ 0x45

def IsWord (value : Int) : Prop := -0x8000000000000000 ≤ value ∧ value < 0x10000000000000000

variable {rest : Bytes}

/-- A numeral ends where no digit follows, so it is read as a whole. -/
theorem digits_numeral (number : Nat) (ends : EndsNumber rest) :
    digits (numeral number ++ rest) = .ok (numeral number, rest) := by
  have decimals : ∀ byte ∈ numeral number, isDigit byte = true :=
    fun _ => Digits.isDigit_of_mem_numeral
  have stops : rest.takeWhile isDigit = [] ∧ rest.dropWhile isDigit = rest := by
    cases rest with
    | nil => exact ⟨rfl, rfl⟩
    | cons byte rest =>
        have other := (ends byte rfl).1
        simp [other]
  rw [digits, List.takeWhile_append_of_pos decimals, List.dropWhile_append_of_pos decimals,
    stops.1, stops.2, List.append_nil]
  cases found : numeral number with
  | nil => exact absurd found (Digits.numeral_ne_nil number)
  | cons first others => rfl

theorem integerPart_numeral (number : Nat) (ends : EndsNumber rest) :
    integerPart (numeral number ++ rest) = .ok (numeral number, rest) := by
  have canonical : ¬ (decide ((numeral number).length > 1) &&
      (numeral number).head? == some 0x30) = true := by
    rw [Bool.and_eq_true_iff, decide_eq_true_iff, beq_iff_eq]
    exact fun ⟨several, leading⟩ => Digits.no_leading_zero several leading
  rw [integerPart, digits_numeral number ends]
  change (if _ then _ else _ : Except Rejection _) = _
  rw [if_neg canonical]
  rfl

theorem fractionPart_of_endsNumber (ends : EndsNumber rest) :
    fractionPart rest = .ok (none, rest) := by
  cases rest with
  | nil => rfl
  | cons byte rest =>
      unfold fractionPart
      split
      · rename_i same
        cases same
        exact absurd rfl (ends _ rfl).2.1
      · rfl

theorem exponentPart_of_endsNumber (ends : EndsNumber rest) :
    exponentPart rest = .ok (none, rest) := by
  cases rest with
  | nil => rfl
  | cons byte rest =>
      have none : (byte == 0x65 || byte == 0x45) = false := by
        simpa using (ends byte rfl).2.2
      simp [exponentPart, none]

private theorem readNumber_unsigned {first : UInt8} (unsigned : first ≠ minus) (data : Bytes) :
    readNumber (first :: data) = readMagnitude false (first :: data) := by
  unfold readNumber
  split
  · rename_i same
    exact absurd (List.cons.inj same).1 unsigned
  · rfl

private theorem readMagnitude_numeral {negative : Bool} {number : Nat}
    (stored : (if negative then number != 0 && decide (number ≤ 0x8000000000000000)
      else decide (number < UInt64.size)) = true) (ends : EndsNumber rest) :
    readMagnitude negative (numeral number ++ rest) =
      .ok (.integer (if negative then -(number : Int) else number), rest) := by
  rw [readMagnitude, integerPart_numeral number ends]
  simp only [bind, Except.bind, fractionPart_of_endsNumber ends, exponentPart_of_endsNumber ends,
    Digits.decimal_numeral, Option.isNone_none, Bool.true_and, stored, if_true]
  rfl

/-- Numbers of 64 bits are read exactly, never through a double. -/
theorem readNumber_numeral {number : Nat} (small : number < UInt64.size)
    (ends : EndsNumber rest) :
    readNumber (numeral number ++ rest) = .ok (.integer number, rest) := by
  obtain ⟨first, others, split⟩ := List.exists_cons_of_ne_nil (Digits.numeral_ne_nil number)
  have unsigned : first ≠ minus := by
    rintro rfl
    have decimal := @Digits.isDigit_of_mem_numeral number minus (split ▸ List.mem_cons_self)
    exact absurd decimal (by decide)
  have whole := @readMagnitude_numeral rest false number (decide_eq_true small) ends
  rw [split] at whole ⊢
  rw [List.cons_append, readNumber_unsigned unsigned]
  exact whole

theorem readNumber_minus_numeral {number : Nat} (positive : number ≠ 0)
    (small : number ≤ 0x8000000000000000) (ends : EndsNumber rest) :
    readNumber (minus :: numeral number ++ rest) = .ok (.integer (-number), rest) := by
  rw [List.cons_append]
  exact readMagnitude_numeral (by simp [positive, small]) ends

theorem readNumber_integer {value : Int} (word : IsWord value) (ends : EndsNumber rest) :
    readNumber (Utf8.encode (toString value) ++ rest) = .ok (.integer value, rest) := by
  obtain ⟨least, below⟩ := word
  cases value with
  | ofNat number =>
      change readNumber (Utf8.encode number.repr ++ rest) = _
      rw [Digits.encode_repr]
      have small : number < UInt64.size := Int.ofNat_lt.mp below
      exact readNumber_numeral small ends
  | negSucc predecessor =>
      change readNumber (Utf8.encode ("-" ++ (predecessor + 1).repr) ++ rest) = _
      rw [Utf8.encode_append, Digits.encode_repr]
      exact readNumber_minus_numeral (Nat.succ_ne_zero predecessor) (by omega) ends

/-- A number is told from other documents by its first byte. -/
theorem exists_cons_integer (value : Int) :
    ∃ first others, Utf8.encode (toString value) = first :: others ∧
      (first == minus || isDigit first) = true := by
  cases value with
  | ofNat number =>
      obtain ⟨first, others, split⟩ := List.exists_cons_of_ne_nil (Digits.numeral_ne_nil number)
      have decimal := @Digits.isDigit_of_mem_numeral number first (split ▸ List.mem_cons_self)
      exact ⟨first, others, (Digits.encode_repr number).trans split, by rw [decimal, Bool.or_true]⟩
  | negSucc predecessor => exact ⟨minus, _, Utf8.encode_append "-" _, rfl⟩

/-! ## Strings -/

/-- What is written, in front of anything, is read as parts that stand for bytes. -/
structure Spells (written : Bytes) (parts : List StringPart) (bytes : Bytes) : Prop where
  read : ∀ tail, stringParts (written ++ tail) =
    (stringParts tail).map fun (others, rest) => (parts ++ others, rest)
  means : ∀ others, bytesOfParts (parts ++ others) = (bytesOfParts others).map (bytes ++ ·)

namespace Spells

theorem nil : Spells [] [] [] where
  read tail := by
    rw [List.nil_append]
    cases stringParts tail <;> rfl
  means others := by
    rw [List.nil_append]
    cases bytesOfParts others <;> rfl

theorem append {front back : Bytes} {parts parts' : List StringPart} {bytes bytes' : Bytes}
    (spells : Spells front parts bytes) (spells' : Spells back parts' bytes') :
    Spells (front ++ back) (parts ++ parts') (bytes ++ bytes') where
  read tail := by
    rw [List.append_assoc, spells.read, spells'.read]
    cases stringParts tail with
    | error fault => rfl
    | ok found =>
        exact congrArg (fun parts => Except.ok (parts, found.2)) (List.append_assoc ..).symm
  means others := by
    rw [List.append_assoc, spells.means, spells'.means, Option.map_map]
    exact congrArg (Option.map · _) (funext fun rest => (List.append_assoc ..).symm)

theorem byte {value : UInt8} (visible : 0x20 ≤ value) (unquoted : value ≠ quoteMark)
    (plain : value ≠ backslash) : Spells [value] [.byte value] [value] where
  read tail := by
    rw [List.singleton_append, stringParts.eq_def]
    dsimp only
    rw [if_neg (by simpa using unquoted), if_neg (by simpa using plain),
      if_neg (UInt8.not_lt.mpr visible)]
    rfl
  means others := rfl

theorem short {letter value : UInt8} (known : shortEscape? letter = some value)
    (other : letter ≠ 0x75) : Spells [backslash, letter] [.byte value] [value] where
  read tail := by
    change stringParts (backslash :: letter :: tail) = _
    rw [stringParts.eq_def]
    dsimp only
    rw [if_neg (by decide), if_pos (by decide), if_neg (by simpa using other), known]
    rfl
  means others := rfl

theorem unit {first second third fourth : UInt8} {char : Char}
    (known : hexUnit? first second third fourth = some char.toNat) (few : char.toNat < 0xD800) :
    Spells [backslash, 0x75, first, second, third, fourth] [.unit char.toNat]
      (String.utf8EncodeChar char) where
  read tail := by
    change stringParts (backslash :: 0x75 :: first :: second :: third :: fourth :: tail) = _
    rw [stringParts.eq_def]
    dsimp only
    rw [if_neg (by decide), if_pos (by decide), if_pos (by decide), known]
    rfl
  means others := by
    have noHigh : ¬ (decide (0xD800 ≤ char.toNat) && decide (char.toNat < 0xDC00)) = true := by
      rw [Bool.and_eq_true_iff, decide_eq_true_iff, decide_eq_true_iff]
      omega
    have noLow : ¬ (decide (0xDC00 ≤ char.toNat) && decide (char.toNat < 0xE000)) = true := by
      rw [Bool.and_eq_true_iff, decide_eq_true_iff, decide_eq_true_iff]
      omega
    rw [List.singleton_append, bytesOfParts.eq_def]
    dsimp only
    rw [if_neg noHigh, if_neg noLow, Char.ofNat_toNat]

end Spells

private theorem spells_bytes {bytes : Bytes}
    (plain : ∀ byte ∈ bytes, 0x20 ≤ byte ∧ byte ≠ quoteMark ∧ byte ≠ backslash) :
    Spells bytes (bytes.map .byte) bytes := by
  induction bytes with
  | nil => exact .nil
  | cons first rest ih =>
      obtain ⟨visible, unquoted, unescaped⟩ := plain first List.mem_cons_self
      exact (Spells.byte visible unquoted unescaped).append
        (ih fun byte member => plain byte (List.mem_cons_of_mem _ member))

private theorem spells_encodeChar {char : Char} (visible : 0x20 ≤ char.toNat)
    (unquoted : char ≠ '"') (unescaped : char ≠ '\\') :
    Spells (String.utf8EncodeChar char) ((String.utf8EncodeChar char).map .byte)
      (String.utf8EncodeChar char) := by
  refine spells_bytes fun byte member => ?_
  by_cases ascii : char.toNat < 0x80
  · rw [Utf8.encodeChar_of_ascii ascii, List.mem_singleton] at member
    have value : byte.toNat = char.toNat := member ▸ toNat_byte (by omega)
    refine ⟨?_, ?_, ?_⟩
    · rw [UInt8.le_iff_toNat_le, value]
      exact visible
    · rintro rfl
      exact unquoted (Char.toNat_inj.mp value.symm)
    · rintro rfl
      exact unescaped (Char.toNat_inj.mp value.symm)
  · have high := Utf8.le_of_mem_encodeChar (Nat.le_of_not_lt ascii) member
    refine ⟨UInt8.le_trans (by decide) high, ?_, ?_⟩
    · rintro rfl
      exact absurd high (by decide)
    · rintro rfl
      exact absurd high (by decide)

/-! ### Escapes in hexadecimal -/

private theorem lowerDigit_spec : ∀ value < 16, (Hex.lowerDigit value).toNat < 0x80 ∧
    hexValue? (UInt8.ofNat (Hex.lowerDigit value).toNat) = some value := by
  decide

private theorem encode_digits (number : Nat) :
    Utf8.encode (String.ofList (Hex.digits 4 number)) =
      [UInt8.ofNat (Hex.lowerDigit (number / 16 / 16 / 16 % 16)).toNat,
        UInt8.ofNat (Hex.lowerDigit (number / 16 / 16 % 16)).toNat,
        UInt8.ofNat (Hex.lowerDigit (number / 16 % 16)).toNat,
        UInt8.ofNat (Hex.lowerDigit (number % 16)).toNat] := by
  have ascii (value : Nat) : String.utf8EncodeChar (Hex.lowerDigit (value % 16)) =
      [UInt8.ofNat (Hex.lowerDigit (value % 16)).toNat] :=
    Utf8.encodeChar_of_ascii (lowerDigit_spec _ (Nat.mod_lt _ (by decide))).1
  rw [Utf8.encode, String.toList_ofList]
  simp only [Hex.digits, List.nil_append, List.cons_append, List.flatMap_cons, List.flatMap_nil,
    ascii]

private theorem hexUnit?_digits {number : Nat} (small : number < 0x10000) :
    hexUnit? (UInt8.ofNat (Hex.lowerDigit (number / 16 / 16 / 16 % 16)).toNat)
      (UInt8.ofNat (Hex.lowerDigit (number / 16 / 16 % 16)).toNat)
      (UInt8.ofNat (Hex.lowerDigit (number / 16 % 16)).toNat)
      (UInt8.ofNat (Hex.lowerDigit (number % 16)).toNat) = some number := by
  have digit (value : Nat) :
      hexValue? (UInt8.ofNat (Hex.lowerDigit (value % 16)).toNat) = some (value % 16) :=
    (lowerDigit_spec _ (Nat.mod_lt _ (by decide))).2
  simp only [hexUnit?, digit, bind, Option.bind, pure, Option.some.injEq]
  omega

private theorem spells_control {char : Char} (control : char.toNat < 0x20) :
    Spells (Utf8.encode ("\\u" ++ String.ofList (Hex.digits 4 char.toNat))) [.unit char.toNat]
      (String.utf8EncodeChar char) := by
  rw [Utf8.encode_append, encode_digits]
  exact Spells.unit (hexUnit?_digits (by omega)) (by omega)

/-- Every character is read back from its escaped form. -/
theorem spells_escape (char : Char) :
    ∃ parts, Spells (Utf8.encode (escape char)) parts (String.utf8EncodeChar char) := by
  unfold escape
  split
  · exact ⟨_, Spells.short (by rfl) (by decide)⟩
  · exact ⟨_, Spells.short (by rfl) (by decide)⟩
  · exact ⟨_, Spells.short (by rfl) (by decide)⟩
  · exact ⟨_, Spells.short (by rfl) (by decide)⟩
  · exact ⟨_, Spells.short (by rfl) (by decide)⟩
  · rename_i unquoted unescaped _ _ _
    by_cases backspace : char.toNat = 0x08
    · rw [if_pos (beq_iff_eq.mpr backspace), ← Char.ofNat_toNat char, backspace]
      exact ⟨_, Spells.short (by rfl) (by decide)⟩
    · rw [if_neg (by simpa using backspace)]
      by_cases formFeed : char.toNat = 0x0C
      · rw [if_pos (beq_iff_eq.mpr formFeed), ← Char.ofNat_toNat char, formFeed]
        exact ⟨_, Spells.short (by rfl) (by decide)⟩
      · rw [if_neg (by simpa using formFeed)]
        by_cases control : char.toNat < 0x20
        · rw [if_pos control]
          exact ⟨_, spells_control control⟩
        · rw [if_neg control]
          have single : Utf8.encode (String.singleton char) = String.utf8EncodeChar char := by
            rw [Utf8.encode, String.toList_singleton, List.flatMap_singleton]
          rw [single]
          exact ⟨_, spells_encodeChar (Nat.le_of_not_lt control) unquoted unescaped⟩

/-! ### Texts -/

private theorem spells_escapes (chars : List Char) :
    ∃ parts, Spells (chars.flatMap fun char => Utf8.encode (escape char)) parts
      (chars.flatMap String.utf8EncodeChar) := by
  induction chars with
  | nil => exact ⟨_, .nil⟩
  | cons char chars ih =>
      obtain ⟨parts, first⟩ := spells_escape char
      obtain ⟨parts', others⟩ := ih
      exact ⟨_, first.append others⟩

private theorem encode_escapes (text : String) :
    Utf8.encode (String.join (text.toList.map escape)) =
      text.toList.flatMap fun char => Utf8.encode (escape char) := by
  rw [Utf8.encode, String.toList_join, List.flatMap_map, List.flatMap_assoc]
  rfl

/-- The quoted form of a text is read back behind its first quote. -/
theorem exists_parts_renderString (text : String) :
    ∃ written parts, Utf8.encode (renderString (some text)) = quoteMark :: written ∧
      textOfParts parts = some text ∧
      ∀ rest, stringParts (written ++ rest) = .ok (parts, rest) := by
  obtain ⟨parts, spells⟩ := spells_escapes text.toList
  refine ⟨(text.toList.flatMap fun char => Utf8.encode (escape char)) ++ [quoteMark], parts,
    ?_, ?_, fun rest => ?_⟩
  · rw [renderString, Utf8.encode_append, Utf8.encode_append, Option.getD_some, encode_escapes]
    rfl
  · have bytes := spells.means []
    have empty : bytesOfParts [] = some [] := rfl
    rw [List.append_nil, empty, Option.map_some, List.append_nil] at bytes
    have decoded : Utf8.decode (text.toList.flatMap String.utf8EncodeChar) = .ok text :=
      Utf8.decode_encode text
    rw [textOfParts, bytes]
    dsimp only
    rw [decoded]
    rfl
  · have closed : stringParts ([quoteMark] ++ rest) = .ok ([], rest) := by
      rw [List.singleton_append, stringParts.eq_def]
      rfl
    rw [List.append_assoc, spells.read, closed]
    exact congrArg (fun parts => Except.ok (parts, rest)) (List.append_nil parts)

end CilRecovery.Json
