import CilRecovery.Bytes

/-!
# Text

Names of choices, numerals, and the encodings of text in bytes and in 16-bit units.
-/

set_option autoImplicit false

namespace CilRecovery.Keyword

/-!
## Names of choices

Configured names (ciphers, digests, compressions, runtimes, schemes) are matched without regard
to the case of ASCII letters. Every other character has to match exactly.
-/

def agree (left right : String) : Bool :=
  left.toList.map Char.toLower == right.toList.map Char.toLower

/-- The first choice of which some name agrees with `text`. -/
def find? {choice : Type} (names : List (String × choice)) (text : String) : Option choice :=
  (names.find? fun entry => agree entry.1 text).map Prod.snd

end CilRecovery.Keyword

namespace CilRecovery.Hex

/-! ## Hexadecimal numerals of a fixed width -/

def lowerDigit (value : Nat) : Char :=
  Char.ofNat (if value < 10 then 48 + value else 87 + value)

/-- The `width` lowest hexadecimal digits of `value`, most significant first. -/
def digits : (width : Nat) → (value : Nat) → List Char
  | 0, _ => []
  | width + 1, value => digits width (value / 16) ++ [lowerDigit (value % 16)]

/-- The significant digits of `value`, at least one of them. The width never exceeds the value. -/
def shortest (value : Nat) : String :=
  match (digits (Nat.log2 value / 4 + 1) value).dropWhile (· == '0') with
  | [] => "0"
  | significant => String.ofList significant

/-- `0x` followed by at least eight digits in lower case. -/
def lower32 (value : UInt32) : String := "0x" ++ String.ofList (digits 8 value.toNat)

def upper32 (value : UInt32) : String :=
  "0x" ++ String.ofList ((digits 8 value.toNat).map Char.toUpper)

def lower8 (value : UInt8) : String := "0x" ++ String.ofList (digits 2 value.toNat)

end CilRecovery.Hex

namespace CilRecovery.Digits

/-! ## Decimal digits in bytes -/

def isDigit (byte : UInt8) : Bool := 0x30 ≤ byte && byte ≤ 0x39

def decimal (digits : Bytes) : Nat :=
  digits.foldl (fun value digit => value * 10 + (digit.toNat - 0x30)) 0

end CilRecovery.Digits

namespace CilRecovery.Utf8

/-!
## UTF-8 with fault positions

Decoding reports where the valid part ends and how many bytes the offending sequence spans. A
sequence that was fine as far as it went but was cut off by the end of the data has no such
length.
-/

/-- Why bytes are not UTF-8 text. `validUpTo` bytes before the fault are well formed. -/
inductive Fault
  | invalid (validUpTo length : Nat)
  | incomplete (validUpTo : Nat)
  deriving DecidableEq

def Fault.message : Fault → String
  | .invalid index length => s!"invalid utf-8 sequence of {length} bytes from index {index}"
  | .incomplete index => s!"incomplete utf-8 byte sequence from index {index}"

/-- Whether a byte may follow the first two of a sequence. -/
def isContinuation (byte : UInt8) : Bool := 0x80 ≤ byte && byte ≤ 0xBF

/-- Whether `second` may follow `lead` in a three-byte sequence: no overlong forms and no
surrogates. -/
def isSecondOfThree (lead second : UInt8) : Bool :=
  if lead = 0xE0 then 0xA0 ≤ second && second ≤ 0xBF
  else if lead = 0xED then 0x80 ≤ second && second ≤ 0x9F
  else isContinuation second

/-- Whether `second` may follow `lead` in a four-byte sequence: no overlong forms and nothing
past the last code point. -/
def isSecondOfFour (lead second : UInt8) : Bool :=
  if lead = 0xF0 then 0x90 ≤ second && second ≤ 0xBF
  else if lead = 0xF4 then 0x80 ≤ second && second ≤ 0x8F
  else isContinuation second

def codePoint (lead : Nat) (continuations : List UInt8) : Char :=
  Char.ofNat (continuations.foldl (fun value byte => value * 64 + byte.toNat % 64) lead)

/-- The characters of `data`, whose first byte has the given index in the whole text. -/
def decodeFrom (index : Nat) : Bytes → Except Fault (List Char)
  | [] => .ok []
  | lead :: rest =>
      if lead < 0x80 then
        (decodeFrom (index + 1) rest).map (codePoint lead.toNat [] :: ·)
      else if 0xC2 ≤ lead && lead ≤ 0xDF then
        match rest with
        | [] => .error (.incomplete index)
        | second :: rest =>
            if isContinuation second then
              (decodeFrom (index + 2) rest).map (codePoint (lead.toNat % 32) [second] :: ·)
            else .error (.invalid index 1)
      else if 0xE0 ≤ lead && lead ≤ 0xEF then
        match rest with
        | [] => .error (.incomplete index)
        | second :: rest =>
            if isSecondOfThree lead second then
              match rest with
              | [] => .error (.incomplete index)
              | third :: rest =>
                  if isContinuation third then
                    (decodeFrom (index + 3) rest).map
                      (codePoint (lead.toNat % 16) [second, third] :: ·)
                  else .error (.invalid index 2)
            else .error (.invalid index 1)
      else if 0xF0 ≤ lead && lead ≤ 0xF4 then
        match rest with
        | [] => .error (.incomplete index)
        | second :: rest =>
            if isSecondOfFour lead second then
              match rest with
              | [] => .error (.incomplete index)
              | third :: rest =>
                  if isContinuation third then
                    match rest with
                    | [] => .error (.incomplete index)
                    | fourth :: rest =>
                        if isContinuation fourth then
                          (decodeFrom (index + 4) rest).map
                            (codePoint (lead.toNat % 8) [second, third, fourth] :: ·)
                        else .error (.invalid index 3)
                  else .error (.invalid index 2)
            else .error (.invalid index 1)
      else .error (.invalid index 1)

def decode (data : Bytes) : Except Fault String := (decodeFrom 0 data).map String.ofList

def encode (text : String) : Bytes := text.toList.flatMap String.utf8EncodeChar

end CilRecovery.Utf8

namespace CilRecovery.Utf16

/-!
## UTF-16 units

Text of a managed program is a list of 16-bit units. Units form text only if every surrogate
stands in a high-low pair.
-/

def encodeChar (char : Char) : List UInt16 :=
  let code := char.toNat
  if code < 0x10000 then [UInt16.ofNat code]
  else [UInt16.ofNat (0xD800 + (code - 0x10000) / 0x400),
    UInt16.ofNat (0xDC00 + (code - 0x10000) % 0x400)]

def encode (text : String) : List UInt16 := text.toList.flatMap encodeChar

def isHigh (unit : UInt16) : Bool := 0xD800 ≤ unit && unit ≤ 0xDBFF

def isLow (unit : UInt16) : Bool := 0xDC00 ≤ unit && unit ≤ 0xDFFF

def joinPair (high low : UInt16) : Char :=
  Char.ofNat (0x10000 + (high.toNat - 0xD800) * 0x400 + (low.toNat - 0xDC00))

/-- The characters of `units`, unless a surrogate is unpaired. -/
def decodeChars : List UInt16 → Option (List Char)
  | [] => some []
  | unit :: rest =>
      if isHigh unit then
        match rest with
        | [] => none
        | low :: rest => if isLow low then (decodeChars rest).map (joinPair unit low :: ·) else none
      else if isLow unit then none
      else (decodeChars rest).map (Char.ofNat unit.toNat :: ·)

def decode (units : List UInt16) : Option String := (decodeChars units).map String.ofList

end CilRecovery.Utf16
