import CilRecovery.Text

/-!
# JSON documents

Documents are read into trees, and numbers are judged by whether a double holds them.
-/

set_option autoImplicit false

namespace CilRecovery

/-!
## Magnitude of decimal numerals

Whether a decimal numeral denotes a number that a double can hold. Of its digits only those that
fit a 64-bit significand are taken. The significand and the power of ten are rounded to doubles,
and so is their product, which decides; close to the largest double that may differ from what the
exact value would give.
-/

structure Decimal where
  significand : Nat
  exponent : Int
  deriving DecidableEq

namespace Decimal

/-- Appends decimal digits to a significand as long as it fits 64 bits, and gives back the digits
from the first one on that does not fit. -/
def absorb (significand : Nat) : (digits : Bytes) → Nat × Bytes
  | [] => (significand, [])
  | digit :: rest =>
      let longer := significand * 10 + (digit.toNat - 0x30)
      if longer < UInt64.size then absorb longer rest else (significand, digit :: rest)

/-- The numeral with the given digits in front of and behind its decimal point. Digits in front of
the point that do not fit count as zeros, digits behind it are dropped. -/
def ofDigits (whole fraction : Bytes) (exponent : Int) : Decimal :=
  let (significand, zeros) := absorb 0 whole
  let (significand, dropped) := absorb significand fraction
  ⟨significand, exponent + zeros.length - (fraction.length - dropped.length : Nat)⟩

/-- The nearest number with 53 significant bits. A number half way goes to the even neighbour. -/
def roundToDouble (value : Nat) : Nat :=
  let shift := value.log2 - 52
  let kept := value >>> shift
  let dropped := value - kept <<< shift
  let isUp := 1 <<< shift < 2 * dropped || (1 <<< shift == 2 * dropped && kept % 2 == 1)
  (if isUp then kept + 1 else kept) <<< shift

/-- The least number that is rounded to infinity: half a step above the largest double. -/
def overflowBound : Nat := 1 <<< 1024 - 1 <<< 970

def maxExponent : Int := 308

def isFinite (decimal : Decimal) : Bool :=
  decimal.significand == 0 ||
    (decimal.exponent ≤ maxExponent &&
      roundToDouble decimal.significand * roundToDouble (Nat.pow 10 decimal.exponent.toNat) <
        overflowBound)

end Decimal

/-!
## Documents

A document is read into a tree before anything is made of it. Strings whose escapes or bytes are
no text are kept as tokens without a value, because a reader that skips them never looks inside;
numbers that are no 64-bit integers are kept only as real numbers.
-/

/-- A number: a 64-bit integer, or any other number together with whether a double holds it. -/
inductive JsonNumber
  | integer (value : Int)
  | real (finite : Bool)
  deriving DecidableEq

/-- A document. Objects keep their members in order, repeated keys included. -/
inductive Json
  | null
  | bool (value : Bool)
  | number (value : JsonNumber)
  | string (text : Option String)
  | array (items : List Json)
  | object (members : List (Option String × Json))

namespace Json

open Digits (isDigit decimal)

inductive SyntaxFault
  | endInList | endInObject | endInString | endInValue
  | expectedColon | expectedListEnd | expectedObjectEnd | expectedIdent | expectedValue
  | invalidEscape | invalidNumber | controlCharacter | keyNotString
  | trailingComma | trailingCharacters
  deriving DecidableEq

def SyntaxFault.message : SyntaxFault → String
  | .endInList => "EOF while parsing a list"
  | .endInObject => "EOF while parsing an object"
  | .endInString => "EOF while parsing a string"
  | .endInValue => "EOF while parsing a value"
  | .expectedColon => "expected `:`"
  | .expectedListEnd => "expected `,` or `]`"
  | .expectedObjectEnd => "expected `,` or `\x7d`"
  | .expectedIdent => "expected ident"
  | .expectedValue => "expected value"
  | .invalidEscape => "invalid escape"
  | .invalidNumber => "invalid number"
  | .controlCharacter => "control character (\\u0000-\\u001F) found while parsing a string"
  | .keyNotString => "key must be a string"
  | .trailingComma => "trailing comma"
  | .trailingCharacters => "trailing characters"

/-- Why a document was refused: it breaks the grammar at a position, or it does not have the
shape of the message that was expected. -/
inductive Fault
  | grammar (fault : SyntaxFault) (line column : Nat)
  | shape (expected : String)
  deriving DecidableEq

def Fault.message : Fault → String
  | .grammar fault line column => s!"{fault.message} at line {line} column {column}"
  | .shape expected => s!"invalid message, expected {expected}"

/-! ### Reading -/

/-- The broken rule, and what was left of the data when it broke. -/
abbrev Rejection := SyntaxFault × Bytes

@[match_pattern] abbrev quoteMark : UInt8 := 0x22

@[match_pattern] abbrev plus : UInt8 := 0x2B

@[match_pattern] abbrev comma : UInt8 := 0x2C

@[match_pattern] abbrev minus : UInt8 := 0x2D

@[match_pattern] abbrev point : UInt8 := 0x2E

@[match_pattern] abbrev colon : UInt8 := 0x3A

@[match_pattern] abbrev openBracket : UInt8 := 0x5B

@[match_pattern] abbrev backslash : UInt8 := 0x5C

@[match_pattern] abbrev closeBracket : UInt8 := 0x5D

@[match_pattern] abbrev openBrace : UInt8 := 0x7B

@[match_pattern] abbrev closeBrace : UInt8 := 0x7D

def isBlank (byte : UInt8) : Bool :=
  byte == 0x20 || byte == 0x09 || byte == 0x0A || byte == 0x0D

def skipBlank (data : Bytes) : Bytes := data.dropWhile isBlank

/-- A part of a string token: a byte as it stands, or a UTF-16 unit written as an escape. -/
inductive StringPart
  | byte (value : UInt8)
  | unit (value : Nat)

def hexValue? (byte : UInt8) : Option Nat :=
  if 0x30 ≤ byte && byte ≤ 0x39 then some (byte.toNat - 0x30)
  else if 0x41 ≤ byte && byte ≤ 0x46 then some (byte.toNat - 0x37)
  else if 0x61 ≤ byte && byte ≤ 0x66 then some (byte.toNat - 0x57)
  else none

def hexUnit? (first second third fourth : UInt8) : Option Nat := do
  let first ← hexValue? first
  let second ← hexValue? second
  let third ← hexValue? third
  let fourth ← hexValue? fourth
  return ((first * 16 + second) * 16 + third) * 16 + fourth

def shortEscape? (letter : UInt8) : Option UInt8 :=
  if letter == quoteMark || letter == backslash || letter == 0x2F then some letter
  else if letter == 0x62 then some 0x08
  else if letter == 0x66 then some 0x0C
  else if letter == 0x6E then some 0x0A
  else if letter == 0x72 then some 0x0D
  else if letter == 0x74 then some 0x09
  else none

def consPart (part : StringPart) (following : Except Rejection (List StringPart × Bytes)) :
    Except Rejection (List StringPart × Bytes) :=
  following.map fun (parts, rest) => (part :: parts, rest)

/-- The parts of a string token up to its closing quote, the opening one already read. -/
def stringParts : Bytes → Except Rejection (List StringPart × Bytes)
  | [] => .error (.endInString, [])
  | byte :: rest =>
      if byte == quoteMark then .ok ([], rest)
      else if byte == backslash then
        match rest with
        | [] => .error (.endInString, [])
        | letter :: rest =>
            if letter == 0x75 then
              match rest with
              | first :: second :: third :: fourth :: rest =>
                  match hexUnit? first second third fourth with
                  | some unit => consPart (.unit unit) (stringParts rest)
                  | none => .error (.invalidEscape, rest)
              | _ => .error (.endInString, [])
            else match shortEscape? letter with
              | some value => consPart (.byte value) (stringParts rest)
              | none => .error (.invalidEscape, rest)
      else if byte < 0x20 then .error (.controlCharacter, rest)
      else consPart (.byte byte) (stringParts rest)

/-- The bytes that the parts stand for, unless an escaped surrogate is unpaired. -/
def bytesOfParts : List StringPart → Option Bytes
  | [] => some []
  | .byte value :: rest => (bytesOfParts rest).map (value :: ·)
  | .unit unit :: rest =>
      if 0xD800 ≤ unit && unit < 0xDC00 then
        match rest with
        | .unit low :: rest =>
            if 0xDC00 ≤ low && low < 0xE000 then
              (bytesOfParts rest).map
                (String.utf8EncodeChar
                  (Char.ofNat (0x10000 + (unit - 0xD800) * 0x400 + (low - 0xDC00))) ++ ·)
            else none
        | _ => none
      else if 0xDC00 ≤ unit && unit < 0xE000 then none
      else (bytesOfParts rest).map (String.utf8EncodeChar (Char.ofNat unit) ++ ·)

def textOfParts (parts : List StringPart) : Option String :=
  match bytesOfParts parts with
  | none => none
  | some bytes => (Utf8.decode bytes).toOption

def digits (data : Bytes) : Except Rejection (Bytes × Bytes) :=
  match data.takeWhile isDigit with
  | [] => .error (.invalidNumber, data)
  | run => .ok (run, data.dropWhile isDigit)

/-- The integer part: no leading zeros. -/
def integerPart (data : Bytes) : Except Rejection (Bytes × Bytes) := do
  let (run, rest) ← digits data
  if run.length > 1 && run.head? == some 0x30 then throw (.invalidNumber, rest)
  return (run, rest)

def fractionPart : Bytes → Except Rejection (Option Bytes × Bytes)
  | point :: rest => (digits rest).map fun (run, rest) => (some run, rest)
  | data => .ok (none, data)

def exponentPart (data : Bytes) : Except Rejection (Option Int × Bytes) :=
  match data with
  | letter :: rest =>
      if letter == 0x65 || letter == 0x45 then
        match rest with
        | minus :: rest => (digits rest).map fun (run, rest) => (some (-(decimal run : Int)), rest)
        | plus :: rest => (digits rest).map fun (run, rest) => (some (decimal run : Int), rest)
        | _ => (digits rest).map fun (run, rest) => (some (decimal run : Int), rest)
      else .ok (none, data)
  | [] => .ok (none, data)

/-- A number behind its sign. Integers that fit 64 bits are exact; minus zero is no integer. -/
def readMagnitude (negative : Bool) (data : Bytes) : Except Rejection (JsonNumber × Bytes) := do
  let (whole, data) ← integerPart data
  let (fraction, data) ← fractionPart data
  let (exponent, data) ← exponentPart data
  let magnitude := decimal whole
  let isInteger := fraction.isNone && exponent.isNone &&
    (if negative then magnitude != 0 && magnitude ≤ 0x8000000000000000
      else magnitude < UInt64.size)
  if isInteger then
    return (.integer (if negative then -(magnitude : Int) else magnitude), data)
  else
    let value := Decimal.ofDigits whole (fraction.getD []) (exponent.getD 0)
    return (.real value.isFinite, data)

def readNumber : Bytes → Except Rejection (JsonNumber × Bytes)
  | minus :: data => readMagnitude true data
  | data => readMagnitude false data

def keyword (letters : Bytes) (result : Json) (data : Bytes) : Except Rejection (Json × Bytes) :=
  if letters.isPrefixOf data then .ok (result, data.drop letters.length)
  else .error (.expectedIdent, data)

mutual

/-- A document. Of two steps of the three readers at least one consumes a byte, so twice the
length of the data is fuel enough. -/
def value : (fuel : Nat) → (data : Bytes) → Except Rejection (Json × Bytes)
  | 0, data => .error (.endInValue, data)
  | fuel + 1, data =>
      match skipBlank data with
      | [] => .error (.endInValue, [])
      | byte :: rest =>
          if byte == quoteMark then
            (stringParts rest).map fun (parts, rest) => (.string (textOfParts parts), rest)
          else if byte == openBracket then
            match skipBlank rest with
            | closeBracket :: rest => .ok (.array [], rest)
            | _ => (elements fuel rest).map fun (items, rest) => (.array items, rest)
          else if byte == openBrace then
            match skipBlank rest with
            | closeBrace :: rest => .ok (.object [], rest)
            | [] => .error (.endInObject, [])
            | _ => (members fuel rest).map fun (items, rest) => (.object items, rest)
          else if byte == 0x6E then keyword [0x75, 0x6C, 0x6C] .null rest
          else if byte == 0x74 then keyword [0x72, 0x75, 0x65] (.bool true) rest
          else if byte == 0x66 then keyword [0x61, 0x6C, 0x73, 0x65] (.bool false) rest
          else if byte == minus || isDigit byte then
            (readNumber (byte :: rest)).map fun (value, rest) => (.number value, rest)
          else .error (.expectedValue, byte :: rest)

def elements : (fuel : Nat) → (data : Bytes) → Except Rejection (List Json × Bytes)
  | 0, data => .error (.endInList, data)
  | fuel + 1, data => do
      let (item, data) ← value fuel data
      match skipBlank data with
      | [] => throw (.endInList, [])
      | closeBracket :: rest => return ([item], rest)
      | comma :: rest =>
          match skipBlank rest with
          | closeBracket :: _ => throw (.trailingComma, skipBlank rest)
          | _ =>
              let (items, rest) ← elements fuel rest
              return (item :: items, rest)
      | rest => throw (.expectedListEnd, rest)

def members : (fuel : Nat) → (data : Bytes) → Except Rejection (List (Option String × Json) × Bytes)
  | 0, data => .error (.endInObject, data)
  | fuel + 1, data =>
      match skipBlank data with
      | quoteMark :: rest => do
          let (parts, data) ← stringParts rest
          match skipBlank data with
          | [] => throw (.endInObject, [])
          | colon :: data =>
              let (item, data) ← value fuel data
              match skipBlank data with
              | [] => throw (.endInObject, [])
              | closeBrace :: rest => return ([(textOfParts parts, item)], rest)
              | comma :: rest =>
                  match skipBlank rest with
                  | [] => throw (.endInValue, [])
                  | closeBrace :: _ => throw (.trailingComma, skipBlank rest)
                  | _ =>
                      let (items, rest) ← members fuel rest
                      return ((textOfParts parts, item) :: items, rest)
              | rest => throw (.expectedObjectEnd, rest)
          | rest => throw (.expectedColon, rest)
      | [] => .error (.endInValue, [])
      | rest => .error (.keyNotString, rest)

end

def locate (data : Bytes) (fault : SyntaxFault) (left : Bytes) : Fault :=
  let index := min data.length (data.length - left.length + 1)
  let before := data.take index
  .grammar fault (1 + before.count 0x0A) (before.reverse.takeWhile (· != 0x0A)).length

/-- The document that makes up all of `data`, blanks around it aside. -/
def parse (data : Bytes) : Except Fault Json :=
  match value (2 * data.length + 1) data with
  | .error (fault, left) => .error (locate data fault left)
  | .ok (document, rest) =>
      match skipBlank rest with
      | [] => .ok document
      | left => .error (locate data .trailingCharacters left)

/-! ### Writing -/

def escape (char : Char) : String :=
  match char with
  | '"' => "\\\""
  | '\\' => "\\\\"
  | '\n' => "\\n"
  | '\r' => "\\r"
  | '\t' => "\\t"
  | _ =>
      if char.toNat == 0x08 then "\\b"
      else if char.toNat == 0x0C then "\\f"
      else if char.toNat < 0x20 then "\\u" ++ String.ofList (Hex.digits 4 char.toNat)
      else String.singleton char

/-- A string in quotes. A token without text is written as the empty string. -/
def renderString (text : Option String) : String :=
  "\"" ++ String.join ((text.getD "").toList.map escape) ++ "\""

mutual

/-- The compact form of a document. A real number, of which the value is not kept, is zero. -/
def render : Json → String
  | null => "null"
  | bool value => if value then "true" else "false"
  | number (.integer value) => toString value
  | number (.real _) => "0.0"
  | string text => renderString text
  | array items => "[" ++ ",".intercalate (renderItems items) ++ "]"
  | object members => "\x7b" ++ ",".intercalate (renderMembers members) ++ "\x7d"

def renderItems : List Json → List String
  | [] => []
  | item :: rest => render item :: renderItems rest

def renderMembers : List (Option String × Json) → List String
  | [] => []
  | (key, item) :: rest => (renderString key ++ ":" ++ render item) :: renderMembers rest

end

def ofText (text : String) : Json := .string (some text)

def ofNat (value : Nat) : Json := .number (.integer value)

def ofBytes (bytes : Bytes) : Json := .array (bytes.map fun byte => ofNat byte.toNat)

def ofMembers (members : List (String × Json)) : Json :=
  .object (members.map fun (key, item) => (some key, item))

/-! ### Buffering -/

mutual

/-- Whether a document can be kept as a value: every string is text, every number fits a double,
and arrays and objects nest at most `depth` deep. -/
def isKept : (depth : Nat) → Json → Bool
  | _, null => true
  | _, bool _ => true
  | _, number (.integer _) => true
  | _, number (.real finite) => finite
  | _, string text => text.isSome
  | 0, array _ => false
  | depth + 1, array items => allKept depth items
  | 0, object _ => false
  | depth + 1, object members => allMembersKept depth members

def allKept : (depth : Nat) → List Json → Bool
  | _, [] => true
  | depth, item :: rest => isKept depth item && allKept depth rest

def allMembersKept : (depth : Nat) → List (Option String × Json) → Bool
  | _, [] => true
  | depth, (key, item) :: rest =>
      key.isSome && isKept depth item && allMembersKept depth rest

end

end Json

end CilRecovery
