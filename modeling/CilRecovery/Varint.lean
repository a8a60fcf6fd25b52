import CilRecovery.Reader

/-!
# Variable-length encodings

Integers of variable length, strings behind their length, and sequences of such items.
-/

set_option autoImplicit false

namespace CilRecovery.Varint

/-!
## Integers and strings

Two integer encodings and the strings built on one of them. The compressed form of metadata is
one, two or four bytes, most significant first, with the width in the lead bits. The seven-bit
form has seven payload bits a byte, least significant first, and a continuation bit.
-/

/-! ### Compressed integers -/

def maxCompressed : Nat := 0x1FFFFFFF

def readCompressed : Reader UInt32 := Reader.atomically do
  let lead ← Reader.byte
  if lead < 0x80 then
    return UInt32.ofNat lead.toNat
  else if lead < 0xC0 then
    let low ← Reader.byte
    return UInt32.ofNat ((lead.toNat - 0x80) * 0x100 + low.toNat)
  else if lead < 0xE0 then
    let high ← Reader.byte
    let middle ← Reader.byte
    let low ← Reader.byte
    return UInt32.ofNat
      ((((lead.toNat - 0xC0) * 0x100 + high.toNat) * 0x100 + middle.toNat) * 0x100 + low.toNat)
  else
    throw (.malformed (.compressedLead lead))

def compressed (value : UInt32) : Except Error Bytes :=
  let value' := value.toNat
  if value' < 0x80 then .ok [UInt8.ofNat value']
  else if value' < 0x4000 then
    .ok [UInt8.ofNat (0x80 + value' / 0x100), UInt8.ofNat value']
  else if value' ≤ maxCompressed then
    .ok [UInt8.ofNat (0xC0 + value' / 0x1000000), UInt8.ofNat (value' / 0x10000),
      UInt8.ofNat (value' / 0x100), UInt8.ofNat value']
  else .error (.malformed (.compressedRange value))

/-! ### Seven-bit integers -/

def maxGroups : Nat := 5

/-- Reads up to `groups` seven-bit groups. What a group contributes above bit 31 is lost. -/
def readGroups : (groups : Nat) → Reader UInt32
  | 0 => throw (.malformed (.sevenBitOverflow maxGroups))
  | groups + 1 => do
      let byte ← Reader.byte
      if byte < 0x80 then
        return UInt32.ofNat byte.toNat
      else
        let high ← readGroups groups
        return UInt32.ofNat (byte.toNat - 0x80) + 0x80 * high

def readSevenBit : Reader UInt32 := Reader.atomically (readGroups maxGroups)

/-- The shortest seven-bit form of a value below `128 ^ groups`. -/
def groupsOf : (groups : Nat) → (value : Nat) → Bytes
  | 0, _ => []
  | groups + 1, value =>
      if value < 0x80 then [UInt8.ofNat value]
      else UInt8.ofNat (0x80 + value % 0x80) :: groupsOf groups (value / 0x80)

def sevenBit (value : UInt32) : Bytes := groupsOf maxGroups value.toNat

/-! ### Strings -/

/-- Reads the bytes that a seven-bit length announces, without looking at them. -/
def readPrefixedBytes : Reader Bytes := Reader.atomically do
  let length ← readSevenBit
  Reader.take length.toNat

def readPrefixedText : Reader String := Reader.atomically do
  let start ← Reader.position
  let bytes ← readPrefixedBytes
  match Utf8.decode bytes with
  | .ok text => return text
  | .error fault => throw (.malformed (.invalidText start fault))

/-- Bytes with their length before them. Lengths are kept modulo `2 ^ 32`. -/
def prefixedBytes (bytes : Bytes) : Bytes := sevenBit (UInt32.ofNat bytes.length) ++ bytes

def prefixedText (text : String) : Bytes := prefixedBytes (Utf8.encode text)

end CilRecovery.Varint

namespace CilRecovery

/-!
## Primitive encodings

The items that streams, records and containers are made of: fixed-width integers, the two
variable-length integers and texts. An item is written by itself and read back by its kind.
-/

inductive PrimitiveKind
  | word (kind : WordKind)
  | compressed
  | sevenBit
  | text
  deriving DecidableEq

inductive Primitive
  | word (kind : WordKind) (value : Int)
  | compressed (value : UInt32)
  | sevenBit (value : UInt32)
  | text (value : String)
  deriving DecidableEq

namespace Primitive

def kind : Primitive → PrimitiveKind
  | .word kind _ => .word kind
  | .compressed _ => .compressed
  | .sevenBit _ => .sevenBit
  | .text _ => .text

def write : Primitive → Writer Unit
  | .word kind value => Writer.put (kind.encode value)
  | .compressed value => Writer.putChecked (Varint.compressed value)
  | .sevenBit value => Writer.put (Varint.sevenBit value)
  | .text value => Writer.put (Varint.prefixedText value)

end Primitive

def PrimitiveKind.read : PrimitiveKind → Reader Primitive
  | .word kind => Primitive.word kind <$> Reader.word kind
  | .compressed => Primitive.compressed <$> Varint.readCompressed
  | .sevenBit => Primitive.sevenBit <$> Varint.readSevenBit
  | .text => Primitive.text <$> Varint.readPrefixedText

end CilRecovery
