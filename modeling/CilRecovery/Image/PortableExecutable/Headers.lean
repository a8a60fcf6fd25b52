import CilRecovery.Image.PortableExecutable.Layout
import CilRecovery.Text

/-!
# Headers of portable executables

The headers tell the machine, the data directories and the sections. Only as much of them is read
as is needed to find and trust the section table and the tables of the directories.
-/

set_option autoImplicit false

namespace CilRecovery.PortableExecutable

/-- The first two bytes of the file: `MZ`. -/
def dosSignature : UInt16 := 0x5A4D

/-- Where the position of the image headers is stored, in the last bytes of the DOS header. -/
def headerPointer : Nat := 0x3C

def dosHeaderSize : Nat := 0x40

/-- The first four bytes of the image headers: `PE` and two zeros. -/
def imageSignature : UInt32 := 0x4550

def maxDirectories : Nat := 16

/-- Size of a symbol. The names of symbols stand behind all of them. -/
def symbolSize : Nat := 18

/-- A data directory: the address of a table and its size. Without a table both are zero. -/
structure Directory where
  address : Nat
  size : Nat
  deriving DecidableEq

structure OptionalHeader where
  isWide : Bool
  imageBase : Nat
  fileAlignment : Nat
  directories : List Directory
  deriving DecidableEq

structure Headers where
  machine : UInt16
  layout : Layout
  directories : List Directory
  deriving DecidableEq

/-! ## Optional header -/

/-- Whether an optional header of the given kind describes an image with 64-bit pointers. -/
def isWideKind? (kind : UInt16) : Option Bool :=
  if kind = 0x10B then some false else if kind = 0x20B then some true else none

def readDirectory : Reader Directory := do
  let address ← Reader.unsigned 4
  let size ← Reader.unsigned 4
  return ⟨address, size⟩

def readOptionalHeader : Reader OptionalHeader := do
  let kind ← Reader.peek Reader.uint16
  match isWideKind? kind with
  | none => throw (.executable .optionalHeader)
  | some isWide =>
      Reader.skip (if isWide then 24 else 28)
      let imageBase ← Reader.unsigned (if isWide then 8 else 4)
      Reader.skip 4
      let fileAlignment ← Reader.unsigned 4
      Reader.skip (if isWide then 68 else 52)
      let count ← Reader.unsigned 4
      if maxDirectories < count then throw (.executable .optionalHeader)
      let directories ← Reader.times readDirectory count
      return ⟨isWide, imageBase, fileAlignment, directories⟩

/-! ## Section table -/

def base64Value? (digit : UInt8) : Option Nat :=
  if 0x41 ≤ digit && digit ≤ 0x5A then some (digit.toNat - 0x41)
  else if 0x61 ≤ digit && digit ≤ 0x7A then some (digit.toNat - 0x61 + 26)
  else if Digits.isDigit digit then some (digit.toNat - 0x30 + 52)
  else if digit = 0x2B then some 62
  else if digit = 0x2F then some 63
  else none

def base64? (digits : Bytes) : Option Nat := do
  let values ← digits.mapM base64Value?
  return values.foldl (fun number value => number * 64 + value) 0

/-- The number that decimal digits, of which there must be some, stand for. A plus sign may stand
in front of them. -/
def decimal? (text : Bytes) : Option Nat :=
  let digits := if text.head? == some 0x2B then text.drop 1 else text
  if digits.isEmpty || !digits.all Digits.isDigit then none else some (Digits.decimal digits)

@[match_pattern] abbrev slash : UInt8 := 0x2F

/-- The index of a long section name, if the name field holds one. It is decimal behind one slash
and to the base 64 behind two. -/
def longNameIndex? : (field : Bytes) → Except Error (Option Nat)
  | slash :: slash :: digits =>
      match base64? (digits.takeWhile (· != 0)) with
      | some index => .ok (some index)
      | none => .error (.executable .sectionName)
  | slash :: digits =>
      match decimal? (digits.takeWhile (· != 0)) with
      | some index => .ok (some index)
      | none => .error (.executable .sectionName)
  | _ => .ok none

/-- Reads an entry of the section table. Long names are counted from `names`. -/
def readSection (names : Nat) : Reader SectionMapping := do
  let field ← Reader.take 8
  if let some index ← Reader.check (longNameIndex? field) then
    Reader.peek (checkTextAt (names + index))
  let virtualSize ← Reader.uint32
  let virtualAddress ← Reader.uint32
  let rawSize ← Reader.uint32
  let rawOffset ← Reader.uint32
  Reader.skip 16
  return ⟨virtualAddress, virtualSize, rawOffset, rawSize⟩

/-! ## All headers -/

/-- Reads the headers. An optional header may be absent, and then there are no directories. -/
def readHeaders : Reader Headers := do
  let signature ← Reader.uint16
  if signature ≠ dosSignature then throw (.executable .dosSignature)
  Reader.seek headerPointer
  let header ← Reader.uint32
  if header.toNat < dosHeaderSize then throw (.executable .overlappingHeaders)
  Reader.seek header.toNat
  let signature ← Reader.uint32
  if signature ≠ imageSignature then throw (.executable .imageSignature)
  let machine ← Reader.uint16
  let sectionCount ← Reader.uint16
  Reader.skip 4
  let symbols ← Reader.unsigned 4
  let symbolCount ← Reader.unsigned 4
  let optionalSize ← Reader.uint16
  Reader.skip 2
  let optional ←
    if optionalSize = 0 then pure ⟨false, 0, 0, []⟩ else Reader.peek readOptionalHeader
  Reader.leap optionalSize.toNat
  let names := symbols + symbolSize * symbolCount
  let sections ← Reader.times (readSection names) sectionCount.toNat
  return {
    machine
    layout := ⟨optional.isWide, optional.imageBase, optional.fileAlignment, sections⟩
    directories := optional.directories }

end CilRecovery.PortableExecutable
