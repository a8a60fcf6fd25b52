import CilRecovery.Image
import CilRecovery.Text

/-!
# Loading of portable executables

Where the tables of a portable executable lie in its file. A section is loaded in whole sectors
and pages, so it can hold addresses a little past its data. This differs from the section map of
an image, which knows the bytes of the data only.
-/

set_option autoImplicit false

namespace CilRecovery.PortableExecutable

/-- Reading a section begins at a multiple of this unit. -/
def sectorSize : Nat := 0x200

/-- The size of a section is rounded up to this unit. -/
def pageSize : Nat := 0x1000

def roundUp (unit value : Nat) : Nat := value + paddingTo unit value

def readStart (mapping : SectionMapping) : Nat :=
  mapping.rawOffset.toNat / sectorSize * sectorSize

/-- The number of addresses that a section holds: the bytes up to the aligned end of its data,
counted from where reading begins, but no more pages than its data or its memory take. A size in
memory of zero sets no limit. -/
def loadSize (fileAlignment : Nat) (mapping : SectionMapping) : Nat :=
  let stored := roundUp fileAlignment (mapping.rawOffset.toNat + mapping.rawSize.toNat)
  let size := min (stored - readStart mapping) (roundUp pageSize mapping.rawSize.toNat)
  if mapping.virtualSize = 0 then size
  else min size (roundUp pageSize mapping.virtualSize.toNat)

/-- What is needed to follow an address: the width of pointers, the address at which the image
would like to be loaded, the alignment of sections in the file, and the sections. -/
structure Layout where
  isWide : Bool
  imageBase : Nat
  fileAlignment : Nat
  sections : List SectionMapping
  deriving DecidableEq

namespace Layout

def pointerSize (layout : Layout) : Nat := if layout.isWide then 8 else 4

/-- The file position of a relative address, counted from the start of the section's data. Only an
alignment that is a power of two loads anything. -/
def position? (layout : Layout) (address : Nat) : Option Nat :=
  if 1 <<< layout.fileAlignment.log2 = layout.fileAlignment then
    layout.sections.findSome? fun mapping =>
      let start := mapping.virtualAddress.toNat
      if start ≤ address && address < start + loadSize layout.fileAlignment mapping then
        some (mapping.rawOffset.toNat + (address - start))
      else none
  else none

end Layout

/-! ## Moving to tables -/

def goTo (position : Nat) : Reader Unit := do
  Reader.seek position
  let _ ← Reader.peekByte

def Layout.locate (layout : Layout) (address : Nat) : Reader Nat :=
  match layout.position? address with
  | some position => return position
  | none => throw (.executable .unmappedAddress)

def Layout.goTo (layout : Layout) (address : Nat) : Reader Unit := do
  PortableExecutable.goTo (← layout.locate address)

def Layout.relative (layout : Layout) (address : Nat) : Reader Nat :=
  if layout.imageBase ≤ address then return address - layout.imageBase
  else throw (.executable .unmappedAddress)

def readUpToZero (width : Nat) : (fuel : Nat) → Reader (List Nat)
  | 0 => throw .outOfBounds
  | fuel + 1 => do
      let first ← Reader.unsigned width
      if first = 0 then return []
      let others ← readUpToZero width fuel
      return first :: others

def Layout.readPointers (layout : Layout) : Reader (List Nat) := do
  readUpToZero layout.pointerSize ((← Reader.left) + 1)

def checkText (bytes : Bytes) : Reader Unit :=
  match Utf8.decode bytes with
  | .ok _ => return ()
  | .error _ => throw (.executable .text)

/-- Checks the text at a position, which ends in front of a zero byte or with the file. -/
def checkTextAt (position : Nat) : Reader Unit := do
  goTo position
  checkText ((← Reader.rest).takeWhile (· != 0))

end CilRecovery.PortableExecutable
