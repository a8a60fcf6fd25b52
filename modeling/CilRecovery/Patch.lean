import CilRecovery.Cipher
import CilRecovery.Image

/-!
# Patches of an image

A patch replaces bytes of a copy of an image. Every address is translated and checked before the
first byte is written, so a list of patches is applied as a whole or not at all.
-/

set_option autoImplicit false

namespace CilRecovery

inductive Addressing
  /-- Relative virtual addresses, translated by the section map. -/
  | virtualAddress
  | fileOffset
  deriving DecidableEq

/-- Of an image that patches are for, only the file positions of addresses matter. -/
class AddressMap (ι : Type) where
  /-- The file position of an address, unless the file does not have it. -/
  offset? (image : ι) (address : UInt32) : Option Nat

instance : AddressMap Image := ⟨Image.offset?⟩

variable {ι : Type} [AddressMap ι]

def Addressing.start? (addressing : Addressing) (image : ι) (address : UInt32) : Option Nat :=
  match addressing with
  | .virtualAddress => AddressMap.offset? image address
  | .fileOffset => some address.toNat

/-- The first index that a write of `length` bytes covers in a target of `targetLength` bytes. -/
def Addressing.resolve (addressing : Addressing) (image : ι) (address : UInt32)
    (length targetLength : Nat) : Except Error Nat :=
  match addressing.start? image address with
  | some start => if start + length ≤ targetLength then .ok start else .error .outOfBounds
  | none => .error .outOfBounds

structure Overwrite where
  start : Nat
  bytes : Bytes
  deriving DecidableEq

/-- Carries out writes in order. Where they overlap the later one stays. -/
def Overwrite.applyAll (writes : List Overwrite) (target : Bytes) : Bytes :=
  writes.foldl (fun target write => target.overwrite write.start write.bytes) target

structure Patch where
  offset : Int32
  value : UInt32
  deriving DecidableEq

abbrev PatchTable := List Patch

namespace PatchTable

def maxEncrypted : Nat := 35

def ofColumns (offsets : List Int32) (values : List UInt32) : Except Error PatchTable :=
  if offsets.length = values.length then .ok (List.zipWith Patch.mk offsets values)
  else .error (.malformed (.patchArity offsets.length values.length))

/-- The table of a stored form: negated addresses and the encrypted values. -/
def ofEncrypted (offsets : List Int32) (encrypted : List UInt32) (key vector : Bytes) :
    Except Error PatchTable := do
  if offsets.isEmpty || maxEncrypted < offsets.length then
    throw (.malformed (.patchTableSize offsets.length))
  let plain ← CipherKind.aes.decrypt key vector (bytesOfWords encrypted)
  if plain.length % 4 ≠ 0 then throw (.malformed (.patchValueSize plain.length))
  ofColumns (offsets.map (- ·)) (wordsOfBytes plain)

def offsets (table : PatchTable) : List Int32 := table.map Patch.offset

def values (table : PatchTable) : List UInt32 := table.map Patch.value

/-- The write that a patch asks for. Negative addresses do not exist. -/
def resolve (image : ι) (addressing : Addressing) (targetLength : Nat) (patch : Patch) :
    Except Error Overwrite := do
  if patch.offset < 0 then throw .outOfBounds
  let start ← addressing.resolve image patch.offset.toUInt32 4 targetLength
  return ⟨start, bytesOfUInt32 patch.value⟩

def writeAll (writes : List Overwrite) : EStateM Error Bytes Unit :=
  writes.forM fun write => modify fun target => target.overwrite write.start write.bytes

/-- Writes every value into the target and counts them. All writes are checked before the first
one is carried out. -/
def applyInPlace (image : ι) (addressing : Addressing) (table : PatchTable) :
    EStateM Error Bytes Nat := do
  let target ← get
  let writes ← MonadExcept.ofExcept (table.mapM (resolve image addressing target.length))
  writeAll writes
  return table.length

def apply (table : PatchTable) (image : ι) (addressing : Addressing) (target : Bytes) :
    Except Error Bytes :=
  match applyInPlace image addressing table target with
  | .ok _ patched => .ok patched
  | .error error _ => .error error

end PatchTable

end CilRecovery
