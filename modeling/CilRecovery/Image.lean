import CilRecovery.Method.Body

/-!
# Container images

The bytes of a file together with what a metadata reader knows about it: the section map, the rows
of the method table and the embedded resources. Relative virtual addresses are translated to
indices of the bytes. The generation tells a reloaded image from the one it replaces.
-/

set_option autoImplicit false

namespace CilRecovery

structure ResourceLocation where
  offset : Nat
  length : Nat
  deriving DecidableEq

/-- A row of the method table. The address of a method without a body is zero. -/
structure MethodRow where
  index : UInt32
  address : UInt32
  deriving DecidableEq

def MethodRow.token (row : MethodRow) : Token := Token.ofMethodRow row.index

structure SectionMapping where
  virtualAddress : UInt32
  virtualSize : UInt32
  rawOffset : UInt32
  rawSize : UInt32
  deriving DecidableEq

/-- The file position of an address inside the section's data. Of the mapped range only the part
with data in the file has one, whatever the size in memory. -/
def SectionMapping.translate? (mapping : SectionMapping) (address : UInt32) : Option Nat :=
  if mapping.virtualAddress ≤ address then
    let delta := address.toNat - mapping.virtualAddress.toNat
    if delta < mapping.rawSize.toNat then some (mapping.rawOffset.toNat + delta) else none
  else none

structure WrittenBody where
  address : UInt32
  record : Bytes
  deriving DecidableEq

def WrittenBody.codeAddress (body : WrittenBody) : Except Error UInt32 := do
  let size ← Method.Header.announcedSize body.record
  if body.address.toNat + size < UInt32.size then return UInt32.ofNat (body.address.toNat + size)
  else throw .outOfBounds

/-- A container image. The method table is given by the addresses of its rows. -/
structure Image where
  data : Bytes
  sections : List SectionMapping
  methodAddresses : List UInt32
  resources : List (String × ResourceLocation)
  /-- The number of reloads. It is not bounded: it starts at zero and only a reload adds to it, so
  a count of 64 bits would come round after `2 ^ 64` of them at the earliest. -/
  generation : Nat
  deriving DecidableEq

namespace Image

/-! ## Construction -/

def ofBytes (data : Bytes) : Image := ⟨data, [], [], [], 0⟩

def addSection (image : Image) (mapping : SectionMapping) : Image :=
  { image with sections := image.sections ++ [mapping] }

def addMethod (image : Image) (address : UInt32) : Image :=
  { image with methodAddresses := image.methodAddresses ++ [address] }

/-- Registers a resource in place of one that has its name. -/
def addResource (image : Image) (name : String) (location : ResourceLocation) : Image :=
  { image with resources := (name, location) :: image.resources }

def write (image : Image) (offset : Nat) (bytes : Bytes) : Image :=
  { image with data := image.data.overwrite offset bytes }

/-- Replaces all bytes by a new copy of the same layout. -/
def reload (image : Image) (data : Bytes) : Image :=
  { image with data, generation := image.generation + 1 }

/-! ## Addresses -/

/-- The file position of an address: that of the first section that has it, or the address itself
if there are no sections. Positions past the end of the file do not count. -/
def offset? (image : Image) (address : UInt32) : Option Nat :=
  let candidate :=
    if image.sections.isEmpty then some address.toNat
    else image.sections.findSome? (·.translate? address)
  candidate.filter (· < image.data.length)

def bytesAt (image : Image) (address : UInt32) : Except Error Bytes :=
  match image.offset? address with
  | some offset => .ok (image.data.drop offset)
  | none => .error .outOfBounds

/-! ## Methods -/

def rows (image : Image) : List MethodRow :=
  image.methodAddresses.zipIdx.map fun (address, index) => ⟨UInt32.ofNat (index + 1), address⟩

def containsMethod (image : Image) (token : Token) : Bool :=
  token.isMethod && image.rows.any (·.index == token.row)

def methodBody? (image : Image) (token : Token) : Option WrittenBody := do
  let row ← image.rows.find? (·.token == token)
  guard (row.address != 0)
  let data ← (image.bytesAt row.address).toOption
  let body ← (Method.Body.parse data).toOption
  return ⟨row.address, data.take body.totalSize⟩

/-! ## Resources -/

def resource? (image : Image) (name : String) : Option ResourceLocation :=
  image.resources.lookup name

def resourceSlot? (image : Image) (name : String) : Option ResourceLocation :=
  (image.resource? name).filter fun location =>
    location.offset + location.length ≤ image.data.length

def resourceData? (image : Image) (name : String) : Option Bytes :=
  (image.resourceSlot? name).map fun location =>
    (image.data.drop location.offset).take location.length

end Image

end CilRecovery
