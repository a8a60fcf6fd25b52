import CilRecovery.Image
import CilRecovery.WordMap

/-!
# Methods by code address

A method stream names the address at which a runtime would start to execute, which lies past the
method's header. The index finds the row that owns such an address.
-/

set_option autoImplicit false

namespace CilRecovery

/-- What an index is built of. Whatever supplies it is an image. -/
class ContainerImage (ι : Type) where
  /-- The rows of the method table, in table order. -/
  rows (image : ι) : List MethodRow
  /-- The bytes from an address to the end of the file, unless the file does not have it. -/
  bytesAt (image : ι) (address : UInt32) : Except Error Bytes
  generation (image : ι) : Nat

instance : ContainerImage Image where
  rows := Image.rows
  bytesAt := Image.bytesAt
  generation := Image.generation

/-- The rows of an image by the address of their first code byte. -/
structure AddressIndex where
  rows : WordMap MethodRow
  generation : Nat

namespace ContainerImage

variable {ι : Type} [ContainerImage ι]

/-- The code address of a row and the row, unless it has no body or no readable header. Addresses
are counted modulo `2 ^ 32`. -/
def keyed? (image : ι) (row : MethodRow) : Option (UInt32 × MethodRow) :=
  if row.address = 0 then none
  else
    match bytesAt image row.address >>= Method.Header.announcedSize with
    | .ok size => some (row.address + UInt32.ofNat size, row)
    | .error _ => none

/-- The rows by code address. Of rows that share one the last is kept. -/
def index (image : ι) : AddressIndex :=
  ⟨WordMap.ofList ((rows image).filterMap (keyed? image)), generation image⟩

end ContainerImage

namespace AddressIndex

def build (image : Image) : AddressIndex := ContainerImage.index image

def row? (index : AddressIndex) (address : UInt32) : Option MethodRow := index.rows.find? address

def resolve? (index : AddressIndex) (address : UInt32) : Option Token :=
  (index.row? address).map MethodRow.token

def lookup (index : AddressIndex) (address : UInt32) : Except Error MethodRow :=
  match index.row? address with
  | some row => .ok row
  | none => .error (.addressMiss address)

def size (index : AddressIndex) : Nat := index.rows.size

/-- An index that is kept for as long as the generation of the image stays. -/
structure Cache where
  kept : Option AddressIndex

namespace Cache

def empty : Cache := ⟨none⟩

/-- The index for an image: the kept one if it is of the image's generation, a new one
otherwise. -/
def get (cache : Cache) (image : Image) : AddressIndex :=
  match cache.kept with
  | some index => if index.generation = image.generation then index else build image
  | none => build image

def refresh (cache : Cache) (image : Image) : Cache := ⟨some (cache.get image)⟩

/-- Whatever was kept, an image is answered with an index of its own generation. -/
theorem generation_get (cache : Cache) (image : Image) :
    (cache.get image).generation = image.generation := by
  unfold get
  split
  · split
    · assumption
    · rfl
  · rfl

/-- Keeping the answer does not change it. -/
@[simp] theorem get_refresh (cache : Cache) (image : Image) :
    (cache.refresh image).get image = cache.get image :=
  if_pos (cache.generation_get image)

end Cache

end AddressIndex

end CilRecovery
