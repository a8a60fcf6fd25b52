import CilRecovery.Cipher
import CilRecovery.Compression
import CilRecovery.Image
import CilRecovery.Varint

/-!
# Protected resources

A payload in a resource is framed, encrypted and compressed.
-/

set_option autoImplicit false

namespace CilRecovery.Resource

/-!
## Framed resources

A decrypted resource holds a count, that many names, a length and the payload. The count and the
length are combined with salts; without a salt for the length, the payload is everything after
the names.
-/

def saltedCount (counter : Counter) (salt : UInt32) : Reader Nat := do
  let raw ← Reader.uint32
  let count := WordKind.i32.interpret (raw ^^^ salt).toNat
  if count < 0 then throw (.malformed (.negative counter count))
  return count.toNat

def readFrame (countSalt lengthSalt : Option UInt32) : Reader Bytes := do
  let count ← saltedCount .resourceEntries (countSalt.getD 0)
  let _names ← Reader.times Varint.readPrefixedBytes count
  match lengthSalt with
  | some salt =>
      let length ← saltedCount .resourceLength salt
      Reader.take length
  | none => Reader.rest

def unframe (countSalt lengthSalt : Option UInt32) (data : Bytes) : Except Error Bytes :=
  (readFrame countSalt lengthSalt).decode data

def frame (countSalt lengthSalt : Option UInt32) (names : List Bytes) (payload : Bytes) : Bytes :=
  let salted (count : Nat) (salt : UInt32) := bytesOfUInt32 (UInt32.ofNat count ^^^ salt)
  let head := salted names.length (countSalt.getD 0) ++ names.flatMap Varint.prefixedBytes
  match lengthSalt with
  | some salt => head ++ salted payload.length salt ++ payload
  | none => head ++ payload

end CilRecovery.Resource

namespace CilRecovery

/-!
## Encrypted resources

Protectors move resources into one encrypted blob. It is either encrypted with known key material
and framed, or it stores its own key in front. A resource that does not exist is no error: the
protection is not there.
-/

structure ResourceContext where
  name : String
  cipher : CipherKind
  key : Bytes
  vector : Bytes
  countSalt : Option UInt32
  lengthSalt : Option UInt32
  compression : Compression
  deriving DecidableEq

structure RecoveredResource where
  name : String
  location : ResourceLocation
  payload : Bytes
  deriving DecidableEq

namespace ResourceContext

def decrypt (context : ResourceContext) (data : Bytes) : Except Error Bytes := do
  let plain ← context.cipher.decrypt context.key context.vector data
  context.compression.decompress plain

/-- Encrypts. Nothing is compressed again. -/
def encrypt (context : ResourceContext) (data : Bytes) : Except Error Bytes :=
  context.cipher.encrypt context.key context.vector data

end ResourceContext

namespace Resource

/-- The location and the bytes of a resource. The bytes of one that exists must be there. -/
def find (image : Image) (name : String) : Except Error (Option (ResourceLocation × Bytes)) :=
  match image.resource? name with
  | none => .ok none
  | some location =>
      match image.resourceData? name with
      | some data => .ok (some (location, data))
      | none => .error .outOfBounds

def decrypt (image : Image) (context : ResourceContext) :
    Except Error (Option (ResourceLocation × Bytes)) := do
  match ← find image context.name with
  | none => return none
  | some (location, data) => return some (location, ← context.decrypt data)

def recover (image : Image) (context : ResourceContext) :
    Except Error (Option RecoveredResource) := do
  match ← decrypt image context with
  | none => return none
  | some (location, plain) =>
      let payload ← unframe context.countSalt context.lengthSalt plain
      return some ⟨context.name, location, payload⟩

def readKeyed : Reader (Bytes × Bytes) := do
  let key ← Varint.readPrefixedText
  let data ← Reader.rest
  return (Utf8.encode key, data)

/-- Recovers a resource that starts with its key, which is also its initialisation vector. -/
def recoverKeyPrefixed (image : Image) (name : String) :
    Except Error (Option RecoveredResource) := do
  match ← find image name with
  | none => return none
  | some (location, data) =>
      let (key, encrypted) ← readKeyed.decode data
      let payload ← CipherKind.des.decrypt key key encrypted
      return some ⟨name, location, payload⟩

end Resource

end CilRecovery
