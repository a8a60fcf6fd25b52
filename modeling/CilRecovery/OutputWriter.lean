import CilRecovery.PatchEngine

/-!
# Writers of an output

Kept methods are written back through a writer, which knows what of the output is left and where
its bodies lie, and lends out the bytes of a resource. An image is such a writer.
-/

set_option autoImplicit false

namespace CilRecovery

/-- What a writer answers when it is asked for the bytes of a resource. -/
inductive Loan (ω : Type)
  | absent (writer : ω)
  /-- The bytes, and the writer once others of the same length have taken their place. -/
  | lent (data : Bytes) (giveBack : Bytes → ω)

class OutputWriter (ω : Type) where
  methodExists (writer : ω) (token : Token) : Bool
  methodBody? (writer : ω) (token : Token) : Option WrittenBody
  lend (writer : ω) (name : String) : Loan ω

instance : OutputWriter Image where
  methodExists := Image.containsMethod
  methodBody? := Image.methodBody?
  lend image name :=
    match image.resourceSlot? name with
    | none => .absent image
    | some slot =>
        .lent ((image.data.drop slot.offset).take slot.length) (image.write slot.offset)

namespace OutputWriter

variable {ω : Type} [OutputWriter ω]

def surviving (writer : ω) (table : OpaqueTable) : List (Token × Bytes) :=
  table.toList.filter fun (token, _) => methodExists writer token

/-- The length of the encrypted stream of the surviving methods, if there are any. Encryption
fills the last block up, or adds one if it is full. -/
def slotLength? (writer : ω) (table : OpaqueTable) (blockSize : Nat) : Option Nat :=
  let methods := surviving writer table
  if methods.isEmpty || blockSize = 0 then none
  else
    let length := OpaqueTable.streamLength methods
    some (length - length % blockSize + blockSize)

def entryOf (writer : ω) (method : Token × Bytes) (index : Nat) :
    Except Error MethodStream.MethodEntry :=
  match methodBody? writer method.1 with
  | none => .error (.methodNotFound method.1)
  | some body => do
      let codeAddress ← body.codeAddress
      return ⟨codeAddress, nativeIndexBase + UInt32.ofNat index, method.2⟩

/-- The stream of the surviving methods, not masked, if there are any. -/
def serialize (writer : ω) (table : OpaqueTable) : Except Error (Option (Bytes × Nat)) := do
  let methods := surviving writer table
  if methods.isEmpty then return none
  let entries ← methods.zipIdx.mapM fun (method, index) => entryOf writer method index
  return some (MethodStream.encodeMethods 0 [] entries, methods.length)

def encryptSurvivors (engine : PatchEngine) (context : ResourceContext) (writer : ω) :
    Except Error (Option (Bytes × Nat)) := do
  match ← serialize writer engine.kept with
  | none => return none
  | some (stream, count) =>
      let encrypted ← context.encrypt (MethodStream.mask engine.hints.maskKey stream)
      return some (encrypted, count)

/-- Encrypts the surviving methods into their resource, in place. A loan of the wrong length goes
back with the bytes it came with. -/
def reEncrypt (engine : PatchEngine) (context : ResourceContext) : EStateM Error ω Nat :=
  fun writer =>
    match encryptSurvivors engine context writer with
    | .error error => .error error writer
    | .ok none => .ok 0 writer
    | .ok (some (encrypted, count)) =>
        match lend writer context.name with
        | .absent writer => .error (.notFound (.resource context.name)) writer
        | .lent data giveBack =>
            if data.length ≠ encrypted.length then
              .error (.slotMismatch data.length encrypted.length) (giveBack data)
            else .ok count (giveBack encrypted)

end OutputWriter

/-! ## Images -/

namespace OpaqueTable

def surviving (table : OpaqueTable) (output : Image) : List (Token × Bytes) :=
  OutputWriter.surviving output table

def slotLength? (table : OpaqueTable) (output : Image) (blockSize : Nat) : Option Nat :=
  OutputWriter.slotLength? output table blockSize

def serialize (table : OpaqueTable) (output : Image) : Except Error (Option (Bytes × Nat)) :=
  OutputWriter.serialize output table

end OpaqueTable

/-- Encrypts the kept methods that survive in the output into the slot of their resource, which
they must fill exactly. Gives their number and the new output. -/
def PatchEngine.reEncrypt (engine : PatchEngine) (output : Image) (context : ResourceContext) :
    Except Error (Nat × Image) :=
  match OutputWriter.reEncrypt engine context output with
  | .ok count output => .ok (count, output)
  | .error error _ => .error error

end CilRecovery
