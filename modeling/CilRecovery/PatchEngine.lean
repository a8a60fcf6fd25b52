import CilRecovery.AddressIndex
import CilRecovery.MethodStream
import CilRecovery.MethodTable
import CilRecovery.Patch
import CilRecovery.Resource

/-!
# Applying method streams

The engine applies the decrypted method stream of one file: it writes into a copy of the image,
finds the method behind each record and collects the bodies. Native code that has to stay is kept.
-/

set_option autoImplicit false

namespace CilRecovery

structure PatchEngine where
  hints : MethodStream.Hints
  cache : AddressIndex.Cache
  kept : OpaqueTable

namespace PatchEngine

structure Outcome where
  format : MethodStream.Format
  methods : MethodTable
  writes : Nat
  /-- The code addresses that no method owns, in stream order. -/
  misses : List UInt32

def ofHints (hints : MethodStream.Hints) : PatchEngine := ⟨hints, .empty, .empty⟩

def reset (engine : PatchEngine) : PatchEngine := ofHints engine.hints

def index (engine : PatchEngine) (image : Image) : AddressIndex := engine.cache.get image

def refresh (engine : PatchEngine) (image : Image) : PatchEngine :=
  { engine with cache := engine.cache.refresh image }

/-! ## Writes -/

def resolveWrite? (image : Image) (direct : Addressing) (targetLength : Nat) :
    MethodStream.Record → Except Error (Option Overwrite)
  | .dword address value => do
      let start ← Addressing.virtualAddress.resolve image address 4 targetLength
      return some ⟨start, bytesOfUInt32 value⟩
  | .write address data => do
      let start ← direct.resolve image address data.length targetLength
      return some ⟨start, data⟩
  | .method _ _ _ => return none

def resolveWrites (image : Image) (direct : Addressing) (targetLength : Nat)
    (records : List MethodStream.Record) : Except Error (List Overwrite) := do
  let writes ← records.mapM (resolveWrite? image direct targetLength)
  return writes.filterMap id

/-! ## Methods -/

structure Collection where
  kept : OpaqueTable
  methods : MethodTable
  misses : List UInt32

/-- The managed code of a method record. Indices from the native base on mark native code. -/
def managedCode (index : UInt32) (code : Bytes) : Bytes :=
  if nativeIndexBase ≤ index then (NativeStub.classify code).managedCode else code

def isKept (index : UInt32) (code : Bytes) : Bool :=
  nativeIndexBase ≤ index && NativeStub.classify code == .opaqueCode

def patchedBody (image : Image) (target : Bytes) (row : MethodRow) :
    Except Error Method.Body :=
  match image.offset? row.address with
  | none => .error .outOfBounds
  | some offset =>
      match target.from? offset with
      | none => .error .outOfBounds
      | some data => Method.Body.parse data

/-- Adds a method record to the collection. Native code is kept before the patched body is
looked at, so it stays kept if that fails. -/
def collect (index : AddressIndex) (image : Image) (target : Bytes) :
    MethodStream.Record → EStateM Error Collection Unit
  | .method codeAddress methodIndex code => do
      match index.row? codeAddress with
      | none => modify fun seen => { seen with misses := seen.misses ++ [codeAddress] }
      | some row =>
          let token := row.token
          if isKept methodIndex code then
            modify fun seen => { seen with kept := seen.kept.keep token code }
          match patchedBody image target row >>= fun prior =>
              RecoveredMethod.withCode token row.address prior
                (managedCode methodIndex code) with
          | .ok method => modify fun seen => { seen with methods := seen.methods.add method }
          | .error error => throw error
  | _ => return ()

/-! ## Applying -/

/-- The result of a stream, the copy after its writes, and the engine. The copy of a stream that
failed is of no use. -/
structure Application where
  result : Except Error Outcome
  target : Bytes
  engine : PatchEngine

def prepare (hints : MethodStream.Hints) (stream : Bytes) (image : Image) (targetLength : Nat) :
    Except Error (MethodStream.Format × List MethodStream.Record × List Overwrite) := do
  let stream := MethodStream.mask hints.maskKey stream
  let format ← MethodStream.detect stream hints
  let records ← MethodStream.records format stream
  let direct := if hints.fileOffsets then Addressing.fileOffset else .virtualAddress
  let writes ← resolveWrites image direct targetLength records
  return (format, records, writes)

/-- Applies a decrypted, still masked stream to a copy of the image. -/
def apply (engine : PatchEngine) (stream : Bytes) (image : Image) (target : Bytes) :
    Application :=
  match prepare engine.hints stream image target.length with
  | .error error => ⟨.error error, target, engine⟩
  | .ok (format, records, writes) =>
      let target := Overwrite.applyAll writes target
      let index := engine.index image
      let engine := engine.refresh image
      match records.forM (collect index image target) ⟨engine.kept, .empty, []⟩ with
      | .ok () seen =>
          ⟨.ok ⟨format, seen.methods, writes.length, seen.misses⟩, target,
            { engine with kept := seen.kept }⟩
      | .error error seen => ⟨.error error, target, { engine with kept := seen.kept }⟩

end PatchEngine

end CilRecovery
