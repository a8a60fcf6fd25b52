import CilRecovery.Oracle.Channel
import CilRecovery.OutputWriter

/-!
# Protection schemes

A scheme is one kind of protection with the parameters that were found for a module. It says
whether the protection is present, decrypts the protected material without touching the image,
applies it to a copy of the image, and encrypts again what has to stay encrypted.
-/

set_option autoImplicit false

namespace CilRecovery

inductive ResourceLayout
  /-- Encrypted with known key material, then framed. -/
  | framed (context : ResourceContext)
  /-- Encrypted with a key that stands in front. -/
  | keyPrefixed (name : String)
  deriving DecidableEq

def ResourceLayout.resourceName : ResourceLayout → String
  | .framed context => context.name
  | .keyPrefixed name => name

inductive Payload
  /-- There is nothing to decrypt. -/
  | nothing
  | methodStream (stream : Bytes)
  | resource (resource : RecoveredResource)
  | methods (methods : MethodTable)

def Payload.kind : Payload → PayloadKind
  | .nothing => .nothing
  | .methodStream _ => .methodStream
  | .resource _ => .resource
  | .methods _ => .methods

structure Contribution where
  methods : MethodTable
  resources : List RecoveredResource
  writes : Nat

def Contribution.none : Contribution := ⟨.empty, [], 0⟩

/-- How the methods of a target are observed while it runs on a helper. -/
abbrev Harvest :=
  Oracle.Config → Oracle.Runtime → Oracle.TargetSource → Bytes → Except Error MethodTable

inductive Scheme
  /-- Method bodies in an encrypted resource. -/
  | nativeMethods (context : ResourceContext) (engine : PatchEngine)
  /-- Resources in one encrypted blob. -/
  | resource (layout : ResourceLayout)
  /-- Words that a loader writes into the mapped image. -/
  | memoryPatch (table : PatchTable) (addressing : Addressing)
  /-- Method bodies that only the running target has. -/
  | oracle (config : Oracle.Config) (runtime : Oracle.Runtime) (initializer : Bytes)

namespace Scheme

def kind : Scheme → SchemeKind
  | .nativeMethods _ _ => .nativeMethods
  | .resource _ => .resource
  | .memoryPatch _ _ => .memoryPatch
  | .oracle _ _ _ => .oracle

def isPresent (scheme : Scheme) (image : Image) : Bool :=
  match scheme with
  | .nativeMethods context _ => (image.resource? context.name).isSome
  | .resource layout => (image.resource? layout.resourceName).isSome
  | .memoryPatch table _ => !table.isEmpty
  | .oracle config runtime _ =>
      (config.helper? runtime).isSome && !image.methodAddresses.isEmpty

def decrypt (harvest : Harvest) (scheme : Scheme) (image : Image) : Except Error Payload :=
  match scheme with
  | .nativeMethods context _ => do
      match ← Resource.decrypt image context with
      | some (_, stream) => return .methodStream stream
      | none => return .nothing
  | .resource layout => do
      let recovered ← match layout with
        | .framed context => Resource.recover image context
        | .keyPrefixed name => Resource.recoverKeyPrefixed image name
      match recovered with
      | some found => return .resource found
      | none => return .nothing
  | .memoryPatch _ _ => return .nothing
  | .oracle config runtime initializer => do
      let methods ← harvest config runtime (.bytes image.data) initializer
      return .methods methods

/-- The contribution of a scheme or its error, the copy of the image, and the scheme afterwards. -/
structure Patched where
  result : Except Error Contribution
  target : Bytes
  scheme : Scheme

def patch (scheme : Scheme) (image : Image) (payload : Payload) (target : Bytes) : Patched :=
  match scheme, payload with
  | .nativeMethods _ _, .nothing => ⟨.ok .none, target, scheme⟩
  | .nativeMethods context engine, .methodStream stream =>
      let applied := engine.apply stream image target
      ⟨applied.result.map fun outcome => ⟨outcome.methods, [], outcome.writes⟩, applied.target,
        .nativeMethods context applied.engine⟩
  | .resource _, .nothing => ⟨.ok .none, target, scheme⟩
  | .resource _, .resource found => ⟨.ok ⟨.empty, [found], 0⟩, target, scheme⟩
  | .memoryPatch table addressing, .nothing =>
      match table.apply image addressing target with
      | .ok target => ⟨.ok ⟨.empty, [], table.length⟩, target, scheme⟩
      | .error error => ⟨.error error, target, scheme⟩
  | .oracle _ _ _, .methods methods => ⟨.ok ⟨methods, [], 0⟩, target, scheme⟩
  | _, _ => ⟨.error (.malformed (.payloadMismatch scheme.kind payload.kind)), target, scheme⟩

def rebind (scheme : Scheme) (image : Image) : Except Error Unit :=
  match scheme with
  | .nativeMethods _ engine => engine.kept.rebind image
  | _ => .ok ()

def writeBack (scheme : Scheme) : EStateM Error Image Nat := fun output =>
  match scheme with
  | .nativeMethods context engine =>
      match engine.reEncrypt output context with
      | .ok (count, output) => .ok count output
      | .error error => .error error output
  | _ => .ok 0 output

end Scheme

end CilRecovery
