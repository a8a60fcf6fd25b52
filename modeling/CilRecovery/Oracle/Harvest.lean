import CilRecovery.Oracle.Helper.Script
import CilRecovery.Oracle.Session

/-!
# Harvesting methods with a helper

A complete session for one file: start the helper, make the three requests, close. Whatever
happens, the helper is gone in the end.
-/

set_option autoImplicit false

namespace CilRecovery.Oracle

variable {state : Type}

/-- How a helper is started: from its path, its arguments and the size of its messages. -/
abbrev Launch (state : Type) := String → List String → Nat → Except Error state

def Config.startHelper (config : Config) (launch : Launch state) (runtime : Runtime) :
    Except Error state :=
  match config.helper? runtime with
  | none => .error (.notFound (.helper runtime))
  | some path => launch path config.arguments config.messageLimit

/-- Waits for a helper, which must run on the expected runtime. -/
def Session.expectRuntime (host : Channel state) (runtime : Runtime) :
    Call state Unit := do
  let actual ← Session.waitConnected host
  if actual ≠ runtime then
    Session.fault host .connect (.protocol .connect (.wrongRuntime actual runtime))

def connectOver (launch : Launch state) (host : Channel state) (config : Config)
    (runtime : Runtime) : Except Error (Session state) := do
  let helper ← config.startHelper launch runtime
  match Session.expectRuntime host runtime (Session.start config helper) with
  | .ok () session => return session
  | .error error _ => throw error

def Session.harvest (host : Channel state) (target : TargetSource)
    (initializer : Bytes) : Call state MethodTable := do
  Session.installHook host initializer
  Session.loadTarget host target
  Session.decryptMethods host

/-- Every method of a target, as a helper for the runtime observed them. -/
def harvestOver (launch : Launch state) (host : Channel state) (config : Config)
    (runtime : Runtime) (target : TargetSource) (initializer : Bytes) :
    Except Error MethodTable := do
  let session ← connectOver launch host config runtime
  match Session.harvest host target initializer session with
  | .ok methods _ => return methods
  | .error error _ => throw error

/-! ## Helper processes -/

abbrev HelperSession := Session HelperProcess

def connect : Config → Runtime → Except Error HelperSession :=
  connectOver HelperScript.start HelperProcess.channel

def harvest : Config → Runtime → TargetSource → Bytes → Except Error MethodTable :=
  harvestOver HelperScript.start HelperProcess.channel

end CilRecovery.Oracle
