import CilRecovery.Text.Quoted

/-!
# Messages of the oracle

A session asks a helper that runs under one of the runtimes, and every failure says at which
stage it happened.
-/

set_option autoImplicit false

namespace CilRecovery.Oracle

/-!
## Runtime generations

A helper hosts one of two runtime generations. The metadata version string of a target decides
which of them can load it.
-/

inductive Runtime
  | clr20
  | clr40
  deriving DecidableEq

namespace Runtime

def name : Runtime → String
  | .clr20 => "clr20"
  | .clr40 => "clr40"

def describe : Runtime → String
  | .clr20 => "Clr20"
  | .clr40 => "Clr40"

def ofName? (text : String) : Option Runtime :=
  Keyword.find? [("clr20", .clr20), ("clr40", .clr40)] text

/-- The runtime that loads a target with the given metadata version: the old one for versions 1
and 2, the new one for everything else. -/
def ofMetadataVersion (version : String) : Runtime :=
  if "v1.".toList.isPrefixOf version.toList || "v2.".toList.isPrefixOf version.toList then .clr20
  else .clr40

end Runtime

/-! ## Stages, states and steps of an oracle session -/

inductive Stage
  | connect | installHook | loadTarget | decryptMethods
  | send | receive | read | write
  deriving DecidableEq

def Stage.name : Stage → String
  | .connect => "connect"
  | .installHook => "install-decrypt-hook"
  | .loadTarget => "load-target"
  | .decryptMethods => "decrypt-methods"
  | .send => "send"
  | .receive => "receive"
  | .read => "read"
  | .write => "write"

/-- The life of a session: a request is in flight only while it is `serving`, and the helper is
gone once it is `faulted` or `closed`. -/
inductive Phase
  | disconnected | connecting | ready | serving | faulted | closed
  deriving DecidableEq

def Phase.name : Phase → String
  | .disconnected => "Disconnected"
  | .connecting => "Connecting"
  | .ready => "Ready"
  | .serving => "Serving"
  | .faulted => "Faulted"
  | .closed => "Closed"

/-- The request that a session has to make next. -/
inductive Step
  | installHook | loadTarget | decryptMethods | finished
  deriving DecidableEq

def Step.name : Step → String
  | .installHook => "InstallHook"
  | .loadTarget => "LoadTarget"
  | .decryptMethods => "DecryptMethods"
  | .finished => "Finished"

/-!
## Requests and responses

What a session and its helper say to each other. The helper speaks first, with `ready`, and then
answers each request with one response.
-/

inductive TargetSource
  | path (path : String)
  | bytes (image : Bytes)
  deriving DecidableEq

inductive Request
  | installHook (initializer : Bytes)
  | loadTarget (target : TargetSource)
  | decryptMethods
  | shutdown
  deriving DecidableEq

/-- A method body that the helper observed, not yet checked. -/
structure CapturedMethod where
  token : UInt32
  rva : UInt32
  body : Bytes
  deriving DecidableEq

inductive Response
  | ready (runtime : Runtime)
  | ack
  | decryptedMethods (methods : List CapturedMethod)
  | failed (message : String)
  deriving DecidableEq

def describeList (items : List String) : String := "[" ++ ", ".intercalate items ++ "]"

def CapturedMethod.describe (method : CapturedMethod) : String :=
  let body := describeList (method.body.map fun byte => toString byte.toNat)
  "WireMethod \x7b token: " ++ toString method.token.toNat ++ ", rva: " ++
    toString method.rva.toNat ++ ", body: " ++ body ++ " \x7d"

def Response.describe : Response → String
  | .ready runtime => "Ready \x7b runtime: " ++ runtime.describe ++ " \x7d"
  | .ack => "Ack"
  | .decryptedMethods methods =>
      "DecryptedMethods(" ++ describeList (methods.map CapturedMethod.describe) ++ ")"
  | .failed message => "Error \x7b message: " ++ Quoted.quote message ++ " \x7d"

end CilRecovery.Oracle
