import CilRecovery.MethodTable
import CilRecovery.Oracle.Channel

/-!
# Oracle sessions

A session makes its three requests in one order, each after the one before was answered. Whatever
goes wrong, the channel is shut down before the error is reported, and the session is of no
further use. Every error is reported with the stage of the call that it ended.
-/

set_option autoImplicit false

namespace CilRecovery.Oracle

/-- The session of one file. The channel is `attached` until it is shut down. -/
structure Session (state : Type) where
  config : Config
  channel : state
  attached : Bool
  phase : Phase
  next : Step
  runtime : Option Runtime

/-- A call on a session. A failure carries the session it left behind. -/
abbrev Call (state : Type) := EStateM Error (Session state)

/-- An error as a session reports it: of timeouts and protocol faults the cause is kept, anything
else is a failure of the stage. -/
def reportedAt (stage : Stage) : Error → Error
  | .oracleTimeout _ => .oracleTimeout stage
  | .protocol _ fault => .protocol stage fault
  | .oracleFailure _ cause => .oracleFailure stage cause
  | error => .oracleFailure stage error

/-- The method that was captured, if its token is one of a method and its body is a method
record. -/
def CapturedMethod.check (method : CapturedMethod) : Except Error RecoveredMethod := do
  let token : Token := ⟨method.token⟩
  if !token.isMethod then throw (.malformed (.notMethodToken token))
  let body ← Method.Body.parse method.body
  return ⟨token, method.rva, body⟩

namespace Session

variable {state α : Type}

def start (config : Config) (channel : state) : Session state :=
  ⟨config, channel, true, .connecting, .installHook, none⟩

/-- The session after its channel was shut down, if it still had one. -/
def tornDown (host : Channel state) (session : Session state) : Session state :=
  if session.attached then
    { session with channel := host.shutdown session.channel, attached := false }
  else session

def fault (host : Channel state) (stage : Stage) (error : Error) : Call state α :=
  fun session => .error (reportedAt stage error) { session.tornDown host with phase := .faulted }

/-- Gives the session up because the call is not the one it waits for. -/
def faultOrder (host : Channel state) (stage : Stage) : Call state α := fun session =>
  fault host stage (.protocol stage (.outOfOrder session.phase session.next)) session

def faultResponse (host : Channel state) (stage : Stage) (response : Response) : Call state α :=
  fault host stage (.protocol stage (.unexpected response))

def send (host : Channel state) (stage : Stage) (request : Request) : Call state Unit :=
  fun session =>
    if session.attached then
      let (result, channel) := host.send request session.channel
      let session := { session with channel }
      match result with
      | .ok () => .ok () session
      | .error error => fault host stage error session
    else faultOrder host stage session

def receive (host : Channel state) (stage : Stage) (time : Nat) : Call state Response :=
  fun session =>
    if session.attached then
      let (result, channel) := host.receive time session.channel
      let session := { session with channel }
      match result with
      | .ok response => .ok response session
      | .error error => fault host stage error session
    else faultOrder host stage session

/-- Makes a request, provided it is the next one, and waits for its response. -/
def exchange (host : Channel state) (stage : Stage) (step : Step) (request : Request) :
    Call state Response := do
  let session ← get
  if session.phase ≠ .ready ∨ session.next ≠ step then
    faultOrder host stage
  else
    set { session with phase := .serving }
    send host stage request
    match ← receive host stage session.config.requestTime with
    | .failed message => fault host stage (.protocol stage (.reported message))
    | response =>
        modify fun session => { session with phase := .ready }
        return response

def acknowledged (host : Channel state) (stage : Stage) (step following : Step)
    (request : Request) : Call state Unit := do
  match ← exchange host stage step request with
  | .ack => modify fun session => { session with next := following }
  | response => faultResponse host stage response

/-! ## Calls -/

def waitConnected (host : Channel state) : Call state Runtime := do
  let session ← get
  if session.phase ≠ .connecting then
    faultOrder host .connect
  else
    match ← receive host .connect session.config.connectTime with
    | .ready runtime =>
        modify fun session => { session with runtime := some runtime, phase := .ready }
        return runtime
    | response => faultResponse host .connect response

def installHook (host : Channel state) (initializer : Bytes) : Call state Unit :=
  acknowledged host .installHook .installHook .loadTarget (.installHook initializer)

def loadTarget (host : Channel state) (target : TargetSource) : Call state Unit :=
  acknowledged host .loadTarget .loadTarget .decryptMethods (.loadTarget target)

/-- Collects every method that the helper observed. One that is not valid spoils them all. -/
def decryptMethods (host : Channel state) : Call state MethodTable := do
  match ← exchange host .decryptMethods .decryptMethods .decryptMethods with
  | .decryptedMethods captured =>
      match captured.mapM CapturedMethod.check with
      | .ok methods =>
          modify fun session => { session with next := .finished }
          return methods.foldl MethodTable.add .empty
      | .error error => fault host .decryptMethods error
  | response => faultResponse host .decryptMethods response

/-- Says goodbye to a helper that waits for a request, and shuts the channel down. Whether the
goodbye arrives does not matter. -/
def close (host : Channel state) (session : Session state) : Session state :=
  let session :=
    if session.attached ∧ session.phase = .ready then
      { session with channel := (host.send .shutdown session.channel).2 }
    else session
  let session := session.tornDown host
  if session.phase = .faulted then session else { session with phase := .closed }

end Session

end CilRecovery.Oracle
