import CilRecovery.Oracle.Channel
import CilRecovery.Oracle.Wire

/-!
# Helper processes

A helper is a program that writes frames to its output and reads its input. What it does is a list
of actions, which it carries out as far as its input allows. Its output is read ahead, frame by
frame, until a frame is damaged or the output ends.
-/

set_option autoImplicit false

namespace CilRecovery.Oracle

inductive HelperAction
  | write (bytes : Bytes)
  | read (count : Nat)
  /-- Reads until its input is closed. -/
  | drain
  /-- Does nothing for some milliseconds. -/
  | pause (time : Nat)
  | exit
  deriving DecidableEq

/-- A started helper: what it has yet to do, how much input it has not read, and the output that
was not read from it. -/
structure HelperProcess where
  actions : List HelperAction
  input : Nat
  output : Bytes
  messageLimit : Nat
  /-- Whether its output is still being read. -/
  listening : Bool
  /-- Whether the channel to it is open. -/
  isOpen : Bool
  deriving DecidableEq

namespace HelperProcess

def start (actions : List HelperAction) (messageLimit : Nat) : HelperProcess :=
  ⟨actions, 0, [], messageLimit, true, true⟩

/-- Carries out actions until one has to wait. -/
def advance (input : Nat) (output : Bytes) : List HelperAction → List HelperAction × Nat × Bytes
  | [] => ([], input, output)
  | .write bytes :: rest => advance input (output ++ bytes) rest
  | .read count :: rest =>
      if count ≤ input then advance (input - count) output rest
      else (.read (count - input) :: rest, 0, output)
  | .drain :: rest => (.drain :: rest, 0, output)
  | .pause time :: rest =>
      if time = 0 then advance input output rest else (.pause time :: rest, input, output)
  | .exit :: _ => ([], input, output)

def settle (helper : HelperProcess) : HelperProcess :=
  let (actions, input, output) := advance helper.input helper.output helper.actions
  { helper with actions, input, output }

def hasExited (helper : HelperProcess) : Bool := helper.actions.isEmpty

/-- An error on the way of a response, as it reaches the receiver. -/
def receiveError : Error → Error
  | .protocol stage fault => .protocol stage fault
  | .oracleFailure stage cause => .oracleFailure stage cause
  | error => .oracleFailure .receive error

/-- The next frame of the output. After a damaged one the output is not read any more. -/
def nextResponse (helper : HelperProcess) : Except Error Response × HelperProcess :=
  let (result, output) := Frame.nextMessage Wire.parseResponse helper.messageLimit helper.output
  match result with
  | .ok response => (.ok response, { helper with output })
  | .error error => (.error (receiveError error), { helper with output, listening := false })

/-- Waits for a response. The time passes only while the helper pauses. -/
def receive : (fuel : Nat) → (time : Nat) → HelperProcess → Except Error Response × HelperProcess
  | 0, _, helper => (.error (.oracleTimeout .receive), helper)
  | fuel + 1, time, helper =>
      let helper := helper.settle
      if !helper.listening then (.error (.protocol .receive .helperClosed), helper)
      else if Frame.isDecided helper.messageLimit helper.output || helper.hasExited then
        helper.nextResponse
      else
        match helper.actions with
        | .pause left :: rest =>
            if left ≤ time then receive fuel (time - left) { helper with actions := rest }
            else (.error (.oracleTimeout .receive),
              { helper with actions := .pause (left - time) :: rest })
        | _ => (.error (.oracleTimeout .receive), helper)

def send (request : Request) (helper : HelperProcess) : Except Error Unit × HelperProcess :=
  if !helper.isOpen then (.error (.protocol .send .channelClosed), helper)
  else
    match Frame.write Wire.renderRequest helper.messageLimit request [] with
    | .error error _ => (.error error, helper)
    | .ok () frame =>
        let helper := helper.settle
        if helper.hasExited then (.error (.file .brokenPipe), helper)
        else (.ok (), { helper with input := helper.input + frame.length }.settle)

/-- Closes the channel to a helper and ends it. What it wrote before can still be read. -/
def shutdown (helper : HelperProcess) : HelperProcess :=
  if helper.isOpen then { helper.settle with actions := [], isOpen := false } else helper

def channel : Channel HelperProcess where
  send := send
  receive time helper := receive (helper.actions.length + 1) time helper
  shutdown := shutdown

end HelperProcess

end CilRecovery.Oracle
