import CilRecovery.Oracle.Wire

/-!
# Oracle settings and channels

How a helper is started and waited for, and what a session sees of it.
-/

set_option autoImplicit false

namespace CilRecovery.Oracle

/-! ## Settings -/

/-- The helper programs by runtime, and how they are started and waited for. Times are in
milliseconds. -/
structure Config where
  helper20 : Option String
  helper40 : Option String
  arguments : List String
  connectTime : Nat
  requestTime : Nat
  messageLimit : Nat
  deriving DecidableEq

namespace Config

def default : Config where
  helper20 := some "dotreclaim-oracle-clr20"
  helper40 := some "dotreclaim-oracle-clr40"
  arguments := []
  connectTime := 30000
  requestTime := 120000
  messageLimit := Frame.defaultLimit

def helper? (config : Config) : Runtime → Option String
  | .clr20 => config.helper20
  | .clr40 => config.helper40

end Config

/-!
## Channels

A session talks to its helper over a channel, of which it knows nothing but what sending and
receiving give back. Whatever answers a channel gives, it is a function of its own state.
-/

structure Channel (state : Type) where
  send : Request → state → Except Error Unit × state
  /-- Waits for a response for at most some milliseconds. -/
  receive : (time : Nat) → state → Except Error Response × state
  shutdown : state → state

/-! ### Listing -/

inductive Event
  | sent (request : Request) (result : Except Error Unit)
  | received (result : Except Error Response)
  | shutdown

namespace Event

def request? : Event → Option Request
  | .sent request _ => some request
  | _ => none

def isShutdown : Event → Bool
  | .shutdown => true
  | _ => false

def timedOut : Event → Bool
  | .sent _ (.error error) | .received (.error error) => error.family = .oracleTimeout
  | _ => false

end Event

/-- The requests that were handed to a channel, also those that could not be delivered. -/
def requests (trace : List Event) : List Request := trace.filterMap Event.request?

namespace Channel

/-- A channel that also lists what happens on it, the oldest event first. -/
def traced {state : Type} (host : Channel state) : Channel (state × List Event) where
  send request current :=
    let (result, inner) := host.send request current.1
    (result, inner, current.2 ++ [.sent request result])
  receive time current :=
    let (result, inner) := host.receive time current.1
    (result, inner, current.2 ++ [.received result])
  shutdown current := (host.shutdown current.1, current.2 ++ [.shutdown])

/-! ### Playing back -/

structure Script where
  responses : List (Except Error Response)
  sendFaults : List (Option Error)

/-- A channel that plays back given results. Without any, sending works and nothing arrives. -/
def scripted : Channel Script where
  send _ script :=
    let result := match script.sendFaults with
      | some error :: _ => .error error
      | _ => .ok ()
    (result, { script with sendFaults := script.sendFaults.tail })
  receive _ script :=
    match script.responses with
    | [] => (.error (.oracleTimeout .receive), script)
    | result :: responses => (result, { script with responses })
  shutdown script := script

end Channel

end CilRecovery.Oracle
