import CilRecovery.Proofs.Oracle.Calls

/-!
# What happens on a channel

The calls on a session as data, and runs of such calls on a channel that lists what happens on it.
Listing changes nothing: a session on the listing channel does what it does on the channel below.
-/

set_option autoImplicit false

namespace CilRecovery.Oracle

variable {state other α : Type}

/-! ## Events -/

section

variable {host : Channel state} {current : state × List Event} {inner : state}

theorem traced_send {request : Request} {result : Except Error Unit}
    (sent : host.send request current.1 = (result, inner)) :
    host.traced.send request current = (result, inner, current.2 ++ [.sent request result]) := by
  simp only [Channel.traced, sent]

theorem traced_receive {time : Nat} {result : Except Error Response}
    (received : host.receive time current.1 = (result, inner)) :
    host.traced.receive time current = (result, inner, current.2 ++ [.received result]) := by
  simp only [Channel.traced, received]

end

/-! ## Runs of calls -/

/-- A call on a session. Dropping a session closes it. -/
inductive Operation
  | waitConnected
  | installHook (initializer : Bytes)
  | loadTarget (target : TargetSource)
  | decryptMethods
  | close
  | drop

def Operation.stage? : Operation → Option Stage
  | .waitConnected => some .connect
  | .installHook _ => some .installHook
  | .loadTarget _ => some .loadTarget
  | .decryptMethods => some .decryptMethods
  | .close | .drop => none

namespace Session

def settled : EStateM.Result Error (Session state) α → Except Error Unit × Session state
  | .ok _ session => (.ok (), session)
  | .error error session => (.error error, session)

def perform (host : Channel state) :
    Operation → Session state → Except Error Unit × Session state
  | .waitConnected, session => settled (waitConnected host session)
  | .installHook initializer, session => settled (installHook host initializer session)
  | .loadTarget target, session => settled (loadTarget host target session)
  | .decryptMethods, session => settled (decryptMethods host session)
  | .close, session | .drop, session => (.ok (), session.close host)

def run (host : Channel state) (operations : List Operation) (session : Session state) :
    Session state :=
  operations.foldl (fun session operation => (perform host operation session).2) session

def trace (session : Session (state × List Event)) : List Event := session.channel.2

/-! ## Listing is transparent -/

def untraced (session : Session (state × List Event)) : Session state :=
  ⟨session.config, session.channel.1, session.attached, session.phase, session.next,
    session.runtime⟩

def untracedResult :
    EStateM.Result Error (Session (state × List Event)) α → EStateM.Result Error (Session state) α
  | .ok value session => .ok value session.untraced
  | .error error session => .error error session.untraced

/-- Two calls of which the first does on a listing channel what the second does below it. -/
def Transparent (listed : Call (state × List Event) α) (plain : Call state α) : Prop :=
  ∀ session, plain session.untraced = untracedResult (listed session)

namespace Transparent

variable {β : Type} {host : Channel state}

theorem bind {listed : Call (state × List Event) α} {plain : Call state α}
    {listedNext : α → Call (state × List Event) β} {plainNext : α → Call state β}
    (first : Transparent listed plain)
    (second : ∀ value, Transparent (listedNext value) (plainNext value)) :
    Transparent (listed >>= listedNext) (plain >>= plainNext) := by
  intro session
  change EStateM.bind plain plainNext session.untraced =
    untracedResult (EStateM.bind listed listedNext session)
  unfold EStateM.bind
  rw [first session]
  cases listed session with
  | ok value after => exact second value after
  | error error after => rfl

theorem tornDown (session : Session (state × List Event)) :
    session.untraced.tornDown host = (session.tornDown host.traced).untraced := by
  obtain ⟨config, ⟨inner, trace⟩, attached, phase, next, runtime⟩ := session
  cases attached <;> rfl

theorem fault (stage : Stage) (error : Error) :
    Transparent (Session.fault host.traced stage error : Call (state × List Event) α)
      (Session.fault host stage error) := by
  intro session
  simp only [Session.fault, tornDown session]
  rfl

theorem faultOrder (stage : Stage) :
    Transparent (Session.faultOrder host.traced stage : Call (state × List Event) α)
      (Session.faultOrder host stage) :=
  fun session => fault stage (.protocol stage (.outOfOrder session.phase session.next)) session

theorem send (stage : Stage) (request : Request) :
    Transparent (Session.send host.traced stage request) (Session.send host stage request) := by
  intro session
  cases attached : session.attached with
  | false =>
      rw [send_detached session attached, send_detached session.untraced attached]
      exact faultOrder stage session
  | true =>
      cases sent : host.send request session.channel.1 with
      | mk result inner =>
          cases result with
          | ok done =>
              rw [send_delivered session attached (traced_send sent),
                send_delivered session.untraced attached sent]
              rfl
          | error error =>
              rw [send_undelivered session attached (traced_send sent),
                send_undelivered session.untraced attached sent]
              exact fault stage error { session with channel := (inner, _) }

theorem receive (stage : Stage) (time : Nat) :
    Transparent (Session.receive host.traced stage time) (Session.receive host stage time) := by
  intro session
  cases attached : session.attached with
  | false =>
      rw [receive_detached session attached, receive_detached session.untraced attached]
      exact faultOrder stage session
  | true =>
      cases received : host.receive time session.channel.1 with
      | mk result inner =>
          cases result with
          | ok response =>
              rw [receive_answered session attached (traced_receive received),
                receive_answered session.untraced attached received]
              rfl
          | error error =>
              rw [receive_unanswered session attached (traced_receive received),
                receive_unanswered session.untraced attached received]
              exact fault stage error { session with channel := (inner, _) }

theorem conclude (stage : Stage) (response : Response) :
    Transparent (Session.conclude host.traced stage response)
      (Session.conclude host stage response) := by
  cases response with
  | failed message => exact fault stage _
  | ready runtime => exact fun _ => rfl
  | ack => exact fun _ => rfl
  | decryptedMethods methods => exact fun _ => rfl

theorem exchange (stage : Stage) (step : Step) (request : Request) :
    Transparent (Session.exchange host.traced stage step request)
      (Session.exchange host stage step request) := by
  intro session
  by_cases refused : session.phase ≠ .ready ∨ session.next ≠ step
  · rw [exchange_refused session refused, exchange_refused session.untraced refused]
    exact faultOrder stage session
  · obtain ⟨ready, rfl⟩ : session.phase = .ready ∧ session.next = step := by
      simpa [not_or] using refused
    rw [exchange_allowed session ready]
    refine (exchange_allowed session.untraced ready).trans ?_
    exact (send stage request).bind
      (fun _ => (receive stage _).bind fun response => conclude stage response)
      { session with phase := .serving }

theorem acknowledged (stage : Stage) (step following : Step) (request : Request) :
    Transparent (Session.acknowledged host.traced stage step following request)
      (Session.acknowledged host stage step following request) := by
  refine (exchange stage step request).bind fun response => ?_
  cases response with
  | ack => exact fun _ => rfl
  | ready runtime => exact fault stage _
  | decryptedMethods methods => exact fault stage _
  | failed message => exact fault stage _

theorem greet (response : Response) :
    Transparent (Session.greet host.traced response) (Session.greet host response) := by
  cases response with
  | ready runtime => exact fun _ => rfl
  | ack => exact fault .connect _
  | decryptedMethods methods => exact fault .connect _
  | failed message => exact fault .connect _

theorem waitConnected :
    Transparent (Session.waitConnected host.traced) (Session.waitConnected host) := by
  intro session
  by_cases refused : session.phase ≠ .connecting
  · rw [waitConnected_refused session refused, waitConnected_refused session.untraced refused]
    exact faultOrder .connect session
  · have connecting : session.phase = .connecting := by simpa using refused
    rw [waitConnected_allowed session connecting,
      waitConnected_allowed session.untraced connecting]
    exact (receive .connect _).bind greet session

theorem harvested (response : Response) :
    Transparent (Session.harvested host.traced response) (Session.harvested host response) := by
  cases response with
  | decryptedMethods captured =>
      cases checked : captured.mapM CapturedMethod.check with
      | ok methods =>
          simp only [Session.harvested, checked]
          exact fun _ => rfl
      | error error =>
          rw [harvested_refused checked, harvested_refused checked]
          exact fault .decryptMethods error
  | ready runtime => exact fault .decryptMethods _
  | ack => exact fault .decryptMethods _
  | failed message => exact fault .decryptMethods _

theorem decryptMethods :
    Transparent (Session.decryptMethods host.traced) (Session.decryptMethods host) :=
  (exchange .decryptMethods .decryptMethods .decryptMethods).bind harvested

theorem settled {listed : Call (state × List Event) α} {plain : Call state α}
    (transparent : Transparent listed plain) (session : Session (state × List Event)) :
    Session.settled (plain session.untraced) =
      ((Session.settled (listed session)).1, (Session.settled (listed session)).2.untraced) := by
  rw [transparent session]
  cases listed session <;> rfl

end Transparent

theorem close_untraced (host : Channel state) (session : Session (state × List Event)) :
    session.untraced.close host = (session.close host.traced).untraced := by
  obtain ⟨config, ⟨inner, trace⟩, attached, phase, next, runtime⟩ := session
  cases attached <;> cases phase <;> rfl

theorem perform_untraced (host : Channel state) (operation : Operation)
    (session : Session (state × List Event)) :
    perform host operation session.untraced =
      ((perform host.traced operation session).1,
        (perform host.traced operation session).2.untraced) := by
  cases operation with
  | waitConnected => exact Transparent.waitConnected.settled session
  | installHook initializer => exact (Transparent.acknowledged _ _ _ _).settled session
  | loadTarget target => exact (Transparent.acknowledged _ _ _ _).settled session
  | decryptMethods => exact Transparent.decryptMethods.settled session
  | close => exact congrArg (Prod.mk _) (close_untraced host session)
  | drop => exact congrArg (Prod.mk _) (close_untraced host session)

/-- Listing changes nothing: what is proved about the list is about the channel below it. -/
theorem run_untraced (host : Channel state) (operations : List Operation)
    (session : Session (state × List Event)) :
    run host operations session.untraced = (run host.traced operations session).untraced := by
  induction operations generalizing session with
  | nil => rfl
  | cons operation operations ih =>
      have first := congrArg Prod.snd (perform_untraced host operation session)
      change run host operations (perform host operation session.untraced).2 = _
      rw [first]
      exact ih _

end Session

end CilRecovery.Oracle
