import CilRecovery.Oracle.Session
import CilRecovery.Proofs.Except

/-!
# What the calls on a session do

Every way through an exchange, by what the channel answers, and what each call makes of the
response. Whoever follows a session uses these equations and does not open its calls.
-/

set_option autoImplicit false

namespace CilRecovery.Oracle

theorem CapturedMethod.check_eq_ok_iff {captured : CapturedMethod} {method : RecoveredMethod} :
    captured.check = .ok method ↔
      (⟨captured.token⟩ : Token).isMethod ∧ ∃ body, Method.Body.parse captured.body = .ok body ∧
        method = ⟨⟨captured.token⟩, captured.rva, body⟩ := by
  unfold check
  by_cases named : (⟨captured.token⟩ : Token).isMethod
  · simp only [named, Bool.not_true, Bool.false_eq_true, if_false, true_and]
    constructor
    · intro checked
      obtain ⟨body, parsed, built⟩ := Except.bind_eq_ok.mp checked
      cases built
      exact ⟨body, parsed, rfl⟩
    · intro ⟨body, parsed, same⟩
      exact Except.bind_eq_ok.mpr ⟨body, parsed, congrArg Except.ok same.symm⟩
  · simp only [named, Bool.not_false, if_true, Bool.false_eq_true, false_and, iff_false]
    intro checked
    cases checked

namespace Session

variable {state α : Type}

variable {host : Channel state} {stage : Stage} (session : Session state) {channel : state}

/-! ## Sending and receiving -/

@[simp] theorem attached_tornDown : (session.tornDown host).attached = false := by
  cases held : session.attached <;> simp [tornDown, held]

theorem send_detached {request : Request} (detached : session.attached = false) :
    send host stage request session = faultOrder host stage session := by
  simp [send, detached]

theorem send_delivered {request : Request} (attached : session.attached = true)
    (sent : host.send request session.channel = (.ok (), channel)) :
    send host stage request session = .ok () { session with channel } := by
  simp only [send, attached, sent, if_true]

theorem send_undelivered {request : Request} {error : Error} (attached : session.attached = true)
    (sent : host.send request session.channel = (.error error, channel)) :
    send host stage request session = fault host stage error { session with channel } := by
  simp only [send, attached, sent, if_true]

theorem receive_detached {time : Nat} (detached : session.attached = false) :
    receive host stage time session = faultOrder host stage session := by
  simp [receive, detached]

theorem receive_answered {time : Nat} {response : Response} (attached : session.attached = true)
    (received : host.receive time session.channel = (.ok response, channel)) :
    receive host stage time session = .ok response { session with channel } := by
  simp only [receive, attached, received, if_true]

theorem receive_unanswered {time : Nat} {error : Error} (attached : session.attached = true)
    (received : host.receive time session.channel = (.error error, channel)) :
    receive host stage time session = fault host stage error { session with channel } := by
  simp only [receive, attached, received, if_true]

/-! ## Exchanges -/

def conclude (host : Channel state) (stage : Stage) : Response → Call state Response
  | .failed message => fault host stage (.protocol stage (.reported message))
  | response => do
      modify fun session => { session with phase := .ready }
      return response

theorem conclude_accepted {response : Response} (fits : ∀ message, response ≠ .failed message) :
    conclude host stage response session = .ok response { session with phase := .ready } := by
  cases response with
  | failed message => exact absurd rfl (fits message)
  | ready runtime => rfl
  | ack => rfl
  | decryptedMethods methods => rfl

theorem exchange_refused {step : Step} {request : Request}
    (refused : session.phase ≠ .ready ∨ session.next ≠ step) :
    exchange host stage step request session = faultOrder host stage session := by
  change (if _ then _ else _ : Call state Response) session = _
  rw [if_pos refused]

theorem exchange_allowed {request : Request} (ready : session.phase = .ready) :
    exchange host stage session.next request session =
      (send host stage request >>= fun _ =>
        receive host stage session.config.requestTime >>= conclude host stage)
          { session with phase := .serving } := by
  have allowed : ¬ (session.phase ≠ .ready ∨ session.next ≠ session.next) := by simp [ready]
  change (if _ then _ else _ : Call state Response) session = _
  rw [if_neg allowed]
  rfl

/-- A request in its turn succeeds if it is delivered and answered in time with anything but a
failure. -/
theorem exchange_answered {step : Step} {request : Request} {response : Response}
    {asked answered : state} (attached : session.attached = true)
    (ready : session.phase = .ready) (due : session.next = step)
    (sent : host.send request session.channel = (.ok (), asked))
    (received : host.receive session.config.requestTime asked = (.ok response, answered))
    (fits : ∀ message, response ≠ .failed message) :
    exchange host stage step request session =
      .ok response { session with channel := answered } := by
  subst due
  have delivered := @send_delivered state host stage { session with phase := .serving } asked
    request attached sent
  have answer := @receive_answered state host stage
    { session with phase := .serving, channel := asked } answered session.config.requestTime
    response attached received
  rw [exchange_allowed session ready, EState.bind_of_ok delivered]
  refine (EState.bind_of_ok answer).trans ?_
  rw [conclude_accepted _ fits, ← ready]

def proceed (host : Channel state) (stage : Stage) (following : Step) :
    Response → Call state Unit
  | .ack => modify fun session => { session with next := following }
  | response => faultResponse host stage response

theorem acknowledged_eq (step following : Step) (request : Request) :
    acknowledged host stage step following request =
      exchange host stage step request >>= proceed host stage following := rfl

/-! ## Waiting for the helper -/

def greet (host : Channel state) : Response → Call state Runtime
  | .ready runtime => do
      modify fun session => { session with runtime := some runtime, phase := .ready }
      return runtime
  | response => faultResponse host .connect response

theorem waitConnected_refused (refused : session.phase ≠ .connecting) :
    waitConnected host session = faultOrder host .connect session := by
  change (if _ then _ else _ : Call state Runtime) session = _
  rw [if_pos refused]

theorem waitConnected_allowed (connecting : session.phase = .connecting) :
    waitConnected host session =
      (receive host .connect session.config.connectTime >>= greet host) session := by
  change (if _ then _ else _ : Call state Runtime) session = _
  rw [if_neg (not_not_intro connecting)]
  rfl

/-! ## Collecting methods -/

def harvested (host : Channel state) : Response → Call state MethodTable
  | .decryptedMethods captured =>
      match captured.mapM CapturedMethod.check with
      | .ok methods => do
          modify fun session => { session with next := .finished }
          return methods.foldl MethodTable.add .empty
      | .error error => fault host .decryptMethods error
  | response => faultResponse host .decryptMethods response

theorem harvested_checked {captured : List CapturedMethod} {methods : List RecoveredMethod}
    (checked : captured.mapM CapturedMethod.check = .ok methods) :
    harvested host (.decryptedMethods captured) session =
      .ok (methods.foldl MethodTable.add .empty) { session with next := .finished } := by
  simp only [harvested, checked]
  rfl

theorem harvested_refused {captured : List CapturedMethod} {error : Error}
    (refused : captured.mapM CapturedMethod.check = .error error) :
    harvested host (.decryptedMethods captured) = fault host .decryptMethods error := by
  simp only [harvested, refused]

theorem decryptMethods_eq :
    decryptMethods host =
      exchange host .decryptMethods .decryptMethods .decryptMethods >>= harvested host := rfl

end Session

end CilRecovery.Oracle
