import CilRecovery.Oracle.Harvest
import CilRecovery.Proofs.Except
import CilRecovery.Proofs.Oracle.Conversation

/-!
# Errors of a harvest

A harvest over any channel, with any way to start a helper. Whatever a helper and its channel do,
the errors of a harvest say that something went wrong, not that there was nothing to do.
-/

set_option autoImplicit false

namespace CilRecovery.Oracle

variable {state α β : Type}

/-! ## Calls -/

/-- Every failure of a call ends the work on the file. -/
def Fatal (call : Call state α) : Prop :=
  ∀ before error after, call before = .error error after → error.severity = .fatal

namespace Fatal

theorem bind {first : Call state α} {next : α → Call state β} (fatal : Fatal first)
    (later : ∀ value, Fatal (next value)) : Fatal (first >>= next) := by
  intro before error after failed
  obtain failed | ⟨value, middle, _, failed⟩ := EState.bind_eq_error.mp failed
  · exact fatal _ _ _ failed
  · exact later value _ _ _ failed

theorem pure (value : α) : Fatal (pure value : Call state α) := by
  intro before error after failed
  cases failed

theorem modify (change : Session state → Session state) :
    Fatal (modify change : Call state Unit) := by
  intro before error after failed
  cases failed

variable (host : Channel state) (stage : Stage)

theorem fault (error : Error) : Fatal (Session.fault host stage error : Call state α) := by
  intro before error' after failed
  cases failed
  rw [Error.severity, family_reportedAt]
  split <;> rfl

theorem faultOrder : Fatal (Session.faultOrder host stage : Call state α) :=
  fun before => fault host stage _ before

theorem send (request : Request) : Fatal (Session.send host stage request) := by
  intro before error after failed
  cases attached : before.attached with
  | false =>
      rw [Session.send_detached before attached] at failed
      exact faultOrder host stage _ _ _ failed
  | true =>
      rcases sent : host.send request before.channel with ⟨_ | _, channel⟩
      · rw [Session.send_undelivered before attached sent] at failed
        exact fault host stage _ _ _ _ failed
      · rw [Session.send_delivered before attached sent] at failed
        cases failed

theorem receive (time : Nat) : Fatal (Session.receive host stage time) := by
  intro before error after failed
  cases attached : before.attached with
  | false =>
      rw [Session.receive_detached before attached] at failed
      exact faultOrder host stage _ _ _ failed
  | true =>
      rcases received : host.receive time before.channel with ⟨_ | _, channel⟩
      · rw [Session.receive_unanswered before attached received] at failed
        exact fault host stage _ _ _ _ failed
      · rw [Session.receive_answered before attached received] at failed
        cases failed

theorem conclude (response : Response) : Fatal (Session.conclude host stage response) := by
  cases response with
  | failed message => exact fault host stage _
  | ready runtime => exact (modify _).bind fun _ => pure _
  | ack => exact (modify _).bind fun _ => pure _
  | decryptedMethods methods => exact (modify _).bind fun _ => pure _

theorem exchange (step : Step) (request : Request) :
    Fatal (Session.exchange host stage step request) := by
  intro before error after failed
  by_cases refused : before.phase ≠ .ready ∨ before.next ≠ step
  · rw [Session.exchange_refused before refused] at failed
    exact faultOrder host stage _ _ _ failed
  · obtain ⟨ready, rfl⟩ : before.phase = .ready ∧ before.next = step := by
      simpa only [ne_eq, not_or, Decidable.not_not] using refused
    rw [Session.exchange_allowed before ready] at failed
    exact ((send host stage request).bind fun _ =>
      (receive host stage _).bind (conclude host stage)) _ _ _ failed

theorem acknowledged (step following : Step) (request : Request) :
    Fatal (Session.acknowledged host stage step following request) := by
  rw [Session.acknowledged_eq]
  refine (exchange host stage step request).bind fun response => ?_
  cases response with
  | ack => exact modify _
  | failed message => exact fault host stage _
  | ready runtime => exact fault host stage _
  | decryptedMethods methods => exact fault host stage _

theorem waitConnected : Fatal (Session.waitConnected host) := by
  intro before error after failed
  by_cases refused : before.phase ≠ .connecting
  · rw [Session.waitConnected_refused before refused] at failed
    exact faultOrder host .connect _ _ _ failed
  · rw [Session.waitConnected_allowed before (Decidable.not_not.mp refused)] at failed
    refine (receive host .connect _).bind (fun response => ?_) _ _ _ failed
    cases response with
    | ready runtime => exact (modify _).bind fun _ => pure _
    | failed message => exact fault host .connect _
    | ack => exact fault host .connect _
    | decryptedMethods methods => exact fault host .connect _

theorem decryptMethods : Fatal (Session.decryptMethods host) := by
  rw [Session.decryptMethods_eq]
  refine (exchange host _ _ _).bind fun response => ?_
  cases response with
  | decryptedMethods captured =>
      rw [Session.harvested]
      cases captured.mapM CapturedMethod.check with
      | ok methods => exact (modify _).bind fun _ => pure _
      | error error => exact fault host _ error
  | ready runtime => exact fault host _ _
  | failed message => exact fault host _ _
  | ack => exact fault host _ _

theorem expectRuntime (runtime : Runtime) : Fatal (Session.expectRuntime host runtime) := by
  refine (waitConnected host).bind fun actual => ?_
  by_cases other : actual ≠ runtime
  · rw [if_pos other]
    exact fault host .connect _
  · rw [if_neg other]
    exact pure ()

theorem harvest (target : TargetSource) (initializer : Bytes) :
    Fatal (Session.harvest host target initializer) :=
  (acknowledged host _ _ _ _).bind fun _ => (acknowledged host _ _ _ _).bind fun _ =>
    decryptMethods host

end Fatal

/-! ## Harvests -/

/-- A helper that does not start is a failure of the system, or one of its channel. -/
def Launch.Sound (launch : Launch state) : Prop :=
  ∀ path arguments limit error, launch path arguments limit = .error error →
    error.family = .file ∨ error.family = .oracleProtocol

theorem sound_start : Launch.Sound HelperScript.start := by
  intro path arguments limit error failed
  simp only [HelperScript.start] at failed
  split at failed
  · cases failed
  · cases failed
    exact .inl rfl

private theorem connectOver_error {launch : Launch state} (sound : launch.Sound)
    {host : Channel state} {config : Config} {runtime : Runtime}
    (configured : (config.helper? runtime).isSome) {error : Error}
    (failed : connectOver launch host config runtime = .error error) :
    error.severity ≠ .notApplicable := by
  rcases Except.bind_eq_error.mp failed with failed | ⟨helper, -, failed⟩
  · obtain ⟨path, found⟩ := Option.isSome_iff_exists.mp configured
    rw [Config.startHelper, found] at failed
    rcases sound path _ _ error failed with family | family <;> rw [Error.severity, family] <;>
      decide
  · split at failed
    · cases failed
    · rename_i refused
      cases failed
      rw [Fatal.expectRuntime host runtime _ _ _ refused]
      decide

/-- Where a helper is configured, no failure says that there is nothing to harvest. -/
theorem harvestOver_error {launch : Launch state} (sound : launch.Sound) {host : Channel state}
    {config : Config} {runtime : Runtime} (configured : (config.helper? runtime).isSome)
    {target : TargetSource} {initializer : Bytes} {error : Error}
    (failed : harvestOver launch host config runtime target initializer = .error error) :
    error.severity ≠ .notApplicable := by
  rcases Except.bind_eq_error.mp failed with failed | ⟨session, -, failed⟩
  · exact connectOver_error sound configured failed
  · split at failed
    · cases failed
    · rename_i refused
      cases failed
      rw [Fatal.harvest host target initializer _ _ _ refused]
      decide

end CilRecovery.Oracle
