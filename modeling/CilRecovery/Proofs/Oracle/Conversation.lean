import CilRecovery.Proofs.Except
import CilRecovery.Proofs.Method.Faults
import CilRecovery.Proofs.Oracle.Trace

/-!
# Conversations

What can happen on the channel of a session, whatever the channel answers and whichever calls are
made: a live conversation is a greeting and then exchanges in order, and it ends with one
shutdown. Every call keeps a session in such a conversation, and a call that fails ends it.
-/

set_option autoImplicit false

namespace CilRecovery.Oracle

variable {state α : Type}

/-! ## Shapes of conversations -/

def Request.step? : Request → Option Step
  | .installHook _ => some .installHook
  | .loadTarget _ => some .loadTarget
  | .decryptMethods => some .decryptMethods
  | .shutdown => none

/-- A request with the only kind of answer that leads to the next step. -/
inductive Exchanged : Step → Request → Response → Step → Prop
  | installHook {initializer : Bytes} :
      Exchanged .installHook (.installHook initializer) .ack .loadTarget
  | loadTarget {target : TargetSource} :
      Exchanged .loadTarget (.loadTarget target) .ack .decryptMethods
  | decryptMethods {methods : List CapturedMethod} :
      Exchanged .decryptMethods .decryptMethods (.decryptedMethods methods) .finished

/-- What happened so far while the session still has its channel. -/
inductive Live : Phase → Step → List Event → Prop
  | connecting : Live .connecting .installHook []
  | connected {runtime : Runtime} :
      Live .ready .installHook [.received (.ok (.ready runtime))]
  | exchanged {step next : Step} {request : Request} {response : Response} {trace : List Event}
      (before : Live .ready step trace) (exchange : Exchanged step request response next) :
      Live .ready next (trace ++ [.sent request (.ok ()), .received (.ok response)])

/-- What may happen between a live conversation and its shutdown. -/
inductive Parting : Phase → Step → List Event → Prop
  | silent {phase : Phase} {step : Step} : Parting phase step []
  | ungreeted {step : Step} {result : Except Error Response} :
      Parting .connecting step [.received result]
  | undelivered {step : Step} {request : Request} {error : Error}
      (belongs : request.step? = some step) : Parting .ready step [.sent request (.error error)]
  | unfit {step : Step} {request : Request} {result : Except Error Response}
      (belongs : request.step? = some step) :
      Parting .ready step [.sent request (.ok ()), .received result]
  | goodbye {step : Step} {result : Except Error Unit} :
      Parting .ready step [.sent .shutdown result]

/-- The phase of a session, whether it has its channel, its next step, and what happened. -/
inductive Stands : Phase → Bool → Step → List Event → Prop
  | live {phase : Phase} {step : Step} {trace : List Event} (live : Live phase step trace) :
      Stands phase true step trace
  | ended {phase last : Phase} {step next : Step} {trace parting : List Event}
      (gone : phase = .faulted ∨ phase = .closed) (live : Live last step trace)
      (parted : Parting last step parting) :
      Stands phase false next (trace ++ parting ++ [.shutdown])

theorem Live.phase_eq {phase : Phase} {step : Step} {trace : List Event}
    (live : Live phase step trace) : phase = .connecting ∨ phase = .ready := by
  cases live with
  | connecting => exact .inl rfl
  | connected => exact .inr rfl
  | exchanged before exchange => exact .inr rfl

theorem Live.of_connecting {step : Step} {trace : List Event}
    (live : Live .connecting step trace) : step = .installHook ∧ trace = [] := by
  cases live with
  | connecting => exact ⟨rfl, rfl⟩

theorem Stands.of_usable {phase : Phase} {attached : Bool} {step : Step} {trace : List Event}
    (stands : Stands phase attached step trace) (usable : phase = .connecting ∨ phase = .ready) :
    attached = true ∧ Live phase step trace := by
  cases stands with
  | live live => exact ⟨rfl, live⟩
  | ended gone _ _ => rcases gone with rfl | rfl <;> exact absurd usable (by decide)

/-- Giving up after what may part ends a conversation, unless it has ended already. -/
theorem Stands.given_up {phase : Phase} {attached : Bool} {step next : Step}
    {trace events : List Event} (stands : Stands phase attached step trace)
    (parted : Parting phase step events) :
    Stands .faulted false next (trace ++ events ++ if attached then [.shutdown] else []) := by
  cases stands with
  | live live => exact .ended (.inl rfl) live parted
  | ended gone live parted' =>
      -- Neither connecting nor ready, the session refused the call before anything happened.
      cases parted with
      | silent =>
          rw [if_neg Bool.false_ne_true, List.append_nil, List.append_nil]
          exact .ended (.inl rfl) live parted'
      | ungreeted => exact absurd gone (by decide)
      | undelivered belongs => exact absurd gone (by decide)
      | unfit belongs => exact absurd gone (by decide)
      | goodbye => exact absurd gone (by decide)

/-! ## Errors -/

def reportedStage? : Error → Option Stage
  | .protocol stage _ | .oracleFailure stage _ | .oracleTimeout stage => some stage
  | _ => none

theorem reportedStage?_reportedAt (stage : Stage) (cause : Error) :
    reportedStage? (reportedAt stage cause) = some stage := by
  cases cause <;> rfl

theorem family_reportedAt (stage : Stage) (cause : Error) :
    (reportedAt stage cause).family =
      if cause.family = .oracleTimeout then .oracleTimeout else .oracleProtocol := by
  cases cause <;> rfl

theorem protocol_untimed (stage : Stage) (fault : ProtocolFault) :
    (Error.protocol stage fault).family ≠ .oracleTimeout := by
  simp [Error.family]

/-- What a helper captured is never refused as if time had run out. -/
theorem CapturedMethod.check_family {method : CapturedMethod} {error : Error}
    (refused : method.check = .error error) : error.family ≠ .oracleTimeout := by
  unfold check at refused
  by_cases named : (⟨method.token⟩ : Token).isMethod
  · simp only [named, Bool.not_true, Bool.false_eq_true, if_false] at refused
    cases parsed : Method.Body.parse method.body with
    | ok body =>
        rw [parsed] at refused
        cases refused
    | error error' =>
        rw [parsed] at refused
        cases refused
        rcases Method.Body.parse_error parsed with rfl | ⟨fault, rfl⟩ <;> exact nofun
  · simp only [named, Bool.not_false, if_true] at refused
    cases refused
    exact nofun

/-! ## Calls that give a session up -/

namespace Session

abbrev Sound (session : Session (state × List Event)) : Prop :=
  Stands session.phase session.attached session.next session.trace

/-- A call failed after some events: the channel was shut down, unless it already was, and the
error tells the stage and whether time ran out. -/
structure Abandons (stage : Stage) (events : List Event) (error : Error)
    (before after : Session (state × List Event)) : Prop where
  faulted : after.phase = .faulted
  detached : after.attached = false
  trace : after.trace = before.trace ++ events ++ if before.attached then [.shutdown] else []
  staged : reportedStage? error = some stage
  family : error.family =
    if events.any Event.timedOut then .oracleTimeout else .oracleProtocol

def Abandoned (stage : Stage) (events : List Event) (before : Session (state × List Event))
    (result : EStateM.Result Error (Session (state × List Event)) α) : Prop :=
  ∃ error after, result = .error error after ∧ Abandons stage events error before after

variable {host : Channel state} {stage : Stage} {before : Session (state × List Event)}

theorem abandoned_fault {events : List Event} {middle : Session (state × List Event)}
    {cause : Error} (attached : middle.attached = before.attached)
    (trace : middle.trace = before.trace ++ events)
    (timed : events.any Event.timedOut = decide (cause.family = .oracleTimeout)) :
    Abandoned stage events before
      (fault host.traced stage cause middle : EStateM.Result _ _ α) := by
  refine ⟨_, _, rfl, rfl, ?_, ?_, reportedStage?_reportedAt stage cause, ?_⟩
  · exact attached_tornDown middle
  · rw [← trace, ← attached]
    cases held : middle.attached <;> simp [tornDown, held, Session.trace, Channel.traced]
  · rw [family_reportedAt, timed]
    simp

theorem abandoned_faultOrder :
    Abandoned stage [] before (faultOrder host.traced stage before : EStateM.Result _ _ α) :=
  abandoned_fault rfl (List.append_nil _).symm rfl

theorem Abandons.sound {events : List Event} {error : Error}
    {after : Session (state × List Event)} (sound : before.Sound)
    (parted : Parting before.phase before.next events)
    (abandons : Abandons stage events error before after) : after.Sound := by
  rw [Sound, abandons.faulted, abandons.detached, abandons.trace]
  exact sound.given_up parted

/-! ## What calls do to a sound session -/

theorem Abandoned.bind {β : Type} {events : List Event} {first : Call (state × List Event) α}
    {next : α → Call (state × List Event) β} {middle : Session (state × List Event)}
    (abandoned : Abandoned stage events before (first middle)) :
    Abandoned stage events before ((first >>= next) middle) := by
  obtain ⟨error, after, failed, abandons⟩ := abandoned
  exact ⟨error, after, EState.bind_of_error failed, abandons⟩

theorem send_outcome {middle : Session (state × List Event)} {request : Request}
    (held : middle.attached = true) (attached : middle.attached = before.attached)
    (trace : middle.trace = before.trace) :
    (∃ inner, send host.traced stage request middle =
      .ok () { middle with channel := (inner, before.trace ++ [.sent request (.ok ())]) }) ∨
    ∃ error, Abandoned stage [.sent request (.error error)] before
      (send host.traced stage request middle) := by
  cases sent : host.send request middle.channel.1 with
  | mk result inner =>
      rw [← trace]
      cases result with
      | ok _ => exact .inl ⟨inner, send_delivered middle held (traced_send sent)⟩
      | error error =>
          rw [send_undelivered middle held (traced_send sent)]
          exact .inr ⟨error, abandoned_fault attached (by rw [← trace]; rfl)
            (by simp [Event.timedOut])⟩

theorem receive_outcome {middle : Session (state × List Event)} {events : List Event}
    {time : Nat} (held : middle.attached = true) (attached : middle.attached = before.attached)
    (trace : middle.trace = before.trace ++ events) (untimed : events.any Event.timedOut = false) :
    (∃ response inner, receive host.traced stage time middle = .ok response
      { middle with channel := (inner, before.trace ++ (events ++ [.received (.ok response)])) }) ∨
    ∃ error, Abandoned stage (events ++ [.received (.error error)]) before
      (receive host.traced stage time middle) := by
  cases received : host.receive time middle.channel.1 with
  | mk result inner =>
      have extended : ∀ event, middle.channel.2 ++ [event] = before.trace ++ (events ++ [event]) :=
        fun event => by rw [← List.append_assoc, ← trace]; rfl
      cases result with
      | ok response =>
          refine .inl ⟨response, inner, ?_⟩
          rw [receive_answered middle held (traced_receive received), extended]
      | error error =>
          rw [receive_unanswered middle held (traced_receive received)]
          exact .inr ⟨error, abandoned_fault attached (extended _)
            (by simp [untimed, Event.timedOut])⟩

structure Answered (request : Request) (response : Response)
    (before after : Session (state × List Event)) : Prop where
  ready : before.phase = .ready
  phase : after.phase = .ready
  attached : after.attached = before.attached
  trace : after.trace = before.trace ++ [.sent request (.ok ()), .received (.ok response)]

/-- From a sound session an exchange is answered in its turn, or it abandons the session. There is
no third way. -/
theorem exchange_outcome (sound : before.Sound) {step : Step} {request : Request}
    (belongs : request.step? = some step) :
    (∃ response after, exchange host.traced stage step request before = .ok response after ∧
      before.next = step ∧ Answered request response before after) ∨
    ∃ events, Parting before.phase before.next events ∧
      Abandoned stage events before (exchange host.traced stage step request before) := by
  by_cases refused : before.phase ≠ .ready ∨ before.next ≠ step
  · rw [exchange_refused before refused]
    exact .inr ⟨[], .silent, abandoned_faultOrder⟩
  obtain ⟨ready, rfl⟩ : before.phase = .ready ∧ before.next = step := by simpa using refused
  have held := (sound.of_usable (.inr ready)).1
  -- The session is serving from here on, and only a response that fits makes it ready again.
  rw [exchange_allowed before ready, ready]
  rcases @send_outcome state host stage before { before with phase := .serving } request held rfl
    rfl with ⟨inner, delivered⟩ | ⟨error, abandoned⟩
  · rw [EState.bind_of_ok delivered]
    rcases @receive_outcome state host stage before
      { before with
        phase := .serving, channel := (inner, before.trace ++ [.sent request (.ok ())]) }
      _ before.config.requestTime held rfl rfl rfl with
      ⟨response, inner', received⟩ | ⟨error, abandoned⟩
    · dsimp only at received ⊢
      rw [EState.bind_of_ok received]
      by_cases reported : ∃ message, response = .failed message
      · obtain ⟨message, rfl⟩ := reported
        exact .inr ⟨_, .unfit belongs, abandoned_fault rfl rfl rfl⟩
      · rw [conclude_accepted _ fun message same => reported ⟨message, same⟩]
        exact .inl ⟨response, _, rfl, rfl, ready, rfl, rfl, rfl⟩
    · exact .inr ⟨_, .unfit belongs, abandoned.bind⟩
  · exact .inr ⟨_, .undelivered belongs, abandoned.bind⟩

/-- A call ends in a conversation, and if it fails it gives the session up. -/
inductive Ends (stage : Stage) (before : Session (state × List Event)) :
    EStateM.Result Error (Session (state × List Event)) α → Prop
  | well {value : α} {after : Session (state × List Event)} (usable : before.phase ≠ .faulted)
      (sound : after.Sound) : Ends stage before (.ok value after)
  | badly {events : List Event} {result : EStateM.Result Error (Session (state × List Event)) α}
      (parted : Parting before.phase before.next events)
      (abandoned : Abandoned stage events before result) : Ends stage before result

/-- An answer of the wrong kind ends the session like no answer. -/
theorem Answered.ends {request : Request} {response : Response} {cause : Error}
    {after : Session (state × List Event)} (answered : Answered request response before after)
    (belongs : request.step? = some before.next) (untimed : cause.family ≠ .oracleTimeout) :
    Ends stage before (fault host.traced stage cause after : EStateM.Result _ _ α) :=
  .badly (answered.ready ▸ .unfit belongs)
    (abandoned_fault answered.attached answered.trace (by simp [Event.timedOut, untimed]))

theorem Answered.sound {request : Request} {response : Response} {next : Step}
    {after : Session (state × List Event)} (answered : Answered request response before after)
    (sound : before.Sound) (exchanged : Exchanged before.next request response next) :
    Stands after.phase after.attached next after.trace := by
  obtain ⟨held, live⟩ := sound.of_usable (.inr answered.ready)
  rw [answered.ready] at live
  rw [answered.phase, answered.attached, held, answered.trace]
  exact .live (.exchanged live exchanged)

theorem ends_acknowledged (sound : before.Sound) {step following : Step} {request : Request}
    (belongs : request.step? = some step) (leads : Exchanged step request .ack following) :
    Ends stage before (acknowledged host.traced stage step following request before) := by
  rw [acknowledged_eq]
  rcases @exchange_outcome state host stage before sound step request belongs with
    ⟨response, after, exchanged, rfl, answered⟩ | ⟨events, parted, abandoned⟩
  · rw [EState.bind_of_ok exchanged]
    cases response with
    | ack => exact .well (by rw [answered.ready]; decide) (answered.sound sound leads)
    | ready runtime => exact answered.ends belongs (protocol_untimed _ _)
    | decryptedMethods methods => exact answered.ends belongs (protocol_untimed _ _)
    | failed message => exact answered.ends belongs (protocol_untimed _ _)
  · exact .badly parted abandoned.bind

theorem ends_decryptMethods (sound : before.Sound) :
    Ends .decryptMethods before (decryptMethods host.traced before) := by
  rw [decryptMethods_eq]
  rcases @exchange_outcome state host .decryptMethods before sound .decryptMethods .decryptMethods
    rfl with
    ⟨response, after, exchanged, next, answered⟩ | ⟨events, parted, abandoned⟩
  · rw [EState.bind_of_ok exchanged]
    have belongs : Request.step? .decryptMethods = some before.next := congrArg some next.symm
    cases response with
    | decryptedMethods captured =>
        cases checked : captured.mapM CapturedMethod.check with
        | ok methods =>
            rw [harvested_checked _ checked]
            exact .well (by rw [answered.ready]; decide)
              (answered.sound sound (next ▸ .decryptMethods))
        | error error =>
            obtain ⟨method, -, refused⟩ := Except.mapM_eq_error checked
            rw [harvested_refused checked]
            exact answered.ends belongs (CapturedMethod.check_family refused)
    | ready runtime => exact answered.ends belongs (protocol_untimed _ _)
    | ack => exact answered.ends belongs (protocol_untimed _ _)
    | failed message => exact answered.ends belongs (protocol_untimed _ _)
  · exact .badly parted abandoned.bind

theorem Sound.greeted (sound : before.Sound) (connecting : before.phase = .connecting)
    {runtime : Runtime} :
    Stands .ready before.attached before.next
      (before.trace ++ ([] ++ [.received (.ok (.ready runtime))])) := by
  obtain ⟨held, live⟩ := sound.of_usable (.inl connecting)
  rw [connecting] at live
  obtain ⟨first, empty⟩ := live.of_connecting
  rw [held, first, empty]
  exact .live .connected

theorem ends_waitConnected (sound : before.Sound) :
    Ends .connect before (waitConnected host.traced before) := by
  by_cases refused : before.phase ≠ .connecting
  · rw [waitConnected_refused before refused]
    exact .badly .silent abandoned_faultOrder
  have connecting : before.phase = .connecting := by simpa using refused
  have held := (sound.of_usable (.inl connecting)).1
  rw [waitConnected_allowed before connecting]
  rcases @receive_outcome state host .connect before before [] before.config.connectTime held rfl
    (List.append_nil _).symm rfl with
    ⟨response, inner, received⟩ | ⟨error, abandoned⟩
  · rw [EState.bind_of_ok received]
    have ends : ∀ cause : Error, cause.family ≠ .oracleTimeout → Ends .connect before
        (fault host.traced .connect cause { before with channel := (inner, before.trace ++
          ([] ++ [.received (.ok response)])) } : EStateM.Result _ _ Runtime) :=
      fun cause untimed => .badly (connecting ▸ .ungreeted)
        (abandoned_fault rfl rfl (by simp [Event.timedOut, untimed]))
    cases response with
    | ready runtime => exact .well (by rw [connecting]; decide) (sound.greeted connecting)
    | ack => exact ends _ (protocol_untimed _ _)
    | decryptedMethods methods => exact ends _ (protocol_untimed _ _)
    | failed message => exact ends _ (protocol_untimed _ _)
  · exact .badly (connecting ▸ .ungreeted) abandoned.bind

theorem Sound.close (sound : before.Sound) :
    (before.close host.traced).Sound ∧
      (before.phase = .faulted → (before.close host.traced).phase = .faulted) := by
  obtain ⟨config, ⟨inner, trace⟩, attached, phase, step, runtime⟩ := before
  change Stands phase attached step trace at sound
  cases sound with
  | live live =>
      rcases live.phase_eq with rfl | rfl
      · have closed : Stands .closed false step (trace ++ [] ++ [.shutdown]) :=
          .ended (.inr rfl) live .silent
        rw [List.append_nil] at closed
        exact ⟨closed, nofun⟩
      · exact ⟨.ended (.inr rfl) live .goodbye, nofun⟩
  | ended gone live parted =>
      rcases gone with rfl | rfl
      · exact ⟨.ended (.inl rfl) live parted, fun _ => rfl⟩
      · exact ⟨.ended (.inr rfl) live parted, nofun⟩

/-! ## Runs -/

/-- What a call makes of a sound session: it stays sound, a faulted one stays faulted, and a call
that fails gives the session up at its stage. -/
inductive Performs (before : Session (state × List Event)) :
    Option Stage → Except Error Unit × Session (state × List Event) → Prop
  | well {stage? : Option Stage} {after : Session (state × List Event)} (sound : after.Sound)
      (stays : before.phase = .faulted → after.phase = .faulted) :
      Performs before stage? (.ok (), after)
  | badly {stage : Stage} {events : List Event} {error : Error}
      {after : Session (state × List Event)} (sound : after.Sound)
      (abandons : Abandons stage events error before after) :
      Performs before (some stage) (.error error, after)

theorem Ends.performs {result : EStateM.Result Error (Session (state × List Event)) α}
    (ends : Ends stage before result) (sound : before.Sound) :
    Performs before (some stage) (settled result) := by
  cases ends with
  | well usable sound' => exact .well sound' fun faulted => absurd faulted usable
  | badly parted abandoned =>
      obtain ⟨error, after, rfl, abandons⟩ := abandoned
      exact .badly (abandons.sound sound parted) abandons

/-- Each call is looked at once; whole runs follow by induction. -/
theorem Sound.perform (sound : before.Sound) (operation : Operation) :
    Performs before operation.stage? (perform host.traced operation before) := by
  cases operation with
  | waitConnected => exact (ends_waitConnected sound).performs sound
  | installHook initializer => exact (ends_acknowledged sound rfl .installHook).performs sound
  | loadTarget target => exact (ends_acknowledged sound rfl .loadTarget).performs sound
  | decryptMethods => exact (ends_decryptMethods sound).performs sound
  | close => exact .well sound.close.1 sound.close.2
  | drop => exact .well sound.close.1 sound.close.2

/-- Whatever a call comes to, the session after it is sound. -/
theorem Performs.sound {stage? : Option Stage}
    {settled : Except Error Unit × Session (state × List Event)}
    (performs : Performs before stage? settled) : settled.2.Sound := by
  cases performs with
  | well sound _ => exact sound
  | badly sound _ => exact sound

theorem Performs.faulted {stage? : Option Stage}
    {settled : Except Error Unit × Session (state × List Event)}
    (performs : Performs before stage? settled) (faulted : before.phase = .faulted) :
    settled.2.phase = .faulted := by
  cases performs with
  | well _ stays => exact stays faulted
  | badly _ abandons => exact abandons.faulted

/-- Whatever the channel answers, every run of calls leaves a sound session. -/
theorem Sound.run (sound : before.Sound) (operations : List Operation) :
    (run host.traced operations before).Sound := by
  induction operations generalizing before with
  | nil => exact sound
  | cons operation operations ih => exact ih (sound.perform operation).sound

theorem sound_start (config : Config) (channel : state) :
    (start config (channel, ([] : List Event))).Sound :=
  .live .connecting

end Session

end CilRecovery.Oracle
