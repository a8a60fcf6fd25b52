import CilRecovery.Proofs.Oracle.Conversation

/-!
# The release of the helper

Between calls a session either holds its channel and can go on, or it shut the channel down, once
and after everything else. A call that fails leaves a faulted session, and that is final.
-/

set_option autoImplicit false

namespace CilRecovery.Oracle

variable {state : Type}

/-! ## Shutdowns of a conversation -/

/-- As long as the session is of use, its channel was not shut down. -/
theorem Live.shutdown_not_mem {phase : Phase} {step : Step} {trace : List Event}
    (live : Live phase step trace) : .shutdown ∉ trace := by
  induction live with
  | connecting => exact List.not_mem_nil
  | connected => simp
  | exchanged before exchange ih => simp [ih]

theorem Parting.shutdown_not_mem {phase : Phase} {step : Step} {parting : List Event}
    (parted : Parting phase step parting) : .shutdown ∉ parting := by
  cases parted <;> simp

theorem countP_isShutdown {trace : List Event} (absent : .shutdown ∉ trace) :
    trace.countP Event.isShutdown = 0 := by
  refine List.countP_eq_zero.mpr fun event member shutdown => ?_
  cases event with
  | shutdown => exact absent member
  | _ => cases shutdown

/-- The only shutdown of a trace stands at its end. -/
theorem eq_nil_of_shutdown {trace before after : List Event} (absent : .shutdown ∉ trace)
    (split : trace ++ [.shutdown] = before ++ .shutdown :: after) : after = [] := by
  rcases List.eq_nil_or_concat' after with rfl | ⟨after, last, rfl⟩
  · rfl
  · rw [← List.cons_append, ← List.append_assoc] at split
    obtain ⟨rfl, -⟩ := List.append_inj' split rfl
    exact absurd (List.mem_append_right _ (List.mem_cons_self)) absent

/-! ## Between calls -/

namespace Session

/-- A session holds its channel as long as it is of use, and shut it down once, at the end,
otherwise. No call leaves it in the middle of an exchange. -/
structure Released (session : Session (state × List Event)) : Prop where
  rests : session.phase = .connecting ∨ session.phase = .ready ∨ session.phase = .faulted ∨
    session.phase = .closed
  held : session.attached = true ↔ session.phase = .connecting ∨ session.phase = .ready
  shutdowns : session.trace.countP Event.isShutdown =
    if session.phase = .faulted ∨ session.phase = .closed then 1 else 0
  last : ∀ before after, session.trace = before ++ .shutdown :: after → after = []

/-- The phase and the channel of a sound session follow from what happened on it. -/
theorem Sound.released {session : Session (state × List Event)} (sound : session.Sound) :
    session.Released := by
  obtain ⟨config, ⟨inner, trace⟩, attached, phase, next, runtime⟩ := session
  change Stands phase attached next trace at sound
  cases sound with
  | live live =>
      have absent := live.shutdown_not_mem
      have last : ∀ before after, trace = before ++ .shutdown :: after → after = [] :=
        fun before after split => absurd (split ▸ List.mem_append_right _ List.mem_cons_self) absent
      have none := countP_isShutdown absent
      rcases live.phase_eq with rfl | rfl
      · exact ⟨.inl rfl, ⟨fun _ => .inl rfl, fun _ => rfl⟩, none, last⟩
      · exact ⟨.inr (.inl rfl), ⟨fun _ => .inr rfl, fun _ => rfl⟩, none, last⟩
  | @ended _ _ _ trace parting gone live parted =>
      have absent := List.not_mem_append live.shutdown_not_mem parted.shutdown_not_mem
      have once : (trace ++ parting ++ [Event.shutdown]).countP Event.isShutdown = 1 := by
        rw [List.countP_append, countP_isShutdown absent]
        rfl
      rcases gone with rfl | rfl
      · exact ⟨.inr (.inr (.inl rfl)), ⟨nofun, nofun⟩, once,
          fun _ _ => eq_nil_of_shutdown absent⟩
      · exact ⟨.inr (.inr (.inr rfl)), ⟨nofun, nofun⟩, once,
          fun _ _ => eq_nil_of_shutdown absent⟩

/-! ## Calls that fail -/

/-- A failed call leaves a faulted session. Its error names the stage of the call, and it is a
timeout only if the channel reported one during the call. -/
structure FailsAt (stage? : Option Stage) (before after : Session (state × List Event))
    (error : Error) : Prop where
  faulted : after.phase = .faulted
  staged : stage?.isSome ∧ reportedStage? error = stage?
  family : error.family = .oracleTimeout ∨ error.family = .oracleProtocol
  timed : ∃ events, after.trace = before.trace ++ events ∧
    (error.family = .oracleTimeout ↔ ∃ event ∈ events, event.timedOut)

theorem Abandons.failsAt {stage : Stage} {events : List Event} {error : Error}
    {before after : Session (state × List Event)}
    (abandons : Abandons stage events error before after) :
    FailsAt (some stage) before after error := by
  refine ⟨abandons.faulted, ⟨rfl, abandons.staged⟩, ?_, _,
    abandons.trace.trans (List.append_assoc _ _ _), ?_⟩
  · rw [abandons.family]
    split
    · exact .inl rfl
    · exact .inr rfl
  · have untimed : (if before.attached then [Event.shutdown] else []).any Event.timedOut =
        false := by split <;> rfl
    rw [abandons.family, ← List.any_eq_true, List.any_append, untimed, Bool.or_false]
    split
    · next timed => simp [timed]
    · next timed => simp [timed]

theorem Performs.failsAt {stage? : Option Stage} {before after : Session (state × List Event)}
    {error : Error} (performs : Performs before stage? (.error error, after)) :
    FailsAt stage? before after error := by
  cases performs with
  | badly sound abandons => exact abandons.failsAt

/-- No call brings a faulted session back. -/
theorem faulted_run {host : Channel state} {session : Session (state × List Event)}
    (sound : session.Sound) (faulted : session.phase = .faulted) (operations : List Operation) :
    (run host.traced operations session).phase = .faulted := by
  induction operations generalizing session with
  | nil => exact faulted
  | cons operation operations ih =>
      have performs : Performs session operation.stage? (perform host.traced operation session) :=
        sound.perform operation
      exact ih performs.sound (performs.faulted faulted)

/-- Whatever the channel answers and whichever calls are made, the helper is released exactly
once, by the call that ends the session, and every failure is reported as one of the session. -/
theorem released_once (host : Channel state) (config : Config) (channel : state)
    (operations : List Operation) :
    let session := run host.traced operations (start config (channel, []))
    run host operations (start config channel) = session.untraced ∧ session.Released ∧
      (∀ operation error after, perform host.traced operation session = (.error error, after) →
        FailsAt operation.stage? session after error) ∧
      (session.phase = .faulted → ∀ more, (run host.traced more session).phase = .faulted) := by
  intro session
  have sound : session.Sound := (sound_start config channel).run operations
  refine ⟨run_untraced host operations (start config (channel, [])), sound.released, ?_,
    faulted_run sound⟩
  intro operation error after failed
  have performs : Performs session operation.stage? (perform host.traced operation session) :=
    sound.perform operation
  rw [failed] at performs
  exact performs.failsAt

end Session

end CilRecovery.Oracle
