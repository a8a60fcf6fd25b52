import CilRecovery.Proofs.MethodTable
import CilRecovery.Proofs.Oracle.Release

/-!
# Captured methods are gathered all or none

What the last request of a session comes to. If every method that the helper captured is valid,
all of them are handed out and the session has nothing more to ask; if a single one is not, none
is handed out and the session is given up.
-/

set_option autoImplicit false

namespace CilRecovery

/-! ## Tables of lists -/

theorem MethodTable.get?_foldl_add_of_others {methods : List RecoveredMethod} {token : Token}
    (others : ∀ method ∈ methods, method.token ≠ token) (table : MethodTable) :
    (methods.foldl MethodTable.add table).get? token = table.get? token := by
  induction methods generalizing table with
  | nil => rfl
  | cons first rest ih =>
      rw [List.forall_mem_cons] at others
      rw [List.foldl_cons, ih others.2, MethodTable.get?_add, if_neg others.1]

namespace Oracle

variable {state : Type}

/-! ## Captured methods -/

/-- The token of the method is that of a method row, and its body is a method record. -/
structure CapturedMethod.Valid (captured : CapturedMethod) : Prop where
  table : (⟨captured.token⟩ : Token).table = 0x06
  row : (⟨captured.token⟩ : Token).row ≠ 0
  body : ∃ body, Method.Body.parse captured.body = .ok body

theorem CapturedMethod.valid_iff {captured : CapturedMethod} :
    captured.Valid ↔ ∃ method, captured.check = .ok method := by
  have named : (⟨captured.token⟩ : Token).isMethod ↔
      (⟨captured.token⟩ : Token).table = 0x06 ∧ (⟨captured.token⟩ : Token).row ≠ 0 := by
    simp [Token.isMethod, Token.methodTable]
  constructor
  · intro ⟨table, row, body, parsed⟩
    exact ⟨_, check_eq_ok_iff.mpr ⟨named.mpr ⟨table, row⟩, body, parsed, rfl⟩⟩
  · intro ⟨method, checked⟩
    obtain ⟨isMethod, body, parsed, _⟩ := check_eq_ok_iff.mp checked
    obtain ⟨table, row⟩ := named.mp isMethod
    exact ⟨table, row, body, parsed⟩

/-- A table with the tokens of captured methods and, for each of them, what was captured last. -/
structure Gathers (captured : List CapturedMethod) (table : MethodTable) : Prop where
  tokens : ∀ token, (table.get? token).isSome ↔ ∃ method ∈ captured, method.token = token.value
  methods : ∀ token method, table.get? token = some method →
    ∃ earlier last later, captured = earlier ++ last :: later ∧ last.token = token.value ∧
      (∀ other ∈ later, other.token ≠ token.value) ∧ method.token = token ∧
      method.address = last.rva ∧ Method.Body.parse last.body = .ok method.body

/-- A token that nothing was captured for is not put into the table. -/
theorem get?_foldl_add_of_unnamed {captured : List CapturedMethod} {methods : List RecoveredMethod}
    (checked : captured.mapM CapturedMethod.check = .ok methods) {token : Token}
    (unnamed : ∀ method ∈ captured, method.token ≠ token.value) (table : MethodTable) :
    (methods.foldl MethodTable.add table).get? token = table.get? token := by
  refine MethodTable.get?_foldl_add_of_others (fun method member => ?_) table
  obtain ⟨observed, inside, valid⟩ := Except.exists_of_mem_mapM checked member
  obtain ⟨_, _, _, rfl⟩ := CapturedMethod.check_eq_ok_iff.mp valid
  intro same
  exact unnamed observed inside (congrArg Token.value same)

/-- What was captured last for a token is its entry, whatever was in the table before. -/
theorem get?_foldl_add_of_named {captured : List CapturedMethod} {methods : List RecoveredMethod}
    (checked : captured.mapM CapturedMethod.check = .ok methods) {token : Token}
    (named : ∃ method ∈ captured, method.token = token.value) (table : MethodTable) :
    ∃ earlier last later body, captured = earlier ++ last :: later ∧ last.token = token.value ∧
      (∀ other ∈ later, other.token ≠ token.value) ∧
      Method.Body.parse last.body = .ok body ∧
      (methods.foldl MethodTable.add table).get? token = some ⟨token, last.rva, body⟩ := by
  induction captured generalizing methods table with
  | nil =>
      obtain ⟨_, member, _⟩ := named
      cases member
  | cons first rest ih =>
      rw [List.mapM_cons] at checked
      obtain ⟨method, valid, checked⟩ := Except.bind_eq_ok.mp checked
      obtain ⟨others, behind, same⟩ := Except.bind_eq_ok.mp checked
      cases same
      by_cases again : ∃ method ∈ rest, method.token = token.value
      · obtain ⟨earlier, last, later, body, rfl, same, unnamed, parsed, held⟩ :=
          ih behind again (table.add method)
        exact ⟨first :: earlier, last, later, body, rfl, same, unnamed, parsed, held⟩
      · have unnamed : ∀ method ∈ rest, method.token ≠ token.value :=
          fun method member same => again ⟨method, member, same⟩
        have same : first.token = token.value := by
          obtain ⟨found, member, same⟩ := named
          cases member with
          | head => exact same
          | tail _ later => exact absurd same (unnamed found later)
        obtain ⟨_, body, parsed, rfl⟩ := CapturedMethod.check_eq_ok_iff.mp valid
        have entry : (⟨first.token⟩ : Token) = token := congrArg Token.mk same
        refine ⟨[], first, rest, body, rfl, same, unnamed, parsed, ?_⟩
        rw [List.foldl_cons, get?_foldl_add_of_unnamed behind unnamed, MethodTable.get?_add,
          if_pos entry, entry]

/-- The table has the token of every captured method, and what was captured last under it. -/
theorem gathers_of_checked {captured : List CapturedMethod} {methods : List RecoveredMethod}
    (checked : captured.mapM CapturedMethod.check = .ok methods) :
    Gathers captured (methods.foldl MethodTable.add .empty) := by
  have named_of_held : ∀ token method,
      (methods.foldl MethodTable.add .empty).get? token = some method →
        ∃ method ∈ captured, method.token = token.value := by
    intro token method held
    by_contra unnamed
    rw [get?_foldl_add_of_unnamed checked fun method member same =>
      unnamed ⟨method, member, same⟩] at held
    cases held
  constructor
  · intro token
    constructor
    · intro held
      obtain ⟨method, held⟩ := Option.isSome_iff_exists.mp held
      exact named_of_held token method held
    · intro named
      obtain ⟨_, last, _, body, _, _, _, _, held⟩ := get?_foldl_add_of_named checked named .empty
      rw [held]
      rfl
  · intro token method held
    obtain ⟨earlier, last, later, body, split, same, others, parsed, held'⟩ :=
      get?_foldl_add_of_named checked (named_of_held token method held) .empty
    rw [held] at held'
    cases held'
    exact ⟨earlier, last, later, split, same, others, rfl, rfl, parsed⟩

namespace Session

variable {host : Channel state} {session : Session state}

/-! ## Sessions with nothing more to ask -/

/-- Every request that a session could still make is out of order. -/
def Spent (session : Session state) : Prop :=
  session.phase ≠ .connecting ∧ (session.phase = .ready → session.next = .finished)

/-- A request of a spent session is refused before anything is sent. -/
theorem Spent.refuses (spent : session.Spent) {operation : Operation} {stage : Stage}
    (requested : operation.stage? = some stage) :
    perform host operation session =
      (.error (.protocol stage (.outOfOrder session.phase session.next)),
        { session.tornDown host with phase := .faulted }) := by
  have refused : ∀ step, step ≠ .finished → session.phase ≠ .ready ∨ session.next ≠ step := by
    intro step unfinished
    by_cases ready : session.phase = .ready
    · exact .inr (spent.2 ready ▸ unfinished.symm)
    · exact .inl ready
  cases operation with
  | waitConnected =>
      cases requested
      rw [perform, waitConnected_refused session spent.1]
      rfl
  | installHook initializer =>
      cases requested
      rw [perform, installHook, acknowledged_eq,
        EState.bind_of_error (exchange_refused session (refused _ (by decide)))]
      rfl
  | loadTarget target =>
      cases requested
      rw [perform, loadTarget, acknowledged_eq,
        EState.bind_of_error (exchange_refused session (refused _ (by decide)))]
      rfl
  | decryptMethods =>
      cases requested
      rw [perform, decryptMethods_eq,
        EState.bind_of_error (exchange_refused session (refused _ (by decide)))]
      rfl
  | close => cases requested
  | drop => cases requested

theorem phase_close (session : Session state) :
    (session.close host).phase = .faulted ∨ (session.close host).phase = .closed := by
  obtain ⟨config, channel, attached, phase, next, runtime⟩ := session
  cases attached <;> cases phase <;> simp [close, tornDown]

theorem Spent.of_ended (ended : session.phase = .faulted ∨ session.phase = .closed) :
    session.Spent := by
  cases ended with
  | inl faulted => exact ⟨by rw [faulted]; decide, by rw [faulted]; exact nofun⟩
  | inr closed => exact ⟨by rw [closed]; decide, by rw [closed]; exact nofun⟩

theorem Spent.perform (spent : session.Spent) (operation : Operation) :
    (perform host operation session).2.Spent := by
  cases requested : operation.stage? with
  | some stage =>
      rw [spent.refuses requested]
      exact .of_ended (.inl rfl)
  | none =>
      cases operation with
      | close => exact .of_ended (phase_close session)
      | drop => exact .of_ended (phase_close session)
      | _ => cases requested

/-- A session whose requests are all out of order stays so, whatever is called. -/
theorem Spent.run (spent : session.Spent) (operations : List Operation) :
    (run host operations session).Spent := by
  induction operations generalizing session with
  | nil => exact spent
  | cons operation operations ih => exact ih (spent.perform operation)

/-! ## The last request -/

/-- The sessions that calls on a started helper lead to. -/
def Reached (host : Channel state) (session : Session state) : Prop :=
  ∃ config channel operations, run host operations (start config channel) = session

theorem Reached.attached (reached : Reached host session) (ready : session.phase = .ready) :
    session.attached = true := by
  obtain ⟨config, channel, operations, rfl⟩ := reached
  have sound : (run host.traced operations (start config (channel, []))).Sound :=
    (sound_start config channel).run operations
  have listed : run host operations (start config channel) =
      (run host.traced operations (start config (channel, []))).untraced :=
    run_untraced host operations (start config (channel, []))
  rw [listed] at ready ⊢
  exact sound.released.held.mpr (.inr ready)

/-- Delivery and answer come down to the check of what was captured. -/
theorem decryptMethods_of_captured {captured : List CapturedMethod} {asked answered : state}
    (attached : session.attached = true) (ready : session.phase = .ready)
    (due : session.next = .decryptMethods)
    (sent : host.send .decryptMethods session.channel = (.ok (), asked))
    (received : host.receive session.config.requestTime asked =
      (.ok (.decryptedMethods captured), answered)) :
    decryptMethods host session =
      harvested host (.decryptedMethods captured) { session with channel := answered } := by
  rw [decryptMethods_eq, EState.bind_of_ok
    (exchange_answered session attached ready due sent received nofun)]

theorem all_valid_iff {captured : List CapturedMethod} :
    (∀ method ∈ captured, method.Valid) ↔
      ∃ methods, captured.mapM CapturedMethod.check = .ok methods := by
  rw [Except.exists_mapM_eq_ok]
  exact forall₂_congr fun method _ => CapturedMethod.valid_iff

/-- A session that is ready for its last request, and a response with captured methods: either
every method is valid, or the session is given up without one. -/
theorem decryptMethods_all_or_none {captured : List CapturedMethod} {asked answered : state}
    (reached : Reached host session) (ready : session.phase = .ready)
    (due : session.next = .decryptMethods)
    (sent : host.send .decryptMethods session.channel = (.ok (), asked))
    (received : host.receive session.config.requestTime asked =
      (.ok (.decryptedMethods captured), answered)) :
    ((∃ table after, decryptMethods host session = .ok table after) ↔
      ∀ method ∈ captured, method.Valid) ∧
    (∀ table after, decryptMethods host session = .ok table after →
      Gathers captured table ∧ after = { session with channel := answered, next := .finished } ∧
      ∀ more operation stage, operation.stage? = some stage →
        ∃ fault final, perform host operation (run host more after) =
          (.error (.protocol stage fault), final) ∧
          final.phase = .faulted ∧ final.attached = false) ∧
    ∀ error after, decryptMethods host session = .error error after →
      error.family = .oracleProtocol ∧ reportedStage? error = some .decryptMethods ∧
      after = { session with
        channel := host.shutdown answered, attached := false, phase := .faulted } := by
  have attached := reached.attached ready
  rw [decryptMethods_of_captured attached ready due sent received, all_valid_iff]
  cases checked : captured.mapM CapturedMethod.check with
  | ok methods =>
      rw [harvested_checked _ checked]
      refine ⟨⟨fun _ => ⟨methods, rfl⟩, fun _ => ⟨_, _, rfl⟩⟩, ?_, fun _ _ same => by cases same⟩
      intro table after same
      cases same
      refine ⟨gathers_of_checked checked, rfl, ?_⟩
      intro more operation stage requested
      have spent : Spent { session with channel := answered, next := .finished } :=
        ⟨by rw [ready]; decide, fun _ => rfl⟩
      exact ⟨_, _, (spent.run more).refuses requested, rfl, attached_tornDown _⟩
  | error error =>
      obtain ⟨method, _, refused⟩ := Except.mapM_eq_error checked
      rw [harvested_refused checked, fault]
      constructor
      · constructor
        · intro returned
          obtain ⟨_, _, same⟩ := returned
          cases same
        · intro valid
          obtain ⟨_, same⟩ := valid
          cases same
      constructor
      · intro table after same
        cases same
      · intro reported after same
        cases same
        refine ⟨?_, reportedStage?_reportedAt .decryptMethods error, ?_⟩
        · rw [family_reportedAt, if_neg (CapturedMethod.check_family refused)]
        · rw [tornDown, if_pos attached]

/-- Two methods, of which the first was captured once more with other code. -/
private def recaptured : List CapturedMethod :=
  [⟨0x06000001, 1, [0x06, 0x2A]⟩, ⟨0x06000002, 5, [0x06, 0x2A]⟩, ⟨0x06000001, 9, [0x0A, 0x17, 0x2A]⟩]

/-- Behind them, something that is no method. -/
private def misnamed : List CapturedMethod := recaptured ++ [⟨0x02000001, 1, [0x06, 0x2A]⟩]

private def lastAnswer (captured : List CapturedMethod) : Channel.Script :=
  ⟨[.ok (.decryptedMethods captured)], []⟩

private def loadedSession (captured : List CapturedMethod) : Session Channel.Script :=
  run Channel.scripted [.waitConnected, .installHook [], .loadTarget (.bytes [])]
    (start .default
      ⟨[.ok (.ready .clr40), .ok .ack, .ok .ack, .ok (.decryptedMethods captured)], []⟩)

theorem decryptMethods_all_or_none_recaptured :
    (∃ table after, decryptMethods Channel.scripted (loadedSession recaptured) = .ok table after ∧
      table.values.map RecoveredMethod.address = [9, 5] ∧ Gathers recaptured table ∧
      ∃ fault final, perform Channel.scripted .decryptMethods after =
        (.error (.protocol .decryptMethods fault), final) ∧
        final.phase = .faulted ∧ final.attached = false) ∧
    ∃ error after, decryptMethods Channel.scripted (loadedSession misnamed) = .error error after ∧
      error.family = .oracleProtocol ∧ after.phase = .faulted := by
  constructor
  · obtain ⟨_, handed, _⟩ := @decryptMethods_all_or_none _ Channel.scripted
      (loadedSession recaptured) recaptured (lastAnswer recaptured) ⟨[], []⟩
      ⟨_, _, _, rfl⟩ rfl rfl rfl rfl
    have harvested : ∃ table after,
        decryptMethods Channel.scripted (loadedSession recaptured) = .ok table after ∧
          table.values.map RecoveredMethod.address = [9, 5] := ⟨_, _, rfl, by decide⟩
    obtain ⟨table, after, succeeded, addresses⟩ := harvested
    obtain ⟨gathers, _, refuses⟩ := handed table after succeeded
    exact ⟨table, after, succeeded, addresses, gathers, refuses [] .decryptMethods _ rfl⟩
  · obtain ⟨_, _, spoiled⟩ := @decryptMethods_all_or_none _ Channel.scripted
      (loadedSession misnamed) misnamed (lastAnswer misnamed) ⟨[], []⟩
      ⟨_, _, _, rfl⟩ rfl rfl rfl rfl
    have failed : ∃ error after,
        decryptMethods Channel.scripted (loadedSession misnamed) = .error error after :=
      ⟨_, _, rfl⟩
    obtain ⟨error, after, failed⟩ := failed
    obtain ⟨family, _, rfl⟩ := spoiled error after failed
    exact ⟨error, _, failed, family, rfl⟩

end Session

end Oracle

end CilRecovery
