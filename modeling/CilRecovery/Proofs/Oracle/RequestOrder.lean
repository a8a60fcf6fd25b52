import CilRecovery.Proofs.Oracle.Conversation
import Mathlib.Data.List.Basic

/-!
# The order of requests

The requests of a session reach the wire in one order, each of them after the one before was
answered, and the goodbye only while nothing is outstanding.
-/

set_option autoImplicit false

namespace CilRecovery.Oracle

variable {state : Type}

/-- The first requests of the protocol in their order, and possibly a goodbye. -/
def InOrder (requests : List Request) : Prop :=
  ∃ initializer target ordinary goodbye, requests = ordinary ++ goodbye ∧
    ordinary <+: [.installHook initializer, .loadTarget target, .decryptMethods] ∧
    (goodbye = [] ∨ goodbye = [.shutdown])

def Outstanding (trace : List Event) : Prop :=
  ∃ earlier request result later, trace = earlier ++ .sent request result :: later ∧
    ∀ response, .received (.ok response) ∉ later

structure Licensed (trace : List Event) (request : Request) : Prop where
  greeted : ∃ runtime, .received (.ok (.ready runtime)) ∈ trace
  acknowledged : request.step? = some .loadTarget ∨ request.step? = some .decryptMethods →
    ∃ earlier previous, trace = earlier ++ [.sent previous (.ok ()), .received (.ok .ack)]
  idle : request = .shutdown → ¬ Outstanding trace

/-- Every request of a conversation was sent when it might be sent. -/
def AllLicensed (trace : List Event) : Prop :=
  ∀ before request result after, trace = before ++ .sent request result :: after →
    Licensed before request

theorem AllLicensed.snoc {trace : List Event} {event : Event} (all : AllLicensed trace)
    (licensed : ∀ request result, event = .sent request result → Licensed trace request) :
    AllLicensed (trace ++ [event]) := by
  intro before request result after split
  rcases List.eq_nil_or_concat' after with rfl | ⟨after, last, rfl⟩
  · obtain ⟨rfl, same⟩ := List.append_inj' split rfl
    exact licensed request result (List.singleton_inj.mp same)
  · rw [← List.cons_append, ← List.append_assoc] at split
    obtain ⟨same, -⟩ := List.append_inj' split rfl
    exact all before request result after same

theorem not_outstanding_of_answered (trace : List Event) (response : Response) :
    ¬ Outstanding (trace ++ [.received (.ok response)]) := by
  intro ⟨earlier, request, result, later, split, unanswered⟩
  rcases List.eq_nil_or_concat' later with rfl | ⟨later, last, rfl⟩
  · obtain ⟨-, same⟩ := List.append_inj' split rfl
    cases same
  · rw [← List.cons_append, ← List.append_assoc] at split
    obtain ⟨-, same⟩ := List.append_inj' split rfl
    exact unanswered response (List.singleton_inj.mp same ▸ List.mem_append_right _ (by simp))

/-! ## Live conversations -/

theorem Live.greeted {phase : Phase} {step : Step} {trace : List Event}
    (live : Live phase step trace) (ready : phase = .ready) :
    ∃ runtime, .received (.ok (.ready runtime)) ∈ trace := by
  induction live with
  | connecting => exact absurd ready (by decide)
  | @connected runtime => exact ⟨runtime, List.mem_singleton.mpr rfl⟩
  | exchanged before exchange ih =>
      obtain ⟨runtime, member⟩ := ih rfl
      exact ⟨runtime, List.mem_append_left _ member⟩

theorem Live.not_outstanding {step : Step} {trace : List Event} (live : Live .ready step trace) :
    ¬ Outstanding trace := by
  cases live with
  | connected => exact not_outstanding_of_answered [] _
  | @exchanged _ _ request response trace before exchange =>
      have split : trace ++ [.sent request (.ok ()), .received (.ok response)] =
          trace ++ [.sent request (.ok ())] ++ [.received (.ok response)] := by
        rw [List.append_assoc]
        rfl
      rw [split]
      exact not_outstanding_of_answered _ response

/-- In a live session the state says which requests were answered, which is what a request has to
wait for. -/
theorem Live.licensed {step : Step} {trace : List Event} (live : Live .ready step trace)
    {request : Request} (belongs : request.step? = some step) : Licensed trace request := by
  refine ⟨live.greeted rfl, fun later => ?_, fun goodbye => ?_⟩
  · rw [belongs] at later
    -- A step that wants an acknowledgement is reached only by one, and that was the last event.
    cases live with
    | connected => exact absurd later (by decide)
    | exchanged before exchange =>
        cases exchange with
        | installHook => exact ⟨_, _, rfl⟩
        | loadTarget => exact ⟨_, _, rfl⟩
        | decryptMethods => exact absurd later (by decide)
  · rw [goodbye] at belongs
    cases belongs

theorem Live.licensed_goodbye {step : Step} {trace : List Event}
    (live : Live .ready step trace) : Licensed trace .shutdown :=
  ⟨live.greeted rfl, fun later => absurd later (by decide), fun _ => live.not_outstanding⟩

theorem Exchanged.belongs {step next : Step} {request : Request} {response : Response}
    (exchange : Exchanged step request response next) : request.step? = some step := by
  cases exchange <;> rfl

private theorem AllLicensed.exchange {trace : List Event} {request : Request}
    {sent : Except Error Unit} {received : Except Error Response} (all : AllLicensed trace)
    (licensed : Licensed trace request) :
    AllLicensed (trace ++ [.sent request sent, .received received]) := by
  have first : AllLicensed (trace ++ [.sent request sent]) := all.snoc fun other result same => by
    cases same
    exact licensed
  have both : AllLicensed (trace ++ [.sent request sent] ++ [.received received]) :=
    first.snoc nofun
  rwa [List.append_assoc] at both

theorem Live.allLicensed {phase : Phase} {step : Step} {trace : List Event}
    (live : Live phase step trace) : AllLicensed trace := by
  have empty : AllLicensed [] := fun before request result after split => by
    simp at split
  induction live with
  | connecting => exact empty
  | connected => exact empty.snoc nofun
  | exchanged before exchange ih => exact ih.exchange (before.licensed exchange.belongs)

theorem Parting.allLicensed {phase : Phase} {step : Step} {trace parting : List Event}
    (parted : Parting phase step parting) (live : Live phase step trace) :
    AllLicensed (trace ++ parting) := by
  cases parted with
  | silent => rw [List.append_nil]; exact live.allLicensed
  | ungreeted => exact live.allLicensed.snoc nofun
  | undelivered belongs =>
      exact live.allLicensed.snoc fun _ _ same => by cases same; exact live.licensed belongs
  | unfit belongs => exact live.allLicensed.exchange (live.licensed belongs)
  | goodbye =>
      exact live.allLicensed.snoc fun _ _ same => by cases same; exact live.licensed_goodbye

theorem Stands.allLicensed {phase : Phase} {attached : Bool} {step : Step} {trace : List Event}
    (stands : Stands phase attached step trace) : AllLicensed trace := by
  cases stands with
  | live live => exact live.allLicensed
  | ended gone live parted => exact (parted.allLicensed live).snoc nofun

/-! ## The order -/

/-- The requests that were made when a step is next. -/
inductive Made : Step → List Request → Prop
  | nothing : Made .installHook []
  | hooked {initializer : Bytes} : Made .loadTarget [.installHook initializer]
  | loaded {initializer : Bytes} {target : TargetSource} :
      Made .decryptMethods [.installHook initializer, .loadTarget target]
  | decrypted {initializer : Bytes} {target : TargetSource} :
      Made .finished [.installHook initializer, .loadTarget target, .decryptMethods]

theorem Made.exchanged {step next : Step} {request : Request} {response : Response}
    {earlier : List Request} (made : Made step earlier)
    (exchange : Exchanged step request response next) : Made next (earlier ++ [request]) := by
  cases exchange with
  | installHook => cases made; exact .hooked
  | loadTarget => cases made; exact .loaded
  | decryptMethods => cases made; exact .decrypted

theorem Live.made {phase : Phase} {step : Step} {trace : List Event}
    (live : Live phase step trace) : Made step (requests trace) := by
  induction live with
  | connecting => exact .nothing
  | connected => exact .nothing
  | exchanged before exchange ih =>
      have made := ih.exchanged exchange
      rwa [requests, List.filterMap_append]

/-- The requests so far are a beginning of the protocol, and a goodbye may come after any of them.
-/
theorem Made.inOrder {step : Step} {earlier goodbye : List Request} (made : Made step earlier)
    (last : goodbye = [] ∨ goodbye = [.shutdown]) : InOrder (earlier ++ goodbye) := by
  cases made with
  | nothing => exact ⟨[], .bytes [], [], goodbye, rfl, by simp, last⟩
  | @hooked initializer => exact ⟨initializer, .bytes [], _, goodbye, rfl, by simp, last⟩
  | @loaded initializer target => exact ⟨initializer, target, _, goodbye, rfl, by simp, last⟩
  | @decrypted initializer target => exact ⟨initializer, target, _, goodbye, rfl, by simp, last⟩

/-- A request of the next step keeps the order, whatever becomes of it. -/
theorem Made.inOrder_snoc {step : Step} {earlier : List Request} (made : Made step earlier)
    {request : Request} (belongs : request.step? = some step) : InOrder (earlier ++ [request]) := by
  cases made with
  | nothing =>
      cases request with
      | installHook initializer => exact Made.hooked.inOrder (.inl rfl)
      | _ => exact absurd belongs nofun
  | @hooked initializer =>
      cases request with
      | loadTarget target => exact Made.loaded.inOrder (.inl rfl)
      | _ => exact absurd belongs nofun
  | @loaded initializer target =>
      cases request with
      | decryptMethods => exact Made.decrypted.inOrder (.inl rfl)
      | _ => exact absurd belongs nofun
  | decrypted => cases request <;> exact absurd belongs nofun

/-- The order holds of live and of abandoned sessions alike. -/
theorem Stands.inOrder {phase : Phase} {attached : Bool} {step : Step} {trace : List Event}
    (stands : Stands phase attached step trace) : InOrder (requests trace) := by
  cases stands with
  | live live => exact List.append_nil (requests trace) ▸ live.made.inOrder (.inl rfl)
  | @ended _ _ _ trace parting gone live parted =>
      have split : requests (trace ++ parting ++ [.shutdown]) =
          requests trace ++ requests parting := by
        rw [requests, List.filterMap_append, List.filterMap_append, List.append_assoc]
        exact congrArg _ (List.append_nil _)
      rw [split]
      cases parted with
      | silent => exact live.made.inOrder (.inl rfl)
      | ungreeted => exact live.made.inOrder (.inl rfl)
      | undelivered belongs => exact live.made.inOrder_snoc belongs
      | unfit belongs => exact live.made.inOrder_snoc belongs
      | goodbye => exact live.made.inOrder (.inr rfl)

/-- Whatever the channel answers and whichever calls are made, the requests of a session keep
their order and none of them is made before it may be. -/
theorem Session.requests_follow_order (host : Channel state) (config : Config) (channel : state)
    (operations : List Operation) :
    let listed := run host.traced operations (start config (channel, []))
    run host operations (start config channel) = listed.untraced ∧
      InOrder (requests listed.trace) ∧
      ∀ before request result after,
        listed.trace = before ++ .sent request result :: after → Licensed before request := by
  have sound : (run host.traced operations (start config (channel, []))).Sound :=
    (sound_start config channel).run operations
  exact ⟨run_untraced host operations (start config (channel, [])), sound.inOrder,
    sound.allLicensed⟩

-- Calls that come too early or too late end a session and make no request.
example :
    requests (Session.run Channel.scripted.traced
      [.waitConnected, .installHook [], .decryptMethods, .loadTarget (.bytes []), .close]
      (.start .default (⟨[.ok (.ready .clr40), .ok .ack], []⟩, []))).trace =
      [.installHook []] := rfl

end CilRecovery.Oracle
