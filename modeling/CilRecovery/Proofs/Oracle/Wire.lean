import CilRecovery.Oracle.Wire
import CilRecovery.Proofs.Json.Documents

/-!
# Messages survive the wire

Every message is read back from the document that it is written as, and so from the text of that
document.
-/

set_option autoImplicit false

namespace CilRecovery

/-! ## Documents of values -/

namespace Json

theorem isExact_ofText (text : String) : IsExact (ofText text) := .text text

theorem isExact_ofNat {number : Nat} (small : number < UInt64.size) : IsExact (ofNat number) :=
  .integer ⟨by omega, Int.ofNat_lt.mpr small⟩

theorem isExact_ofWord (word : UInt32) : IsExact (ofNat word.toNat) :=
  isExact_ofNat (Nat.lt_trans word.toNat_lt (by decide))

theorem isExact_ofBytes (bytes : Bytes) : IsExact (ofBytes bytes) := by
  refine .array fun item member => ?_
  obtain ⟨byte, _, rfl⟩ := List.mem_map.mp member
  exact isExact_ofNat (Nat.lt_trans byte.toNat_lt (by decide))

theorem isExact_ofMembers {members : List (String × Json)}
    (hold : ∀ member ∈ members, IsExact member.2) : IsExact (ofMembers members) := by
  refine .object (fun member inside => ?_) fun member inside => ?_
  · obtain ⟨entry, _, rfl⟩ := List.mem_map.mp inside
    exact ⟨entry.1, rfl⟩
  · obtain ⟨entry, listed, rfl⟩ := List.mem_map.mp inside
    exact hold entry listed

end Json

namespace Oracle.Wire

open Json

/-! ## Values -/

theorem readList_map {α : Type} {read : Json → Except Fault α} {write : α → Json} {values : List α}
    (readBack : ∀ value ∈ values, read (write value) = .ok value) :
    readList read (.array (values.map write)) = .ok values := by
  refine Except.mapM_eq_ok.mpr (List.forall₂_map_left_iff.mpr ?_)
  exact List.forall₂_same.mpr readBack

theorem readBelow_ofNat {bound number : Nat} (small : number < bound) :
    readBelow bound (ofNat number) = .ok number := by
  have inside : 0 ≤ (number : Int) ∧ (number : Int) < bound := ⟨by omega, by omega⟩
  exact if_pos inside

theorem readWord_ofNat (word : UInt32) : readWord (ofNat word.toNat) = .ok word := by
  rw [readWord, readBelow_ofNat word.toNat_lt]
  exact congrArg Except.ok (UInt32.ofNat_toNat)

theorem readBytes_ofBytes (bytes : Bytes) : readBytes (ofBytes bytes) = .ok bytes := by
  refine readList_map fun byte _ => ?_
  rw [readByte, readBelow_ofNat byte.toNat_lt]
  exact congrArg Except.ok (UInt8.ofNat_toNat)

theorem readMembers_ofMembers (members : List (String × Json)) :
    readMembers (ofMembers members) = .ok members := by
  refine Except.mapM_eq_ok.mpr (List.forall₂_map_left_iff.mpr ?_)
  exact List.forall₂_same.mpr fun _ _ => rfl

/-! ## Envelopes -/

theorem readEnvelope_bare {nameKey contentKey : String} (different : nameKey ≠ contentKey)
    (name : String) :
    readEnvelope nameKey contentKey (bare nameKey name) = .ok ⟨name, none, false⟩ := by
  change (readMembers (ofMembers [(nameKey, ofText name)]) >>= _) = _
  rw [readMembers_ofMembers]
  simp [requiredMember, optionalMember, bind, Except.bind, pure, Except.pure, readChoice, ofText,
    different]

theorem readEnvelope_full {nameKey contentKey : String} (different : nameKey ≠ contentKey)
    (name : String) (content : Json) :
    readEnvelope nameKey contentKey (full nameKey name contentKey content) =
      .ok ⟨name, some content, false⟩ := by
  change (readMembers (ofMembers [(nameKey, ofText name), (contentKey, content)]) >>= _) = _
  rw [readMembers_ofMembers]
  simp [requiredMember, optionalMember, bind, Except.bind, pure, Except.pure, readChoice, ofText,
    different, different.symm]

/-! ## Messages -/

theorem readTarget_writeTarget (target : TargetSource) :
    readTarget (writeTarget target) = .ok target := by
  cases target with
  | path path => rfl
  | bytes image =>
      change (readBytes (ofBytes image) >>= _) = _
      rw [readBytes_ofBytes]
      rfl

theorem readMethod_writeMethod (method : CapturedMethod) :
    readMethod (writeMethod method) = .ok method := by
  unfold readMethod
  split
  · rename_i token rva body same
    cases same
  · exact Except.bind_eq_ok.mpr ⟨_, readMembers_ofMembers _,
      Except.bind_eq_ok.mpr ⟨_, rfl, Except.bind_eq_ok.mpr ⟨_, readWord_ofNat _,
      Except.bind_eq_ok.mpr ⟨_, rfl, Except.bind_eq_ok.mpr ⟨_, readWord_ofNat _,
      Except.bind_eq_ok.mpr ⟨_, rfl, Except.bind_eq_ok.mpr ⟨_, readBytes_ofBytes _, rfl⟩⟩⟩⟩⟩⟩⟩

/-- Every request is read back, names and texts of any characters included. -/
theorem readRequest_writeRequest (request : Request) :
    readRequest (writeRequest request) = .ok request := by
  cases request with
  | installHook initializer =>
      refine Except.bind_eq_ok.mpr ⟨_, readEnvelope_full (by decide) _ _, ?_⟩
      exact Except.bind_eq_ok.mpr ⟨_, rfl, Except.bind_eq_ok.mpr ⟨_, readMembers_ofMembers _,
        Except.bind_eq_ok.mpr ⟨_, rfl, Except.bind_eq_ok.mpr ⟨_, readBytes_ofBytes _, rfl⟩⟩⟩⟩
  | loadTarget target =>
      refine Except.bind_eq_ok.mpr ⟨_, readEnvelope_full (by decide) _ _, ?_⟩
      exact Except.bind_eq_ok.mpr ⟨_, rfl,
        Except.bind_eq_ok.mpr ⟨_, readTarget_writeTarget target, rfl⟩⟩
  | decryptMethods => exact Except.bind_eq_ok.mpr ⟨_, readEnvelope_bare (by decide) _, rfl⟩
  | shutdown => exact Except.bind_eq_ok.mpr ⟨_, readEnvelope_bare (by decide) _, rfl⟩

theorem readResponse_writeResponse (response : Response) :
    readResponse (writeResponse response) = .ok response := by
  cases response with
  | ready runtime =>
      refine Except.bind_eq_ok.mpr ⟨_, readEnvelope_full (by decide) _ _, ?_⟩
      refine Except.bind_eq_ok.mpr ⟨_, rfl, Except.bind_eq_ok.mpr ⟨_, readMembers_ofMembers _,
        Except.bind_eq_ok.mpr ⟨_, rfl, ?_⟩⟩⟩
      cases runtime <;> rfl
  | ack => exact Except.bind_eq_ok.mpr ⟨_, readEnvelope_bare (by decide) _, rfl⟩
  | decryptedMethods methods =>
      refine Except.bind_eq_ok.mpr ⟨_, readEnvelope_full (by decide) _ _, ?_⟩
      exact Except.bind_eq_ok.mpr ⟨_, rfl, Except.bind_eq_ok.mpr
        ⟨_, readList_map fun method _ => readMethod_writeMethod method, rfl⟩⟩
  | failed message =>
      refine Except.bind_eq_ok.mpr ⟨_, readEnvelope_full (by decide) _ _, ?_⟩
      exact Except.bind_eq_ok.mpr ⟨_, rfl, Except.bind_eq_ok.mpr ⟨_, readMembers_ofMembers _,
        Except.bind_eq_ok.mpr ⟨_, rfl, rfl⟩⟩⟩

/-! ## Texts of messages -/

private theorem isExact_full {nameKey name contentKey : String} {content : Json}
    (isExact : IsExact content) : IsExact (full nameKey name contentKey content) := by
  refine isExact_ofMembers fun member inside => ?_
  simp only [List.mem_cons, List.not_mem_nil, or_false] at inside
  rcases inside with rfl | rfl
  · exact isExact_ofText name
  · exact isExact

private theorem isExact_ofMember {key : String} {item : Json} (isExact : IsExact item) :
    IsExact (ofMembers [(key, item)]) := by
  refine isExact_ofMembers fun member inside => ?_
  rw [List.mem_singleton.mp inside]
  exact isExact

theorem isExact_writeRequest (request : Request) : IsExact (writeRequest request) := by
  cases request with
  | installHook initializer => exact isExact_full (isExact_ofMember (isExact_ofBytes initializer))
  | loadTarget target =>
      cases target with
      | path path => exact isExact_full (isExact_ofMember (isExact_ofText path))
      | bytes image => exact isExact_full (isExact_ofMember (isExact_ofBytes image))
  | decryptMethods => exact isExact_ofMember (isExact_ofText _)
  | shutdown => exact isExact_ofMember (isExact_ofText _)

private theorem isExact_writeMethod (method : CapturedMethod) : IsExact (writeMethod method) := by
  refine isExact_ofMembers fun member inside => ?_
  simp only [List.mem_cons, List.not_mem_nil, or_false] at inside
  rcases inside with rfl | rfl | rfl
  · exact isExact_ofWord method.token
  · exact isExact_ofWord method.rva
  · exact isExact_ofBytes method.body

theorem isExact_writeResponse (response : Response) : IsExact (writeResponse response) := by
  cases response with
  | ready runtime => exact isExact_full (isExact_ofMember (isExact_ofText runtime.name))
  | ack => exact isExact_ofMember (isExact_ofText _)
  | decryptedMethods methods =>
      refine isExact_full (.array fun item member => ?_)
      obtain ⟨method, _, rfl⟩ := List.mem_map.mp member
      exact isExact_writeMethod method
  | failed message => exact isExact_full (isExact_ofMember (isExact_ofText message))

/-- Every request is read back from its text. -/
theorem parseRequest_renderRequest (request : Request) :
    parseRequest (renderRequest request) = .ok request := by
  rw [parseRequest, Wire.parse, renderRequest, parse_render (isExact_writeRequest request)]
  change (readRequest (writeRequest request)).mapError _ = _
  rw [readRequest_writeRequest]
  rfl

/-- Every response is read back from its text. -/
theorem parseResponse_renderResponse (response : Response) :
    parseResponse (renderResponse response) = .ok response := by
  rw [parseResponse, Wire.parse, renderResponse, parse_render (isExact_writeResponse response)]
  change (readResponse (writeResponse response)).mapError _ = _
  rw [readResponse_writeResponse]
  rfl

end Oracle.Wire

end CilRecovery
