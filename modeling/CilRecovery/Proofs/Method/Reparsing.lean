import CilRecovery.Proofs.Except
import CilRecovery.Proofs.Method.Recoding

/-!
# Reading back what was encoded

The encoder looks at the length of the code and at the presence of sections, not at what they are.
It writes more bodies than reading can return: a tiny header loses every field that it only implies,
and a span of sections is written whatever it holds. All other bodies are read back.
-/

set_option autoImplicit false

namespace CilRecovery.Method

theorem Header.exists_encode_iff {header : Header} :
    (∃ head, header.encode = .ok head) ↔ header.validate = .ok () := by
  constructor
  · intro ⟨head, encoded⟩
    obtain ⟨_, valid, -⟩ := Except.bind_eq_ok.mp encoded
    exact valid
  · intro valid
    rw [encode, valid]
    cases header.isTiny with
    | true => exact ⟨_, rfl⟩
    | false => exact ⟨_, rfl⟩

/-- The encoder looks at the length of the code and the presence of sections in front of the
header. -/
theorem Body.encode_eq (body : Body) :
    body.encode =
      if body.code.length ≠ body.header.codeSize.toNat then .error (.invalidBody .codeLength)
      else if body.header.hasSections ≠ body.sections.isSome then
        .error (.invalidBody .sectionPresence)
      else do
        let head ← body.header.encode
        let start := head ++ body.code
        return start ++ (body.sections.map fun span =>
          Bytes.zeros (paddingTo 4 start.length) ++ span).getD [] := by
  obtain ⟨header, code, sections⟩ := body
  by_cases size : code.length = header.codeSize.toNat
  · by_cases presence : header.hasSections = sections.isSome
    · cases sections with
      | none => simp [encode, size, presence]
      | some span => simp [encode, size, presence]
    · simp [encode, size, presence, bind, Except.bind, throw, throwThe, MonadExceptOf.throw]
  · simp [encode, size, bind, Except.bind, throw, throwThe, MonadExceptOf.throw]

/-- A body can be written exactly if its fields agree with each other and its header is valid. -/
theorem Body.exists_encode_iff {body : Body} :
    (∃ bytes, body.encode = .ok bytes) ↔
      body.code.length = body.header.codeSize.toNat ∧
        body.header.hasSections = body.sections.isSome ∧ body.header.validate = .ok () := by
  rw [Body.encode_eq]
  constructor
  · intro ⟨bytes, encoded⟩
    split at encoded
    · cases encoded
    · rename_i size
      split at encoded
      · cases encoded
      · rename_i presence
        obtain ⟨head, written, -⟩ := Except.bind_eq_ok.mp encoded
        exact ⟨by simpa using size, by simpa using presence,
          Header.exists_encode_iff.mp ⟨head, written⟩⟩
  · intro ⟨size, presence, valid⟩
    obtain ⟨head, written⟩ := Header.exists_encode_iff.mpr valid
    rw [if_neg (Classical.not_not.mpr size), if_neg (Classical.not_not.mpr presence), written]
    exact ⟨_, rfl⟩

/-! ## What can be read back -/

/-- A body with the fields that a tiny header implies, if it has one, and with the bytes of one chain
of sections, if it has any. -/
structure Body.Storable (body : Body) : Prop where
  implied : body.header.isTiny = true → body.header = ⟨2, 8, body.header.codeSize, 0⟩
  chained : ∀ span, body.sections = some span → ∃ shapes, IsChain shapes span

theorem Header.isFat_of_validate {header : Header} (notTiny : header.isTiny = false)
    (valid : header.validate = .ok ()) : header.IsFat := by
  refine Header.isFat_iff.mpr ⟨?_, valid⟩
  rw [validate, notTiny, if_neg Bool.false_ne_true] at valid
  split at valid
  · cases valid
  · rename_i format
    simpa [fatFormat] using format

/-- What is parsed has no fields that its encoding drops. -/
theorem IsRecord.storable {span : Bytes} {body : Body} (record : IsRecord 0 span body) :
    body.Storable := by
  have implied {head : Bytes} {header : Header} (isHeader : IsHeader head header)
      (tiny : header.isTiny = true) : header = ⟨2, 8, header.codeSize, 0⟩ := by
    cases isHeader with
    | tiny => rfl
    | fat isFat =>
        rw [isTiny_eq_false_of_mod (Header.isFat_iff.mp isFat).1] at tiny
        cases tiny
  cases record with
  | plain isHeader => exact ⟨implied isHeader, nofun⟩
  | extended isHeader _ _ _ _ chain =>
      exact ⟨implied isHeader, fun span same => ⟨_, Option.some.inj same ▸ chain⟩⟩

theorem Body.Storable.exists_header {body : Body} (storable : body.Storable)
    (valid : body.header.validate = .ok ()) : ∃ head, IsHeader head body.header := by
  cases tiny : body.header.isTiny with
  | true =>
      rw [Header.validate, tiny, if_pos rfl] at valid
      split at valid
      · rename_i fits
        rw [storable.implied tiny]
        exact ⟨_, isHeader_tiny fits⟩
      · cases valid
  | false => exact ⟨_, .fat (Header.isFat_of_validate tiny valid)⟩

/-- A storable body that can be written is what reading some record gives. -/
theorem Body.Storable.exists_record {body : Body} (storable : body.Storable) {bytes : Bytes}
    (encoded : body.encode = .ok bytes) : ∃ span, IsRecord 0 span body := by
  obtain ⟨size, presence, valid⟩ := Body.exists_encode_iff.mp ⟨bytes, encoded⟩
  obtain ⟨head, isHeader⟩ := storable.exists_header valid
  obtain ⟨header, code, sections⟩ := body
  cases sections with
  | none =>
      have absent : ¬ header.flags &&& 8 ≠ 0 := fun present =>
        Bool.false_ne_true (presence.symm.trans (isHeader.hasSections_iff.mpr present))
      exact ⟨_, .plain isHeader (Classical.not_not.mp absent) size⟩
  | some span =>
      obtain ⟨shapes, chain⟩ := storable.chained span rfl
      exact ⟨_, isHeader.extended_record (isHeader.hasSections_iff.mp presence) size chain⟩

/-- Of the bodies that can be written, the storable ones are those that come back. -/
theorem Body.parse_iff_storable {body : Body} {bytes : Bytes} (encoded : body.encode = .ok bytes) :
    Body.parse bytes = .ok body ↔ body.Storable := by
  constructor
  · intro parsed
    obtain ⟨_, _, _, record⟩ := Body.parse_iff_isRecord.mp parsed
    exact record.storable
  · intro storable
    obtain ⟨_, record⟩ := storable.exists_record encoded
    obtain ⟨bytes', encoded', rewritten, -⟩ := record.encode
    cases encoded.symm.trans encoded'
    exact Body.parse_iff_isRecord.mpr ⟨bytes, [], (List.append_nil _).symm, rewritten⟩

/-! ## Bodies of given parts -/

private def partFlags (zeroedLocals present : Bool) : UInt16 :=
  (if zeroedLocals then Header.zeroedLocals else 0) |||
    (if present then Header.moreSections else 0)

private theorem fat_partFlags (zeroedLocals present : Bool) (maxStack : UInt16)
    (size localSignature : UInt32) :
    (Header.fat (partFlags zeroedLocals present) maxStack size localSignature).isTiny = false ∧
      (Header.fat (partFlags zeroedLocals present) maxStack size localSignature).hasSections =
        present := by
  have fatForm : ∀ zeroedLocals present,
      ((0x3000 ||| partFlags zeroedLocals present ||| Header.fatFormat) % 4 ==
        Header.tinyFormat) = false := by decide
  have announced : ∀ zeroedLocals present,
      ((0x3000 ||| partFlags zeroedLocals present ||| Header.fatFormat) &&&
        Header.moreSections != 0) = present := by decide
  have notTiny := fatForm zeroedLocals present
  refine ⟨notTiny, ?_⟩
  rw [Header.hasSections, Header.isTiny, Header.fat, notTiny]
  exact announced zeroedLocals present

/-- A body of given parts meets every condition of the encoder, and only its sections decide whether
it can be stored. -/
theorem Body.ofParts_eq_ok {maxStack : UInt16} {localSignature : UInt32} {zeroedLocals : Bool}
    {code : Bytes} {sections : Option Bytes} {body : Body}
    (built : Body.ofParts maxStack localSignature zeroedLocals code sections = .ok body) :
    (∃ bytes, body.encode = .ok bytes) ∧ body.sections = sections ∧
      (body.header.isTiny = true → body.header = ⟨2, 8, body.header.codeSize, 0⟩) := by
  unfold ofParts at built
  by_cases large : UInt32.size ≤ code.length
  · rw [if_pos large] at built
    cases built
  rw [if_neg large] at built
  have size : (UInt32.ofNat code.length).toNat = code.length :=
    UInt32.toNat_ofNat_of_lt' (Nat.lt_of_not_le large)
  dsimp only at built
  split at built
  · rename_i tiny
    obtain ⟨header, made, built⟩ := Except.bind_eq_ok.mp built
    obtain ⟨_, valid, built⟩ := Except.bind_eq_ok.mp built
    cases built
    unfold Header.tiny at made
    split at made
    · cases made
      have none : sections = none := by simpa using (Bool.and_eq_true_iff.mp tiny).2
      subst none
      exact ⟨Body.exists_encode_iff.mpr ⟨size.symm, rfl, valid⟩, rfl, fun _ => rfl⟩
    · cases made
  · obtain ⟨_, made, built⟩ := Except.bind_eq_ok.mp built
    obtain ⟨_, valid, built⟩ := Except.bind_eq_ok.mp built
    cases made
    cases built
    obtain ⟨notTiny, present⟩ := fat_partFlags zeroedLocals sections.isSome maxStack
      (UInt32.ofNat code.length) localSignature
    exact ⟨Body.exists_encode_iff.mpr ⟨size.symm, present, valid⟩, rfl,
      fun tiny => by cases notTiny.symm.trans tiny⟩

/-- What the encoder wrote is read back as the body it was written for if and only if the body can be
stored. The encoder takes every body that is made of parts, and of these exactly the ones come back
whose sections are one chain. -/
theorem Body.parse_encode_eq_ok_iff (body : Body) :
    (∀ bytes, body.encode = .ok bytes → (Body.parse bytes = .ok body ↔ body.Storable)) ∧
      ∀ (maxStack : UInt16) (localSignature : UInt32) (zeroedLocals : Bool) (code : Bytes)
        (sections : Option Bytes),
        Body.ofParts maxStack localSignature zeroedLocals code sections = .ok body →
          ∃ bytes, body.encode = .ok bytes ∧
            (Body.parse bytes = .ok body ↔
              ∀ span, sections = some span → ∃ shapes, IsChain shapes span) := by
  refine ⟨fun bytes encoded => Body.parse_iff_storable encoded, ?_⟩
  intro maxStack localSignature zeroedLocals code sections built
  obtain ⟨⟨bytes, encoded⟩, rfl, implied⟩ := Body.ofParts_eq_ok built
  refine ⟨bytes, encoded, (Body.parse_iff_storable encoded).trans ?_⟩
  exact ⟨Body.Storable.chained, fun chained => ⟨implied, chained⟩⟩

/-- A tiny header whose stack depth is not the implied one, and parts with one section that has no
clauses. -/
theorem Body.parse_encode_eq_ok_iff_parts :
    Body.encode ⟨⟨2, 3, 1, 0⟩, [0x2A], none⟩ = .ok [0x06, 0x2A] ∧
      Body.parse [0x06, 0x2A] ≠ .ok ⟨⟨2, 3, 1, 0⟩, [0x2A], none⟩ ∧
      Body.ofParts 8 0 false [0x2A] (some [0x01, 4, 0, 0]) =
        .ok ⟨⟨0x300B, 8, 1, 0⟩, [0x2A], some [0x01, 4, 0, 0]⟩ ∧
      ∃ bytes, Body.encode ⟨⟨0x300B, 8, 1, 0⟩, [0x2A], some [0x01, 4, 0, 0]⟩ = .ok bytes ∧
        Body.parse bytes = .ok ⟨⟨0x300B, 8, 1, 0⟩, [0x2A], some [0x01, 4, 0, 0]⟩ := by
  have encoded : Body.encode ⟨⟨2, 3, 1, 0⟩, [0x2A], none⟩ = .ok [0x06, 0x2A] := rfl
  have lost : ¬ Body.Storable ⟨⟨2, 3, 1, 0⟩, [0x2A], none⟩ := fun storable =>
    absurd (storable.implied rfl) (by decide)
  have built : Body.ofParts 8 0 false [0x2A] (some [0x01, 4, 0, 0]) =
      .ok ⟨⟨0x300B, 8, 1, 0⟩, [0x2A], some [0x01, 4, 0, 0]⟩ := rfl
  have chain : IsChain [⟨false, 0⟩] [0x01, 4, 0, 0] :=
    .last (@IsSection.small 0x01 4 [0, 0] ⟨by decide, by decide⟩ (by decide) (by decide))
  obtain ⟨bytes, written, same⟩ := (Body.parse_encode_eq_ok_iff _).2 _ _ _ _ _ built
  refine ⟨encoded, fun parsed => lost (((Body.parse_encode_eq_ok_iff _).1 _ encoded).mp parsed),
    built, bytes, written, ?_⟩
  exact same.mpr fun span present => ⟨_, Option.some.inj present ▸ chain⟩

/-- An empty span of sections is written as if it were a chain, and a stack depth of three is lost
under a tiny header. -/
theorem Body.encode_not_parsed_back :
    Body.ofParts 8 0 false [0x2A] (some []) = .ok ⟨⟨0x300B, 8, 1, 0⟩, [0x2A], some []⟩ ∧
      Body.encode ⟨⟨0x300B, 8, 1, 0⟩, [0x2A], some []⟩ =
        .ok [0x0B, 0x30, 8, 0, 1, 0, 0, 0, 0, 0, 0, 0, 0x2A, 0, 0, 0] ∧
      Body.parse [0x0B, 0x30, 8, 0, 1, 0, 0, 0, 0, 0, 0, 0, 0x2A, 0, 0, 0] =
        .error .outOfBounds ∧
      Body.encode ⟨⟨2, 3, 1, 0⟩, [0x2A], none⟩ = .ok [0x06, 0x2A] ∧
      Body.parse [0x06, 0x2A] = .ok ⟨⟨2, 8, 1, 0⟩, [0x2A], none⟩ :=
  ⟨rfl, rfl, rfl, rfl, rfl⟩

end CilRecovery.Method
