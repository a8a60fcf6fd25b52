import CilRecovery.MethodTable
import CilRecovery.Proofs.Method.Reparsing

/-!
# Code that no header describes

A header describes less code than a word can count. Replacing the code of a method looks at the
word only, so there is code that is taken and that the encoder refuses afterwards.
-/

set_option autoImplicit false

namespace CilRecovery

namespace Method

/-! ## Headers for long code -/

/-- No fat header says so large a size, whatever its other fields are. -/
theorem Header.validate_oversized {header : Header} (notTiny : header.isTiny = false)
    (valid : header.validate = .ok ()) {size : UInt32} (long : Header.fatMaxCode < size.toNat) :
    Header.validate { header with codeSize := size } = .error (.invalidBody .codeSize) := by
  have notTiny' : Header.isTiny { header with codeSize := size } = false := notTiny
  rw [validate, notTiny, if_neg Bool.false_ne_true] at valid
  rw [validate, notTiny', if_neg Bool.false_ne_true]
  -- The tests in front of that of the code size do not look at it.
  split at valid
  · cases valid
  · rename_i format
    split at valid
    · cases valid
    · rename_i dwords
      rw [if_neg format, if_neg dwords, if_pos long]

theorem IsHeader.validate_resized {head : Bytes} {header : Header}
    (isHeader : IsHeader head header) {size : UInt32} (long : Header.fatMaxCode < size.toNat) :
    (header.resized size).hasSections = header.hasSections ∧
      (header.resized size).validate = .error (.invalidBody .codeSize) := by
  cases isHeader with
  | @tiny first format =>
      have tooLong : Header.tinyMaxCode < size.toNat := Nat.lt_trans (by decide) long
      rw [Header.resized_of_wide rfl tooLong]
      have narrow : Header.hasSections ⟨2, 8, (first >>> 2).toUInt32, 0⟩ = false := rfl
      have wide : (Header.fat 0 Header.tinyMaxStack 0 0).hasSections = false := by decide
      have notTiny : (Header.fat 0 Header.tinyMaxStack 0 0).isTiny = false := by decide
      exact ⟨wide.trans narrow.symm, Header.validate_oversized notTiny rfl long⟩
  | fat isFat =>
      obtain ⟨format, valid⟩ := Header.isFat_iff.mp isFat
      have notTiny := isTiny_eq_false_of_mod format
      rw [Header.resized_of_not_tiny notTiny]
      exact ⟨rfl, Header.validate_oversized notTiny valid long⟩

theorem IsRecord.exists_header {span : Bytes} {body : Body} (record : IsRecord 0 span body) :
    ∃ head, IsHeader head body.header := by
  cases record with
  | plain isHeader => exact ⟨_, isHeader⟩
  | extended isHeader => exact ⟨_, isHeader⟩

/-- Under code that is counted by a word and too long for a header, a body that was parsed cannot
be written. -/
theorem Body.encode_recoded_oversized {data : Bytes} {body : Body}
    (parsed : Body.parse data = .ok body) {code : Bytes}
    (long : Header.fatMaxCode < code.length) (counted : code.length < UInt32.size) :
    (body.recoded code).encode = .error (.invalidBody .codeSize) := by
  obtain ⟨span, _, _, record⟩ := Body.parse_iff_isRecord.mp parsed
  obtain ⟨bytes, encoded, _⟩ := record.encode
  obtain ⟨_, presence, _⟩ := Body.exists_encode_iff.mp ⟨bytes, encoded⟩
  obtain ⟨head, isHeader⟩ := record.exists_header
  have size : (UInt32.ofNat code.length).toNat = code.length := UInt32.toNat_ofNat_of_lt' counted
  obtain ⟨announced, oversized⟩ := isHeader.validate_resized (size.symm ▸ long)
  have counts : (body.recoded code).code.length = (body.recoded code).header.codeSize.toNat := by
    rw [Body.recoded, Header.resized_codeSize, size]
  have sections : (body.recoded code).header.hasSections = (body.recoded code).sections.isSome :=
    announced.trans presence
  have refused : (body.recoded code).header.encode = .error (.invalidBody .codeSize) := by
    rw [Header.encode, Body.recoded, oversized]
    rfl
  rw [Body.encode_eq, if_neg (Classical.not_not.mpr counts),
    if_neg (Classical.not_not.mpr sections), refused]
  rfl

end Method

/-! ## Replacing code -/

namespace RecoveredMethod

open Method (Body)

variable {token : Token} {address : UInt32} {prior : Body} {code : Bytes}

theorem withCode_of_counted (counted : code.length < UInt32.size) :
    withCode token address prior code = .ok ⟨token, address, prior.recoded code⟩ := by
  rw [withCode, if_neg (Nat.not_le.mpr counted), Body.recoded, Method.Header.resized,
    UInt32.toNat_ofNat_of_lt' counted]

/-- Code is replaced in a body that was parsed. If a header can describe the code, the method is
written and read back as it is. If only a word can count it, the method is made all the same, and
the encoder refuses it. Longer code is refused at once. -/
theorem withCode_outcome {data : Bytes} {prior : Body} (parsed : Body.parse data = .ok prior)
    (token : Token) (address : UInt32) (code : Bytes) :
    (code.length ≤ Method.Header.fatMaxCode →
      ∃ method, withCode token address prior code = .ok method ∧
        method.token = token ∧ method.address = address ∧ method.body.code = code ∧
        ∃ bytes, method.body.encode = .ok bytes ∧ Body.parse bytes = .ok method.body) ∧
    (Method.Header.fatMaxCode < code.length → code.length < UInt32.size →
      ∃ method, withCode token address prior code = .ok method ∧
        method.body.encode = .error (.invalidBody .codeSize)) ∧
    (UInt32.size ≤ code.length →
      withCode token address prior code = .error (.invalidBody .codeTooLarge)) := by
  refine ⟨fun short => ?_, fun long counted => ?_, fun large => if_pos large⟩
  · have counted : code.length < UInt32.size := Nat.lt_of_le_of_lt short (by decide)
    have writable := Body.recoded_writable parsed short
    exact ⟨_, withCode_of_counted counted, rfl, rfl, rfl, writable.written⟩
  · exact ⟨_, withCode_of_counted counted, Body.encode_recoded_oversized parsed long counted⟩

/-- Code for a widened header, code that is one byte too long for any, and code that no word
counts. -/
theorem withCode_outcome_limits :
    Body.parse [0x06, 0x2A] = .ok ⟨⟨2, 8, 1, 0⟩, [0x2A], none⟩ ∧
    (∃ method, withCode ⟨0x06000001⟩ 0x10 ⟨⟨2, 8, 1, 0⟩, [0x2A], none⟩ (Bytes.zeros 64) =
        .ok method ∧
      ∃ bytes, method.body.encode = .ok bytes ∧ Body.parse bytes = .ok method.body) ∧
    (∃ method, withCode ⟨0x06000001⟩ 0x10 ⟨⟨2, 8, 1, 0⟩, [0x2A], none⟩ (Bytes.zeros 0x80000000) =
        .ok method ∧
      method.body.encode = .error (.invalidBody .codeSize)) ∧
    withCode ⟨0x06000001⟩ 0x10 ⟨⟨2, 8, 1, 0⟩, [0x2A], none⟩ (Bytes.zeros 0x100000000) =
      .error (.invalidBody .codeTooLarge) := by
  have parsed : Body.parse [0x06, 0x2A] = .ok ⟨⟨2, 8, 1, 0⟩, [0x2A], none⟩ := rfl
  have outcome (count : Nat) :=
    withCode_outcome parsed ⟨0x06000001⟩ 0x10 (Bytes.zeros count)
  simp only [Bytes.length_zeros] at outcome
  obtain ⟨method, made, _, _, _, written⟩ := (outcome 64).1 (by decide)
  exact ⟨parsed, ⟨method, made, written⟩, (outcome 0x80000000).2.1 (by decide) (by decide),
    (outcome 0x100000000).2.2 (by decide)⟩

/-- No header describes so much code, and the method is made without an error. -/
theorem withCode_of_undescribed :
    Body.parse [0x06, 0x2A] = .ok ⟨⟨2, 8, 1, 0⟩, [0x2A], none⟩ ∧
      (Bytes.zeros 0x80000000).length = Method.Header.fatMaxCode + 1 ∧
      ∃ method, withCode ⟨0x06000001⟩ 0x10 ⟨⟨2, 8, 1, 0⟩, [0x2A], none⟩
          (Bytes.zeros 0x80000000) = .ok method ∧
        method.body.encode = .error (.invalidBody .codeSize) := by
  have parsed : Body.parse [0x06, 0x2A] = .ok ⟨⟨2, 8, 1, 0⟩, [0x2A], none⟩ := rfl
  have length : (Bytes.zeros 0x80000000).length = 0x80000000 := Bytes.length_zeros _
  have long : Method.Header.fatMaxCode < (Bytes.zeros 0x80000000).length := by
    rw [length]
    decide
  have counted : (Bytes.zeros 0x80000000).length < UInt32.size := by
    rw [length]
    decide
  exact ⟨parsed, length, _, withCode_of_counted counted,
    Body.encode_recoded_oversized parsed long counted⟩

end RecoveredMethod

end CilRecovery
