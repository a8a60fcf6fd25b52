import CilRecovery.MethodTable
import CilRecovery.Proofs.Method.RoundTrip

/-!
# Records with other code

A body that was parsed can be written as it stands. It can still be written when its code is
replaced by code of another length, with the header that the length asks for.
-/

set_option autoImplicit false

namespace CilRecovery.Method

/-- A body that agrees with itself and is parsed back from what it is written as. -/
structure Body.Writable (body : Body) : Prop where
  size : body.header.codeSize.toNat = body.code.length
  written : ∃ bytes, body.encode = .ok bytes ∧ Body.parse bytes = .ok body

/-- What was read agrees with itself and is parsed back from what it is written as. -/
theorem IsRecord.writable {span : Bytes} {body : Body} (record : IsRecord 0 span body) :
    body.Writable := by
  refine ⟨?_, ?_⟩
  · cases record with
    | plain _ _ length => exact length.symm
    | extended _ _ length => exact length.symm
  · obtain ⟨bytes, encoded, rewritten, _⟩ := record.encode
    exact ⟨bytes, encoded,
      Body.parse_iff_isRecord.mpr ⟨bytes, [], (List.append_nil _).symm, rewritten⟩⟩

theorem Body.writable_of_parse {data : Bytes} {body : Body} (parsed : Body.parse data = .ok body) :
    body.Writable := by
  obtain ⟨_, _, _, record⟩ := Body.parse_iff_isRecord.mp parsed
  exact record.writable

/-! ## Headers for other code -/

/-- The header for code of another size. A tiny header is widened if it cannot hold the code. -/
def Header.resized (header : Header) (size : UInt32) : Header :=
  if header.isTiny && Header.tinyMaxCode < size.toNat then
    Header.fat 0 Header.tinyMaxStack size 0
  else { header with codeSize := size }

theorem Header.resized_codeSize (header : Header) (size : UInt32) :
    (header.resized size).codeSize = size := by
  unfold Header.resized
  split <;> rfl

theorem Header.resized_of_wide {header : Header} (tiny : header.isTiny = true) {size : UInt32}
    (wide : Header.tinyMaxCode < size.toNat) :
    header.resized size = Header.fat 0 Header.tinyMaxStack size 0 :=
  if_pos (Bool.and_eq_true_iff.mpr ⟨tiny, decide_eq_true wide⟩)

theorem Header.resized_of_not_tiny {header : Header} (notTiny : header.isTiny = false)
    (size : UInt32) : header.resized size = { header with codeSize := size } :=
  if_neg fun widened =>
    Bool.false_ne_true (notTiny.symm.trans (Bool.and_eq_true_iff.mp widened).1)

theorem isHeader_tiny {size : UInt32} (fits : size.toNat ≤ Header.tinyMaxCode) :
    IsHeader [UInt8.ofNat (4 * size.toNat + 2)] ⟨2, 8, size, 0⟩ := by
  have limit : Header.tinyMaxCode = 63 := rfl
  have value : (UInt8.ofNat (4 * size.toNat + 2)).toNat = 4 * size.toNat + 2 :=
    toNat_byte (by omega)
  have format : UInt8.ofNat (4 * size.toNat + 2) &&& 3 = 2 := by
    apply UInt8.toNat_inj.mp
    rw [UInt8.toNat_and, value]
    have low : (4 * size.toNat + 2) % 4 = 2 := by omega
    exact (Nat.and_two_pow_sub_one_eq_mod _ 2).trans low
  have stored : (UInt8.ofNat (4 * size.toNat + 2) >>> 2).toUInt32 = size := by
    apply UInt32.toNat_inj.mp
    rw [UInt8.toNat_toUInt32, UInt8.toNat_shiftRight, value]
    have high : (4 * size.toNat + 2) / 4 = size.toNat := by omega
    exact (Nat.shiftRight_eq_div_pow _ 2).trans high
  have header := IsHeader.tiny format
  rwa [stored] at header

/-- The widened form of a tiny header is one of a fat header without sections. -/
theorem Header.widened {size : UInt32} (short : size.toNat ≤ Header.fatMaxCode) :
    (Header.fat 0 Header.tinyMaxStack size 0).IsFat ∧
      (Header.fat 0 Header.tinyMaxStack size 0).flags &&& 8 = 0 := by
  have flags : (Header.fat 0 Header.tinyMaxStack size 0).flags = 0x3003 := rfl
  refine ⟨⟨?_, ?_, short, .inl rfl⟩, ?_⟩
  · rw [flags]
    decide
  · rw [flags]
    decide
  · rw [flags]
    decide

/-- Whatever header the code had before, the one for its new size can be written, and it announces
sections if and only if the old one did. -/
theorem IsHeader.resized {head : Bytes} {header : Header} (isHeader : IsHeader head header)
    {size : UInt32} (short : size.toNat ≤ Header.fatMaxCode) :
    (∃ head', IsHeader head' (header.resized size)) ∧
      (header.resized size).flags &&& 8 = header.flags &&& 8 := by
  cases isHeader with
  | @tiny first format =>
      by_cases wide : Header.tinyMaxCode < size.toNat
      · obtain ⟨isFat, absent⟩ := Header.widened short
        have absent' : (2 : UInt16) &&& 8 = 0 := rfl
        rw [Header.resized_of_wide rfl wide]
        exact ⟨⟨_, .fat isFat⟩, absent.trans absent'.symm⟩
      · have kept : Header.resized ⟨2, 8, (first >>> 2).toUInt32, 0⟩ size = ⟨2, 8, size, 0⟩ :=
          if_neg fun widened =>
            wide (of_decide_eq_true (Bool.and_eq_true_iff.mp widened).2)
        rw [kept]
        exact ⟨⟨_, isHeader_tiny (Nat.le_of_not_lt wide)⟩, rfl⟩
  | fat isFat =>
      have notTiny := isTiny_eq_false_of_mod (Header.isFat_iff.mp isFat).1
      rw [Header.resized_of_not_tiny notTiny]
      exact ⟨⟨_, .fat ⟨isFat.format, isFat.dwords, short, isFat.locals⟩⟩, rfl⟩

/-! ## Records for other code -/

def Body.recoded (body : Body) (code : Bytes) : Body :=
  ⟨body.header.resized (UInt32.ofNat code.length), code, body.sections⟩

/-- A chain of sections can follow any code, from the next multiple of four on. -/
theorem IsHeader.extended_record {head code span : Bytes} {header : Header}
    {shapes : List SectionShape} (isHeader : IsHeader head header)
    (present : header.flags &&& 8 ≠ 0) (length : code.length = header.codeSize.toNat)
    (chain : IsChain shapes span) :
    IsRecord 0 (head ++ code ++ Bytes.zeros (paddingTo 4 (head.length + code.length)) ++ span)
      ⟨header, code, some span⟩ := by
  refine .extended isHeader present length ?_ ?_ chain
  · rw [Bytes.length_zeros]
    exact Nat.mod_lt _ (by decide)
  · rw [Bytes.length_zeros, paddingTo]
    omega

/-- The chain of sections moves with the end of the code, to the next multiple of four. -/
theorem IsRecord.recoded {span : Bytes} {body : Body} (record : IsRecord 0 span body)
    {code : Bytes} (short : code.length ≤ Header.fatMaxCode) :
    ∃ span', IsRecord 0 span' (body.recoded code) := by
  have limit : Header.fatMaxCode = 0x7FFFFFFF := rfl
  have size : (UInt32.ofNat code.length).toNat = code.length :=
    UInt32.toNat_ofNat_of_lt' (by rw [UInt32.size]; omega)
  have length (header : Header) :
      code.length = (header.resized (UInt32.ofNat code.length)).codeSize.toNat := by
    rw [Header.resized_codeSize, size]
  cases record with
  | plain isHeader absent _ =>
      obtain ⟨⟨head, formed⟩, flags⟩ := isHeader.resized (Nat.le_trans (Nat.le_of_eq size) short)
      exact ⟨_, .plain formed (flags.trans absent) (length _)⟩
  | @extended _ _ _ sections header _ isHeader present _ _ _ chain =>
      obtain ⟨⟨head, formed⟩, flags⟩ := isHeader.resized (Nat.le_trans (Nat.le_of_eq size) short)
      exact ⟨_, formed.extended_record (flags.symm ▸ present) (length header) chain⟩

/-- A body that was parsed stays writable under code that any header can describe. -/
theorem Body.recoded_writable {data : Bytes} {body : Body} (parsed : Body.parse data = .ok body)
    {code : Bytes} (short : code.length ≤ Header.fatMaxCode) : (body.recoded code).Writable := by
  obtain ⟨_, _, _, record⟩ := Body.parse_iff_isRecord.mp parsed
  obtain ⟨_, rewritten⟩ := record.recoded short
  exact rewritten.writable

end CilRecovery.Method
