import CilRecovery.Proofs.Method.Grammar

/-!
# Encoding what was parsed

The encoder writes the record that a parsed body came from, with zeros in the alignment gap, and
three ways to find its length agree: the reader's span, the arithmetic size and the written bytes.
-/

set_option autoImplicit false

namespace CilRecovery.Method

/-! ## Headers -/

theorem IsHeader.length_eq {head : Bytes} {header : Header} (isHeader : IsHeader head header) :
    head.length = header.size := by
  cases isHeader with
  | tiny _ => rfl
  | fat isFat =>
      have notTiny := isTiny_eq_false_of_mod (Header.isFat_iff.mp isFat).1
      rw [Header.length_fatBytes, Header.size, notTiny]
      rfl

/-- A header has one form only, so writing gives the bytes that were read. -/
theorem IsHeader.encode_eq {head : Bytes} {header : Header} (isHeader : IsHeader head header) :
    header.encode = .ok head := by
  cases isHeader with
  | @tiny first format =>
      have small := first.toNat_lt
      have size : (first >>> 2).toUInt32.toNat = first.toNat / 4 := by
        rw [UInt8.toNat_toUInt32, UInt8.toNat_shiftRight]
        exact Nat.shiftRight_eq_div_pow first.toNat 2
      have low : first.toNat % 4 = 2 := by
        have value := congrArg UInt8.toNat format
        rw [UInt8.toNat_and] at value
        exact (Nat.and_two_pow_sub_one_eq_mod first.toNat 2).symm.trans value
      have valid : Header.validate ⟨2, 8, (first >>> 2).toUInt32, 0⟩ = .ok () := by
        have fits : (first >>> 2).toUInt32.toNat ≤ Header.tinyMaxCode := by
          rw [size, Header.tinyMaxCode]
          omega
        exact (if_pos rfl).trans (if_pos fits)
      have written : UInt8.ofNat ((first >>> 2).toUInt32.toNat * 4 + 2) = first := by
        apply UInt8.toNat_inj.mp
        rw [size, UInt8.toNat_ofNat']
        omega
      rw [Header.encode, valid]
      exact congrArg (fun byte => Except.ok [byte]) written
  | fat isFat =>
      obtain ⟨format, valid⟩ := Header.isFat_iff.mp isFat
      rw [Header.encode, valid, isTiny_eq_false_of_mod format]
      rfl

/-! ## Records -/

theorem IsRecord.length_eq {span : Bytes} {body : Body} (record : IsRecord 0 span body) :
    span.length = body.totalSize := by
  cases record with
  | plain isHeader _ _ =>
      rw [List.length_append, isHeader.length_eq]
      rfl
  | @extended head code gap sections header shapes isHeader _ _ short aligned _ =>
      rw [isHeader.length_eq] at aligned
      simp only [List.length_append, isHeader.length_eq, Body.totalSize, alignFour, paddingTo]
      omega

theorem IsHeader.encode_plain {head code : Bytes} {header : Header}
    (isHeader : IsHeader head header) (absent : header.flags &&& 8 = 0)
    (length : code.length = header.codeSize.toNat) :
    Body.encode ⟨header, code, none⟩ = .ok (head ++ code) := by
  have announced : header.hasSections = false :=
    Bool.eq_false_iff.mpr fun present => isHeader.hasSections_iff.mp present absent
  simp [Body.encode, length, announced, isHeader.encode_eq, bind, Except.bind, pure, Except.pure]

theorem IsHeader.encode_extended {head code : Bytes} {header : Header}
    (isHeader : IsHeader head header) (present : header.flags &&& 8 ≠ 0)
    (length : code.length = header.codeSize.toNat) (sections : Bytes) :
    Body.encode ⟨header, code, some sections⟩ =
      .ok (head ++ code ++ Bytes.zeros (paddingTo 4 (head ++ code).length) ++ sections) := by
  have announced := isHeader.hasSections_iff.mpr present
  simp [Body.encode, length, announced, isHeader.encode_eq, bind, Except.bind, pure, Except.pure]

private theorem getElem?_zeroed (front gap back : Bytes) (index : Nat) :
    (front ++ Bytes.zeros gap.length ++ back)[index]? =
      if front.length ≤ index ∧ index < front.length + gap.length then some 0
      else (front ++ gap ++ back)[index]? := by
  simp only [List.getElem?_append, List.length_append, Bytes.length_zeros]
  by_cases early : index < front.length
  · rw [if_pos (by omega), if_pos early, if_neg (by omega), if_pos (by omega), if_pos early]
  · by_cases inside : index < front.length + gap.length
    · rw [if_pos inside, if_neg early, if_pos ⟨by omega, inside⟩, Bytes.zeros,
        List.getElem?_replicate, if_pos (by omega)]
    · rw [if_neg inside, if_neg (by omega), if_neg inside]

/-- Writing the body of a record gives a record of the same body, which differs from it in the
alignment gap only. -/
theorem IsRecord.encode {span : Bytes} {body : Body} (record : IsRecord 0 span body) :
    ∃ bytes, body.encode = .ok bytes ∧ IsRecord 0 bytes body ∧
      ∀ index, index < body.totalSize →
        bytes[index]? =
          if body.header.size + body.code.length ≤ index ∧
              index < alignFour (body.header.size + body.code.length) then some 0
          else span[index]? := by
  have total := record.length_eq
  cases record with
  | @plain head code header isHeader absent length =>
      refine ⟨head ++ code, isHeader.encode_plain absent length, .plain isHeader absent length,
        fun index inside => ?_⟩
      rw [← total, List.length_append, isHeader.length_eq] at inside
      exact (if_neg fun inGap => absurd inGap.1 (Nat.not_le.mpr inside)).symm
  | @extended head code gap sections header shapes isHeader present length short aligned chain =>
      have padding : paddingTo 4 (head ++ code).length = gap.length := by
        rw [List.length_append]
        unfold paddingTo
        omega
      have encoded := isHeader.encode_extended present length sections
      rw [padding] at encoded
      refine ⟨_, encoded, .extended isHeader present length (by simpa using short)
        (by simpa using aligned) chain, fun index _ => ?_⟩
      have codeEnd : (head ++ code).length = header.size + code.length := by
        rw [List.length_append, isHeader.length_eq]
      rw [getElem?_zeroed, alignFour, ← codeEnd, padding]

/-- Encoding undoes parsing. The written bytes are the first `totalSize` bytes of the data with
zeros between the end of the code and the first section, and they parse to the same body. -/
theorem Body.encode_of_parse {data : Bytes} {body : Body} (parsed : Body.parse data = .ok body) :
    ∃ bytes, body.encode = .ok bytes ∧ bytes.length = body.totalSize ∧
      body.totalSize ≤ data.length ∧
      (∀ index, index < body.totalSize →
        bytes[index]? =
          if body.header.size + body.code.length ≤ index ∧
              index < alignFour (body.header.size + body.code.length) then some 0
          else data[index]?) ∧
      Body.parse bytes = .ok body := by
  obtain ⟨span, rest, split, record⟩ := Body.parse_iff_isRecord.mp parsed
  obtain ⟨bytes, encoded, rewritten, same⟩ := record.encode
  have total := record.length_eq
  refine ⟨bytes, encoded, rewritten.length_eq, ?_, fun index inside => ?_, ?_⟩
  · rw [split, List.length_append]
    omega
  · rw [same index inside, split, List.getElem?_append_left (by omega)]
  · exact Body.parse_iff_isRecord.mpr ⟨bytes, [], (List.append_nil _).symm, rewritten⟩

/-- A fat record with a section, with other bytes than zeros in its gap and more bytes behind. -/
theorem Body.encode_of_parse_gap :
    Body.parse [0x1B, 0x30, 1, 0, 1, 0, 0, 0, 0, 0, 0, 0, 0x2A, 7, 8, 9, 0x01, 4, 0, 0, 0xCC] =
        .ok ⟨⟨0x301B, 1, 1, 0⟩, [0x2A], some [0x01, 4, 0, 0]⟩ ∧
      ∃ bytes, Body.encode ⟨⟨0x301B, 1, 1, 0⟩, [0x2A], some [0x01, 4, 0, 0]⟩ = .ok bytes ∧
        bytes.length = 20 ∧ bytes[13]? = some 0 ∧
        Body.parse bytes = .ok ⟨⟨0x301B, 1, 1, 0⟩, [0x2A], some [0x01, 4, 0, 0]⟩ := by
  have parsed :
      Body.parse [0x1B, 0x30, 1, 0, 1, 0, 0, 0, 0, 0, 0, 0, 0x2A, 7, 8, 9, 0x01, 4, 0, 0, 0xCC] =
        .ok ⟨⟨0x301B, 1, 1, 0⟩, [0x2A], some [0x01, 4, 0, 0]⟩ := by
    rfl
  obtain ⟨bytes, encoded, length, _, same, reparsed⟩ := Body.encode_of_parse parsed
  exact ⟨parsed, bytes, encoded, length, same 13 (by decide), reparsed⟩

end CilRecovery.Method
