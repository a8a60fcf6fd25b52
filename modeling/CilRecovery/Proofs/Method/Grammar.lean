import CilRecovery.Method.Body
import CilRecovery.Proofs.Reader.Accepts

/-!
# The grammar of method records

Headers, sections and records as sets of byte strings, stated by bits and lengths and without a
reader. Reading accepts exactly the records, each of which is determined by the bytes that it
starts.
-/

set_option autoImplicit false

namespace CilRecovery.Method

/-! ## Definitions -/

/-- The fields of a fat header: its format, its size in dwords, a signed code size and a local
signature that is absent or tagged. -/
structure Header.IsFat (header : Header) : Prop where
  format : header.flags &&& 7 = 3
  dwords : header.flags >>> 12 = 3
  code : header.codeSize.toNat ≤ 0x7FFFFFFF
  locals : header.localSignature = 0 ∨ header.localSignature >>> 24 = 0x11

def Header.fatBytes (header : Header) : Bytes :=
  bytesOfUInt16 header.flags ++ bytesOfUInt16 header.maxStack ++
    bytesOfUInt32 header.codeSize ++ bytesOfUInt32 header.localSignature

/-- The bytes of a header. A tiny one implies a stack depth of eight and no locals. -/
inductive IsHeader : Bytes → Header → Prop where
  | tiny {first : UInt8} : first &&& 3 = 2 →
      IsHeader [first] ⟨2, 8, (first >>> 2).toUInt32, 0⟩
  | fat {header : Header} : header.IsFat → IsHeader header.fatBytes header

/-- The first byte of a section: marked as an exception table, without undefined bits. -/
def IsSectionKind (kind : UInt8) : Prop := kind &&& 0x01 ≠ 0 ∧ kind &&& 0x3E = 0

/-- The bytes of a section. Incomplete clauses at the end of the announced size do not count. -/
inductive IsSection : (isFat more : Bool) → (clauses : Nat) → Bytes → Prop where
  | small {kind size : UInt8} {body : Bytes} : IsSectionKind kind → kind &&& 0x40 = 0 →
      body.length = 2 + 12 * (size.toNat / 12) →
      IsSection false (kind &&& 0x80 != 0) (size.toNat / 12) (kind :: size :: body)
  | fat {kind : UInt8} {size body : Bytes} : IsSectionKind kind → kind &&& 0x40 ≠ 0 →
      size.length = 3 → body.length = 24 * (LittleEndian.decode size / 24) →
      IsSection true (kind &&& 0x80 != 0) (LittleEndian.decode size / 24) (kind :: (size ++ body))

structure SectionShape where
  isFat : Bool
  clauses : Nat

/-- The bytes of a chain of sections: every section but the last announces another one. -/
inductive IsChain : List SectionShape → Bytes → Prop where
  | last {isFat : Bool} {clauses : Nat} {span : Bytes} :
      IsSection isFat false clauses span → IsChain [⟨isFat, clauses⟩] span
  | more {isFat : Bool} {clauses : Nat} {shapes : List SectionShape} {span rest : Bytes} :
      IsSection isFat true clauses span → IsChain shapes rest →
      IsChain (⟨isFat, clauses⟩ :: shapes) (span ++ rest)

/-- The bytes of a record at a position. A gap of arbitrary bytes aligns the chain of sections that
follows the code if and only if bit 3 of the flags is set. -/
inductive IsRecord (position : Nat) : Bytes → Body → Prop where
  | plain {head code : Bytes} {header : Header} : IsHeader head header →
      header.flags &&& 8 = 0 → code.length = header.codeSize.toNat →
      IsRecord position (head ++ code) ⟨header, code, none⟩
  | extended {head code gap span : Bytes} {header : Header} {shapes : List SectionShape} :
      IsHeader head header → header.flags &&& 8 ≠ 0 → code.length = header.codeSize.toNat →
      gap.length < 4 → (position + head.length + code.length + gap.length) % 4 = 0 →
      IsChain shapes span →
      IsRecord position (head ++ code ++ gap ++ span) ⟨header, code, some span⟩

/-! ## Sizes -/

theorem Header.length_fatBytes (header : Header) : header.fatBytes.length = 12 := by
  simp [fatBytes]

theorem IsSection.length_mod {isFat more : Bool} {clauses : Nat} {span : Bytes}
    (section_ : IsSection isFat more clauses span) : span.length % 4 = 0 := by
  cases section_ with
  | small _ _ length =>
      simp only [List.length_cons, length]
      omega
  | fat _ _ length length' =>
      simp only [List.length_cons, List.length_append, length, length']
      omega

theorem IsSection.length_pos {isFat more : Bool} {clauses : Nat} {span : Bytes}
    (section_ : IsSection isFat more clauses span) : 0 < span.length := by
  cases section_ <;> simp

theorem IsChain.length_le {shapes : List SectionShape} {span : Bytes}
    (chain : IsChain shapes span) : shapes.length ≤ span.length := by
  induction chain with
  | last section_ => exact section_.length_pos
  | more section_ _ ih =>
      have positive := section_.length_pos
      simp only [List.length_cons, List.length_append]
      omega

/-! ## Headers -/

private theorem and_seven_eq {flags : UInt16} : flags &&& 7 = flags % 8 := by
  apply UInt16.toNat_inj.mp
  rw [UInt16.toNat_and, UInt16.toNat_mod]
  exact Nat.and_two_pow_sub_one_eq_mod flags.toNat 3

private theorem and_three_eq {byte : UInt8} : byte &&& 3 = byte % 4 := by
  apply UInt8.toNat_inj.mp
  rw [UInt8.toNat_and, UInt8.toNat_mod]
  exact Nat.and_two_pow_sub_one_eq_mod byte.toNat 2

private theorem shift_twelve_eq {flags : UInt16} : flags >>> 12 = flags / 0x1000 := by
  apply UInt16.toNat_inj.mp
  rw [UInt16.toNat_shiftRight, UInt16.toNat_div]
  exact Nat.shiftRight_eq_div_pow flags.toNat 12

theorem isTiny_eq_false_of_mod {header : Header} (format : header.flags % 8 = 3) :
    header.isTiny = false := by
  have value := congrArg UInt16.toNat format
  rw [UInt16.toNat_mod] at value
  simp only [Header.isTiny, Header.tinyFormat, beq_eq_false_iff_ne, ne_eq]
  intro tiny
  have value' := congrArg UInt16.toNat tiny
  rw [UInt16.toNat_mod] at value'
  simp at value value'
  omega

private theorem table_eq_iff {signature : UInt32} :
    Token.table ⟨signature⟩ = Token.standaloneSignatureTable ↔ signature >>> 24 = 0x11 := by
  have small := signature.toNat_lt
  constructor
  · intro same
    have value := congrArg UInt8.toNat same
    apply UInt32.toNat_inj.mp
    rw [UInt32.toNat_shiftRight]
    simp [Token.table, Token.rowLimit, Token.standaloneSignatureTable] at value
    simp [Nat.shiftRight_eq_div_pow]
    omega
  · intro same
    have value := congrArg UInt32.toNat same
    apply UInt8.toNat_inj.mp
    rw [UInt32.toNat_shiftRight] at value
    simp [Nat.shiftRight_eq_div_pow] at value
    simp [Token.table, Token.rowLimit, Token.standaloneSignatureTable]
    omega

/-- The fields of a fat header are those that pass validation without being tiny. -/
theorem Header.isFat_iff {header : Header} :
    header.IsFat ↔ header.flags % 8 = 3 ∧ header.validate = .ok () := by
  constructor
  · intro ⟨format, dwords, code, locals⟩
    rw [and_seven_eq] at format
    rw [shift_twelve_eq] at dwords
    refine ⟨format, ?_⟩
    rw [validate, isTiny_eq_false_of_mod format, if_neg Bool.false_ne_true,
      if_neg (by simp [format, fatFormat]), if_neg (by simp [dwords]),
      if_neg (by simpa [fatMaxCode] using code), if_neg]
    cases locals with
    | inl none => simp [none]
    | inr tagged => simp [table_eq_iff.mpr tagged]
  · intro ⟨format, valid⟩
    rw [validate, isTiny_eq_false_of_mod format, if_neg Bool.false_ne_true] at valid
    split at valid
    · cases valid
    split at valid
    · cases valid
    rename_i dwords
    split at valid
    · cases valid
    rename_i code
    split at valid
    · cases valid
    rename_i locals
    refine ⟨and_seven_eq.trans format, ?_, ?_, ?_⟩
    · rw [shift_twelve_eq]
      simpa using dwords
    · simpa [fatMaxCode] using code
    · simp only [Bool.and_eq_true, bne_iff_ne, ne_eq, table_eq_iff] at locals
      exact Classical.or_iff_not_imp_left.mpr fun present =>
        Classical.not_not.mp fun tagged => locals ⟨present, tagged⟩

private theorem tiny_eq_ok_iff {first : UInt8} {header : Header} :
    Header.tiny (first.toNat / 4) = .ok header ↔ header = ⟨2, 8, (first >>> 2).toUInt32, 0⟩ := by
  have small := first.toNat_lt
  have size : UInt32.ofNat (first.toNat / 4) = (first >>> 2).toUInt32 := by
    apply UInt32.toNat_inj.mp
    rw [UInt8.toNat_toUInt32, UInt8.toNat_shiftRight]
    simp [Nat.shiftRight_eq_div_pow]
    omega
  have fits : first.toNat / 4 ≤ Header.tinyMaxCode := by
    unfold Header.tinyMaxCode
    omega
  rw [Header.tiny, if_pos fits, size]
  simp [Header.tinyFormat, Header.tinyMaxStack, eq_comm]

private theorem fatBytes_head {header : Header} {first : UInt8} {tail : Bytes}
    (spelled : first :: tail = header.fatBytes) : first % 8 = 3 ↔ header.flags % 8 = 3 := by
  obtain rfl : first = UInt8.ofNat header.flags.toNat := (List.cons.inj spelled).1
  constructor
  · intro format
    have value := congrArg UInt8.toNat format
    apply UInt16.toNat_inj.mp
    simp at value ⊢
    omega
  · intro format
    have value := congrArg UInt16.toNat format
    apply UInt8.toNat_inj.mp
    simp at value ⊢
    omega

private theorem fat_not_tiny {first : UInt8} (format : first % 8 = 3) : ¬ first % 4 = 2 := by
  intro tiny
  have value := congrArg UInt8.toNat format
  have value' := congrArg UInt8.toNat tiny
  simp at value value'
  omega

private theorem isHeader_tiny_iff {first : UInt8} {tail : Bytes} {header : Header}
    (format : first % 4 = 2) :
    IsHeader (first :: tail) header ↔ tail = [] ∧ Header.tiny (first.toNat / 4) = .ok header := by
  constructor
  · intro isHeader
    generalize spelled : first :: tail = span at isHeader
    cases isHeader with
    | tiny =>
        cases spelled
        exact ⟨rfl, tiny_eq_ok_iff.mpr rfl⟩
    | fat isFat =>
        have fat := (fatBytes_head spelled).mpr (Header.isFat_iff.mp isFat).1
        exact absurd format (fat_not_tiny fat)
  · rintro ⟨rfl, read⟩
    rw [tiny_eq_ok_iff.mp read]
    exact .tiny (and_three_eq.trans format)

private theorem isHeader_fat_iff {first : UInt8} {tail : Bytes} {header : Header}
    (format : first % 8 = 3) :
    IsHeader (first :: tail) header ↔
      first :: tail = header.fatBytes ∧ header.validate = .ok () := by
  constructor
  · intro isHeader
    generalize spelled : first :: tail = span at isHeader
    cases isHeader with
    | tiny tiny =>
        cases spelled
        exact absurd (and_three_eq.symm.trans tiny) (fat_not_tiny format)
    | fat isFat => exact ⟨rfl, (Header.isFat_iff.mp isFat).2⟩
  · intro ⟨spelled, valid⟩
    rw [spelled]
    exact .fat (Header.isFat_iff.mpr ⟨(fatBytes_head spelled).mp format, valid⟩)

/-- Every header starts with a byte that marks one of the two forms. -/
private theorem IsHeader.marked {span : Bytes} {header : Header} (isHeader : IsHeader span header) :
    ∃ first tail, span = first :: tail ∧ (first % 4 = 2 ∨ first % 8 = 3) := by
  cases isHeader with
  | @tiny first format => exact ⟨first, [], rfl, .inl (and_three_eq.symm.trans format)⟩
  | fat isFat =>
      exact ⟨_, _, rfl, .inr ((fatBytes_head rfl).mpr (Header.isFat_iff.mp isFat).1)⟩

private def readFatFields : Reader Header := do
  let flags ← Reader.uint16
  let maxStack ← Reader.uint16
  let codeSize ← Reader.uint32
  let localSignature ← Reader.uint32
  let header : Header := ⟨flags, maxStack, codeSize, localSignature⟩
  Reader.check header.validate
  return header

private theorem accepts_readFatFields :
    Reader.Accepts readFatFields fun _ span header =>
      span = header.fatBytes ∧ header.validate = .ok () := by
  refine (Reader.Accepts.uint16.bind fun flags => Reader.Accepts.uint16.bind fun maxStack =>
    Reader.Accepts.uint32.bind fun codeSize => Reader.Accepts.uint32.bind fun localSignature =>
      (Reader.Accepts.check _).bind fun _ => Reader.Accepts.pure _).congr ?_
  intro position span header
  constructor
  · intro ⟨_, _, flags, split₁, same₁, _, _, maxStack, split₂, same₂, _, _, codeSize, split₃,
      same₃, _, _, localSignature, split₄, same₄, _, _, _, split₅, ⟨empty, valid⟩, empty', same⟩
    subst same empty empty' split₅ split₄ split₃ split₂ split₁ same₁ same₂ same₃ same₄
    exact ⟨by simp [Header.fatBytes], valid⟩
  · intro ⟨same, valid⟩
    subst same
    exact ⟨_, _, header.flags, by simp only [Header.fatBytes, List.append_assoc], rfl,
      _, _, header.maxStack, rfl, rfl, _, _, header.codeSize, rfl, rfl,
      _, [], header.localSignature, (List.append_nil _).symm, rfl,
      [], [], (), rfl, ⟨rfl, valid⟩, rfl, rfl⟩

/-- The first two bits choose the form, so no span is a header of both. -/
theorem Header.accepts_read :
    Reader.Accepts Header.read fun _ span header => IsHeader span header := by
  refine (Reader.Accepts.peekByte (fun first =>
    Reader.Accepts.ite (fun _ => (Reader.Accepts.skip 1).bind fun _ => Reader.Accepts.check _)
      fun _ => Reader.Accepts.ite (fun _ => accepts_readFatFields)
        fun _ => Reader.Accepts.throw _) ?_).congr ?_
  · intro first position header formed
    split at formed
    · obtain ⟨front, back, _, joined, length, _⟩ := formed
      cases front <;> simp at joined length
    · split at formed
      · have length := congrArg List.length formed.1
        simp [length_fatBytes] at length
      · exact formed
  · intro position span header
    constructor
    · rintro ⟨first, tail, rfl, formed⟩
      split at formed
      · next format =>
          obtain ⟨front, back, _, joined, length, rfl, read⟩ := formed
          obtain ⟨single, rfl⟩ := List.length_eq_one_iff.mp length
          cases joined
          exact (isHeader_tiny_iff (by simpa using format)).mpr ⟨rfl, read⟩
      · split at formed
        · next format => exact (isHeader_fat_iff (by simpa using format)).mpr formed
        · exact formed.elim
    · intro isHeader
      obtain ⟨first, tail, rfl, marked⟩ := isHeader.marked
      refine ⟨first, tail, rfl, ?_⟩
      cases marked with
      | inl format =>
          obtain ⟨rfl, read⟩ := (isHeader_tiny_iff format).mp isHeader
          rw [if_pos (by simpa using format)]
          exact ⟨[first], [], (), rfl, rfl, rfl, read⟩
      | inr format =>
          rw [if_neg (by simpa using fat_not_tiny format), if_pos (by simpa using format)]
          exact (isHeader_fat_iff format).mp isHeader

/-! ## Sections -/

theorem checkKind_eq_ok_iff {kind : UInt8} :
    Section.checkKind kind = .ok () ↔ IsSectionKind kind := by
  unfold Section.checkKind IsSectionKind Section.exceptionTable Section.undefinedBits
  split
  · rename_i unmarked
    simp_all
  · split
    · simp_all
    · simp_all

private def skipFat (kind : UInt8) : Reader Bool := do
  let word ← Reader.uint32
  Reader.skip (word.toNat / 0x100 / Clause.fatSize * Clause.fatSize)
  return kind &&& Section.moreFollow != 0

private def skipSmall (kind : UInt8) : Reader Bool := do
  let size ← Reader.byte
  Reader.skip (2 + size.toNat / Clause.smallSize * Clause.smallSize)
  return kind &&& Section.moreFollow != 0

private def skipAligned : Reader Bool := do
  let start ← Reader.position
  let kind ← Reader.byte
  Reader.check (Section.checkKind kind)
  if kind &&& Section.fatForm != 0 then
    Reader.seek start
    skipFat kind
  else
    skipSmall kind

private theorem skipOne_eq :
    Section.skipOne = Reader.align 4 (by decide) >>= fun _ => skipAligned := by
  rfl

private theorem skipAligned_cons (before others : Bytes) (kind : UInt8) :
    skipAligned ⟨before ++ kind :: others, before.length⟩ =
      match Section.checkKind kind with
      | .error error => .error error ⟨before ++ kind :: others, before.length + 1⟩
      | .ok () =>
          if kind &&& Section.fatForm != 0 then
            skipFat kind ⟨before ++ kind :: others, before.length⟩
          else skipSmall kind ⟨before ++ kind :: others, before.length + 1⟩ := by
  have read : Reader.byte ⟨before ++ kind :: others, before.length⟩ =
      .ok kind ⟨before ++ kind :: others, before.length + 1⟩ :=
    Reader.Accepts.byte.reads before rfl others
  have sought : Reader.seek before.length ⟨before ++ kind :: others, before.length + 1⟩ =
      .ok () ⟨before ++ kind :: others, before.length⟩ := by
    simp [Reader.seek]
  simp only [skipAligned, bind, EStateM.bind, Reader.position, read]
  unfold Reader.check
  cases Section.checkKind kind with
  | error error => rfl
  | ok _ =>
      by_cases isFat : (kind &&& Section.fatForm != 0) = true
      · simp only [if_pos isFat, EStateM.bind, sought]
      · simp only [if_neg isFat]

private theorem accepts_skipFat (kind : UInt8) :
    Reader.Accepts (skipFat kind) fun _ span more =>
      ∃ word clauses, span = bytesOfUInt32 word ++ clauses ∧
        clauses.length = word.toNat / 0x100 / 24 * 24 ∧ more = (kind &&& 0x80 != 0) := by
  refine (Reader.Accepts.uint32.bind fun word => (Reader.Accepts.skip _).bind fun _ =>
    Reader.Accepts.pure _).congr ?_
  intro position span more
  constructor
  · intro ⟨_, _, word, split, same, clauses, _, _, split', length, empty, same'⟩
    subst empty split' split same same'
    exact ⟨word, clauses, by simp, length, rfl⟩
  · intro ⟨word, clauses, split, length, same⟩
    exact ⟨_, clauses, word, split, rfl, clauses, [], (), (List.append_nil _).symm, length, rfl,
      same⟩

private theorem accepts_skipSmall (kind : UInt8) :
    Reader.Accepts (skipSmall kind) fun _ span more =>
      ∃ size body, span = size :: body ∧ body.length = 2 + size.toNat / 12 * 12 ∧
        more = (kind &&& 0x80 != 0) := by
  refine (Reader.Accepts.byte.bind fun size => (Reader.Accepts.skip _).bind fun _ =>
    Reader.Accepts.pure _).congr ?_
  intro position span more
  constructor
  · intro ⟨_, _, size, split, same, body, _, _, split', length, empty, same'⟩
    subst empty split' split same same'
    exact ⟨size, body, by simp, length, rfl⟩
  · intro ⟨size, body, split, length, same⟩
    exact ⟨[size], body, size, split, rfl, body, [], (), (List.append_nil _).symm, length, rfl,
      same⟩

/-- The word that a fat section starts with holds its first byte and its size. -/
private theorem bytesOfUInt32_cons {kind : UInt8} {tail : Bytes} {word : UInt32} :
    bytesOfUInt32 word = kind :: tail ↔
      tail.length = 3 ∧ word.toNat = kind.toNat + 256 * LittleEndian.decode tail := by
  constructor
  · intro same
    have length := congrArg List.length same
    have value := congrArg LittleEndian.decode same
    rw [decode_bytesOfUInt32] at value
    exact ⟨by simpa using length.symm, value⟩
  · intro ⟨length, value⟩
    have length' : (kind :: tail).length = 4 := by simp [length]
    rw [bytesOfUInt32, value]
    exact length' ▸ LittleEndian.encode_decode (kind :: tail)

private theorem isSection_fat_iff {kind : UInt8} {tail : Bytes} {more : Bool}
    (marked : IsSectionKind kind) (isFat : kind &&& 0x40 ≠ 0) :
    (∃ word clauses, kind :: tail = bytesOfUInt32 word ++ clauses ∧
      clauses.length = word.toNat / 0x100 / 24 * 24 ∧ more = (kind &&& 0x80 != 0)) ↔
      ∃ isFat clauses, IsSection isFat more clauses (kind :: tail) := by
  have small := kind.toNat_lt
  constructor
  · intro ⟨word, clauses, split, length, same⟩
    subst same
    cases announced : bytesOfUInt32 word with
    | nil => exact absurd (congrArg List.length announced) (by simp)
    | cons first size =>
        rw [announced, List.cons_append, List.cons.injEq] at split
        obtain ⟨rfl, rfl⟩ := split
        obtain ⟨width, value⟩ := bytesOfUInt32_cons.mp announced
        have size_eq : word.toNat / 0x100 = LittleEndian.decode size := by omega
        rw [size_eq, Nat.mul_comm] at length
        exact ⟨true, _, .fat marked isFat width length⟩
  · intro ⟨_, _, section_⟩
    cases section_ with
    | small _ isSmall _ => exact absurd isSmall isFat
    | @fat _ size body _ _ width length =>
        have bound := LittleEndian.decode_lt size
        rw [width] at bound
        have fits : kind.toNat + 256 * LittleEndian.decode size < UInt32.size := by
          simp only [LittleEndian.capacity, UInt32.size] at bound ⊢
          omega
        have value := UInt32.toNat_ofNat_of_lt' fits
        refine ⟨UInt32.ofNat (kind.toNat + 256 * LittleEndian.decode size), body, ?_, ?_, rfl⟩
        · rw [bytesOfUInt32_cons.mpr ⟨width, value⟩, List.cons_append]
        · rw [length, value]
          omega

private theorem isSection_small_iff {kind : UInt8} {tail : Bytes} {more : Bool}
    (marked : IsSectionKind kind) (isSmall : kind &&& 0x40 = 0) :
    (∃ size body, tail = size :: body ∧ body.length = 2 + size.toNat / 12 * 12 ∧
      more = (kind &&& 0x80 != 0)) ↔
      ∃ isFat clauses, IsSection isFat more clauses (kind :: tail) := by
  constructor
  · intro ⟨size, body, split, length, same⟩
    subst split same
    rw [Nat.mul_comm] at length
    exact ⟨false, _, .small marked isSmall length⟩
  · intro ⟨_, _, section_⟩
    cases section_ with
    | fat _ isFat _ _ => exact absurd isSmall isFat
    | @small _ size body _ _ length =>
        rw [Nat.mul_comm] at length
        exact ⟨size, body, rfl, length, rfl⟩

/-- A section is in front, and the reader is behind it. -/
private def Passed (before rest : Bytes) (more : Bool) (moved : Cursor) : Prop :=
  ∃ span after, rest = span ++ after ∧ (∃ isFat clauses, IsSection isFat more clauses span) ∧
    moved = ⟨before ++ rest, before.length + span.length⟩

private theorem not_passed_nil {before : Bytes} {more : Bool} {moved : Cursor} :
    ¬ Passed before [] more moved := by
  intro ⟨span, after, empty, ⟨_, _, section_⟩, _⟩
  have positive := section_.length_pos
  rw [(List.append_eq_nil_iff.mp empty.symm).1] at positive
  exact Nat.lt_irrefl 0 positive

private theorem passed_cons {before others : Bytes} {kind : UInt8} {more : Bool}
    {moved : Cursor} :
    Passed before (kind :: others) more moved ↔
      ∃ tail after, others = tail ++ after ∧
        (∃ isFat clauses, IsSection isFat more clauses (kind :: tail)) ∧
        moved = ⟨before ++ kind :: others, before.length + (kind :: tail).length⟩ := by
  constructor
  · intro ⟨span, after, split, ⟨isFat, clauses, section_⟩, end_⟩
    cases span with
    | nil => exact absurd section_.length_pos (Nat.lt_irrefl 0)
    | cons first tail =>
        cases split
        exact ⟨tail, after, rfl, ⟨isFat, clauses, section_⟩, end_⟩
  · intro ⟨tail, after, split, section_, end_⟩
    exact ⟨kind :: tail, after, congrArg (kind :: ·) split, section_, end_⟩

private theorem Passed.marked {before others : Bytes} {kind : UInt8} {more : Bool}
    {moved : Cursor} (passed : Passed before (kind :: others) more moved) :
    IsSectionKind kind := by
  obtain ⟨tail, _, _, ⟨_, _, section_⟩, _⟩ := passed_cons.mp passed
  cases section_ with
  | small marked => exact marked
  | fat marked => exact marked

private theorem skipAligned_nil (before : Bytes) (more : Bool) (moved : Cursor) :
    skipAligned ⟨before ++ [], before.length⟩ ≠ .ok more moved := by
  intro read
  obtain ⟨_, _, started, continued⟩ := EState.bind_eq_ok.mp read
  cases started
  obtain ⟨kind, middle, read, _⟩ := EState.bind_eq_ok.mp continued
  obtain ⟨span, after, empty, rfl, _⟩ := (Reader.Accepts.byte _ _ _ _).mp read
  cases empty

private theorem skipSmall_eq_ok {kind : UInt8} (marked : IsSectionKind kind)
    (isSmall : kind &&& 0x40 = 0) (before others : Bytes) (more : Bool) (moved : Cursor) :
    skipSmall kind ⟨before ++ kind :: others, before.length + 1⟩ = .ok more moved ↔
      Passed before (kind :: others) more moved := by
  have step := accepts_skipSmall kind (before ++ [kind]) others more moved
  rw [← List.append_cons, List.length_append, List.length_singleton] at step
  have place (tail : Bytes) :
      before.length + 1 + tail.length = before.length + (kind :: tail).length := by
    rw [List.length_cons, Nat.add_assoc, Nat.add_comm 1]
  simp only [step, isSection_small_iff marked isSmall, passed_cons, place]

private theorem skipFat_eq_ok {kind : UInt8} (marked : IsSectionKind kind)
    (isFat : kind &&& 0x40 ≠ 0) (before others : Bytes) (more : Bool) (moved : Cursor) :
    skipFat kind ⟨before ++ kind :: others, before.length⟩ = .ok more moved ↔
      Passed before (kind :: others) more moved := by
  rw [accepts_skipFat kind before (kind :: others) more moved, passed_cons]
  constructor
  · intro ⟨span, after, split, formed, end_⟩
    cases span with
    | nil =>
        obtain ⟨word, _, joined, _, _⟩ := formed
        exact absurd (congrArg List.length joined) (by simp; omega)
    | cons first tail =>
        cases split
        exact ⟨tail, after, rfl, (isSection_fat_iff marked isFat).mp formed, end_⟩
  · intro ⟨tail, after, split, section_, end_⟩
    exact ⟨kind :: tail, after, congrArg (kind :: ·) split,
      (isSection_fat_iff marked isFat).mpr section_, end_⟩

/-- Small and fat sections differ in where their size stands and in the size of a clause. -/
private theorem accepts_skipAligned :
    Reader.Accepts skipAligned fun _ span more =>
      ∃ isFat clauses, IsSection isFat more clauses span := by
  intro before rest more moved
  change _ ↔ Passed before rest more moved
  cases rest with
  | nil => exact iff_of_false (skipAligned_nil before more moved) not_passed_nil
  | cons kind others =>
      rw [skipAligned_cons]
      by_cases marked : IsSectionKind kind
      · rw [checkKind_eq_ok_iff.mpr marked]
        by_cases isSmall : kind &&& 0x40 = 0
        · simp only [Section.fatForm, isSmall, bne_self_eq_false, Bool.false_eq_true, if_false]
          exact skipSmall_eq_ok marked isSmall before others more moved
        · simp only [Section.fatForm, bne_iff_ne, ne_eq, isSmall, not_false_eq_true, if_true]
          exact skipFat_eq_ok marked isSmall before others more moved
      · refine iff_of_false (fun read => ?_) fun passed => marked passed.marked
        cases checked : Section.checkKind kind with
        | error error =>
            rw [checked] at read
            cases read
        | ok _ => exact marked (checkKind_eq_ok_iff.mp checked)

theorem Section.accepts_skipOne :
    Reader.Accepts skipOne fun position span more =>
      ∃ gap section_ isFat clauses, span = gap ++ section_ ∧
        gap.length = paddingTo 4 position ∧ IsSection isFat more clauses section_ := by
  rw [skipOne_eq]
  refine ((Reader.Accepts.align 4 _).bind fun _ => accepts_skipAligned).congr ?_
  intro position span more
  constructor
  · intro ⟨gap, section_, _, split, length, isFat, clauses, formed⟩
    exact ⟨gap, section_, isFat, clauses, split, length, formed⟩
  · intro ⟨gap, section_, isFat, clauses, split, length, formed⟩
    exact ⟨gap, section_, (), split, length, isFat, clauses, formed⟩

theorem paddingTo_eq_zero {position : Nat} (aligned : position % 4 = 0) :
    paddingTo 4 position = 0 := by
  unfold paddingTo
  omega

/-- Sections keep the alignment, so only the first of them can follow a gap. -/
theorem Section.accepts_skipAll (fuel : Nat) :
    Reader.Accepts (skipAll fuel) fun position span _ =>
      ∃ gap chain shapes, span = gap ++ chain ∧ gap.length = paddingTo 4 position ∧
        IsChain shapes chain ∧ shapes.length ≤ fuel := by
  induction fuel with
  | zero =>
      refine (Reader.Accepts.throw _).congr ?_
      intro position span _
      constructor
      · intro impossible
        exact impossible.elim
      · intro ⟨_, _, _, _, _, chain, few⟩
        cases chain <;> simp at few
  | succ fuel ih =>
      refine (accepts_skipOne.bind fun more => Reader.Accepts.ite (fun _ => ih) fun _ =>
        Reader.Accepts.pure ()).congr ?_
      intro position span _
      constructor
      · intro ⟨front, back, more, split, ⟨gap, section_, isFat, clauses, split', length, formed⟩,
          others⟩
        subst split split'
        have aligned := @paddingTo_mod position 4 (by decide)
        have kept := formed.length_mod
        cases more with
        | false =>
            obtain ⟨empty, _⟩ := others
            subst empty
            exact ⟨gap, section_, [⟨isFat, clauses⟩], by simp, length, .last formed, by simp⟩
        | true =>
            obtain ⟨gap', chain, shapes, split, length', chained, bound⟩ := others
            have none : gap' = [] := by
              rw [List.length_append, length, paddingTo_eq_zero (by omega)] at length'
              exact List.length_eq_zero_iff.mp length'
            subst split none
            exact ⟨gap, section_ ++ chain, ⟨isFat, clauses⟩ :: shapes, by simp, length,
              .more formed chained, by simpa using bound⟩
      · intro ⟨gap, chain, shapes, split, length, chained, bound⟩
        subst split
        have aligned := @paddingTo_mod position 4 (by decide)
        cases chained with
        | @last isFat clauses _ formed =>
            exact ⟨gap ++ chain, [], false, by simp, ⟨gap, chain, isFat, clauses, rfl, length,
              formed⟩, rfl, rfl⟩
        | @more isFat clauses shapes section_ others formed chained =>
            have kept := formed.length_mod
            refine ⟨gap ++ section_, others, true, by simp, ⟨gap, section_, isFat, clauses, rfl,
              length, formed⟩, [], others, shapes, rfl, ?_, chained, by simpa using bound⟩
            rw [List.length_append, length, paddingTo_eq_zero (by omega)]
            rfl

private def skipMeasured : Reader Unit := do
  Section.skipAll ((← Reader.left) + 1)

private theorem skipChain_eq :
    Section.skipChain = (do
      Reader.align 4 (by decide)
      let start ← Reader.position
      let _ ← skipMeasured
      let stop ← Reader.position
      Reader.seek start
      Reader.take (stop - start)) := by
  rfl

/-- The bytes left bound the number of sections, so the fuel never runs out. -/
private theorem accepts_skipMeasured :
    Reader.Accepts skipMeasured fun position span _ =>
      ∃ gap chain shapes, span = gap ++ chain ∧ gap.length = paddingTo 4 position ∧
        IsChain shapes chain := by
  intro before rest value moved
  have started : skipMeasured ⟨before ++ rest, before.length⟩ =
      Section.skipAll (rest.length + 1) ⟨before ++ rest, before.length⟩ := by
    simp [skipMeasured, bind, EStateM.bind, Reader.left]
  rw [started, Section.accepts_skipAll (rest.length + 1) before rest value moved]
  constructor
  · intro ⟨span, after, split, ⟨gap, chain, shapes, split', length, chained, _⟩, end_⟩
    exact ⟨span, after, split, ⟨gap, chain, shapes, split', length, chained⟩, end_⟩
  · intro ⟨span, after, split, ⟨gap, chain, shapes, split', length, chained⟩, end_⟩
    have bound := chained.length_le
    refine ⟨span, after, split, ⟨gap, chain, shapes, split', length, chained, ?_⟩, end_⟩
    rw [split, split']
    simp only [List.length_append]
    omega

/-- The gap in front of the chain depends on the position only. Its bytes are arbitrary. -/
theorem Section.accepts_skipChain :
    Reader.Accepts skipChain fun position span value =>
      ∃ gap shapes, span = gap ++ value ∧ gap.length = paddingTo 4 position ∧
        IsChain shapes value := by
  rw [skipChain_eq]
  refine ((Reader.Accepts.align 4 _).bind fun _ => accepts_skipMeasured.captured).congr ?_
  intro position span value
  have aligned := @paddingTo_mod position 4 (by decide)
  constructor
  · intro ⟨gap, _, _, split, length, same, _, gap', chain, shapes, split', length', chained⟩
    rw [paddingTo_eq_zero (by omega), List.length_eq_zero_iff] at length'
    subst same split split' length'
    exact ⟨gap, shapes, rfl, length, chained⟩
  · intro ⟨gap, shapes, split, length, chained⟩
    refine ⟨gap, value, (), split, length, rfl, (), [], value, shapes, rfl, ?_, chained⟩
    rw [paddingTo_eq_zero (by omega)]
    rfl

/-! ## Records -/

theorem IsHeader.hasSections_iff {head : Bytes} {header : Header}
    (isHeader : IsHeader head header) : header.hasSections = true ↔ header.flags &&& 8 ≠ 0 := by
  cases isHeader with
  | tiny _ =>
      have absent : (2 : UInt16) &&& 8 = 0 := rfl
      simp [Header.hasSections, Header.isTiny, Header.tinyFormat, absent]
  | fat isFat =>
      have notTiny := isTiny_eq_false_of_mod (Header.isFat_iff.mp isFat).1
      simp [Header.hasSections, Header.moreSections, notTiny]

private theorem gap_iff {position length : Nat} :
    length = paddingTo 4 position ↔ length < 4 ∧ (position + length) % 4 = 0 := by
  unfold paddingTo
  omega

/-- Code size and flags decide where the sections start, and a record without the flag ends with its
code. -/
theorem Body.accepts_read :
    Reader.Accepts Body.read fun position span body => IsRecord position span body := by
  refine (Reader.Accepts.atomically <| Header.accepts_read.bind fun header =>
    (Reader.Accepts.take header.codeSize.toNat).bind fun code =>
      Reader.Accepts.ite
        (fun _ => Section.accepts_skipChain.bind fun span =>
          Reader.Accepts.pure (⟨header, code, some span⟩ : Body))
        fun _ => Reader.Accepts.pure (⟨header, code, none⟩ : Body)).congr ?_
  intro position span body
  constructor
  · intro ⟨head, _, header, split, isHeader, code, _, _, split', ⟨length, same⟩, ending⟩
    subst split split' same
    split at ending
    · rename_i announced
      obtain ⟨_, _, sections, split, ⟨gap, shapes, split', padding, chain⟩, empty, same⟩ := ending
      subst same split split' empty
      obtain ⟨short, aligned⟩ := gap_iff.mp padding
      rw [List.append_nil, ← List.append_assoc, ← List.append_assoc]
      exact .extended isHeader (isHeader.hasSections_iff.mp announced) length short aligned chain
    · rename_i announced
      obtain ⟨empty, same⟩ := ending
      subst same empty
      rw [List.append_nil]
      exact .plain isHeader
        (Classical.not_not.mp fun present => announced (isHeader.hasSections_iff.mpr present))
        length
  · intro record
    cases record with
    | @plain head code header isHeader absent length =>
        have announced : ¬ header.hasSections = true := fun present =>
          isHeader.hasSections_iff.mp present absent
        refine ⟨head, code, header, rfl, isHeader, code, [], code, (List.append_nil _).symm,
          ⟨length, rfl⟩, ?_⟩
        rw [if_neg announced]
        exact ⟨rfl, rfl⟩
    | @extended head code gap sections header shapes isHeader present length short aligned chain =>
        refine ⟨head, code ++ gap ++ sections, header, by simp, isHeader, code, gap ++ sections,
          code, by simp, ⟨length, rfl⟩, ?_⟩
        rw [if_pos (isHeader.hasSections_iff.mpr present)]
        exact ⟨gap ++ sections, [], sections, by simp,
          ⟨gap, shapes, rfl, gap_iff.mpr ⟨short, aligned⟩, chain⟩, rfl, rfl⟩

/-- Parsing decides the grammar: a record is accepted exactly if the data begins with one. -/
theorem Body.parse_iff_isRecord {data : Bytes} {body : Body} :
    Body.parse data = .ok body ↔ ∃ span rest, data = span ++ rest ∧ IsRecord 0 span body := by
  have reads := Body.accepts_read [] data body
  simp only [List.nil_append, List.length_nil] at reads
  unfold Body.parse Reader.decode Cursor.start
  constructor
  · intro parsed
    cases read : Body.read ⟨data, 0⟩ with
    | ok value moved =>
        rw [read] at parsed
        cases parsed
        obtain ⟨span, rest, split, record, _⟩ := (reads moved).mp read
        exact ⟨span, rest, split, record⟩
    | error error moved =>
        rw [read] at parsed
        cases parsed
  · intro ⟨span, rest, split, record⟩
    rw [(reads _).mpr ⟨span, rest, split, record, rfl⟩]

/-- A record with a tiny header has no sections. -/
theorem Body.sections_eq_none {data : Bytes} {body : Body} (parsed : Body.parse data = .ok body)
    (tiny : body.header.isTiny = true) : body.sections = none := by
  obtain ⟨span, rest, split, record⟩ := Body.parse_iff_isRecord.mp parsed
  cases record with
  | plain => rfl
  | extended isHeader present =>
      have extended := isHeader.hasSections_iff.mpr present
      simp [Header.hasSections, tiny] at extended

/-- Parsing accepts exactly the data that a record starts, and returns the fields of that record.
No other record starts the same data. -/
theorem Body.parse_eq_ok_iff (data : Bytes) (body : Body) :
    Body.parse data = .ok body ↔
      ∃ span rest, data = span ++ rest ∧ IsRecord 0 span body ∧
        ∀ span' rest' body', data = span' ++ rest' → IsRecord 0 span' body' →
          span' = span ∧ body' = body := by
  constructor
  · intro parsed
    obtain ⟨span, rest, split, record⟩ := Body.parse_iff_isRecord.mp parsed
    refine ⟨span, rest, split, record, fun span' rest' body' split' record' => ?_⟩
    exact Body.accepts_read.unique [] record' record (split'.symm.trans split)
  · intro ⟨span, rest, split, record, _⟩
    exact Body.parse_iff_isRecord.mpr ⟨span, rest, split, record⟩

end CilRecovery.Method
