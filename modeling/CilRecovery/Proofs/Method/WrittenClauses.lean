import CilRecovery.Proofs.Bytes
import CilRecovery.Proofs.Method.Clauses
import CilRecovery.Proofs.Method.Reparsing

/-!
# Writing the clauses of a record

Clauses that are written as a chain of small and fat sections, in any mixture, come back in order.
The chain is carried by a record like any other data, behind code of any length.
-/

set_option autoImplicit false

namespace CilRecovery.Method

/-! ## What is written -/

structure SmallClause where
  flags : UInt16
  tryOffset : UInt16
  tryLength : UInt8
  handlerOffset : UInt16
  handlerLength : UInt8
  filterOffset : UInt32

structure FatClause where
  flags : UInt32
  tryOffset : UInt32
  tryLength : UInt32
  handlerOffset : UInt32
  handlerLength : UInt32
  filterOffset : UInt32

def SmallClause.encode (clause : SmallClause) : Bytes :=
  bytesOfUInt16 clause.flags ++ (bytesOfUInt16 clause.tryOffset ++ ([clause.tryLength] ++
    (bytesOfUInt16 clause.handlerOffset ++ ([clause.handlerLength] ++
      bytesOfUInt32 clause.filterOffset))))

def FatClause.encode (clause : FatClause) : Bytes :=
  bytesOfUInt32 clause.flags ++ (bytesOfUInt32 clause.tryOffset ++
    (bytesOfUInt32 clause.tryLength ++ (bytesOfUInt32 clause.handlerOffset ++
      (bytesOfUInt32 clause.handlerLength ++ bytesOfUInt32 clause.filterOffset))))

def SmallClause.widened (clause : SmallClause) : Clause :=
  ⟨clause.flags, clause.tryOffset.toUInt32, clause.tryLength.toUInt32,
    clause.handlerOffset.toUInt32, clause.handlerLength.toUInt32, clause.filterOffset⟩

/-- Of the flags only the low half is kept. -/
def FatClause.reduced (clause : FatClause) : Clause :=
  ⟨clause.flags.toUInt16, clause.tryOffset, clause.tryLength, clause.handlerOffset,
    clause.handlerLength, clause.filterOffset⟩

theorem SmallClause.length_encode (clause : SmallClause) : clause.encode.length = 12 := by
  simp [encode]

theorem FatClause.length_encode (clause : FatClause) : clause.encode.length = 24 := by
  simp [encode]

theorem SmallClause.reads (clause : SmallClause) :
    Reader.Reads Clause.readSmall clause.encode clause.widened := by
  refine (Reader.Reads.uint16 clause.flags).bind ?_
  refine (Reader.Reads.uint16 clause.tryOffset).bind ?_
  refine (Reader.Reads.byte clause.tryLength).bind ?_
  refine (Reader.Reads.uint16 clause.handlerOffset).bind ?_
  refine (Reader.Reads.byte clause.handlerLength).bind ?_
  exact (Reader.Reads.uint32 clause.filterOffset).last rfl

theorem FatClause.reads (clause : FatClause) :
    Reader.Reads Clause.readFat clause.encode clause.reduced := by
  refine (Reader.Reads.uint32 clause.flags).bind ?_
  refine (Reader.Reads.uint32 clause.tryOffset).bind ?_
  refine (Reader.Reads.uint32 clause.tryLength).bind ?_
  refine (Reader.Reads.uint32 clause.handlerOffset).bind ?_
  refine (Reader.Reads.uint32 clause.handlerLength).bind ?_
  exact (Reader.Reads.uint32 clause.filterOffset).last rfl

/-- What a reader of clauses takes from written bytes is the clause that is stored there. -/
private theorem stored_of_reads {reader : Reader Clause} {isFat : Bool} {stride : Nat}
    {bytes : Bytes} {clause : Clause}
    (readsAt : ∀ {data : Bytes} {place : Nat}, place + stride ≤ data.length →
      reader ⟨data, place⟩ = .ok (.stored isFat data place) ⟨data, place + stride⟩)
    (reads : Reader.Reads reader bytes clause) (sized : bytes.length = stride)
    (before after : Bytes) :
    Clause.stored isFat (before ++ (bytes ++ after)) before.length = clause := by
  have inside : before.length + stride ≤ (before ++ (bytes ++ after)).length := by
    simp only [List.length_append, sized]
    omega
  have read := (readsAt inside).symm.trans (reads before after)
  exact (EStateM.Result.ok.inj read).1

theorem SmallClause.stored (clause : SmallClause) (before after : Bytes) :
    Clause.stored false (before ++ (clause.encode ++ after)) before.length = clause.widened :=
  stored_of_reads Clause.readSmall_at clause.reads clause.length_encode before after

theorem FatClause.stored (clause : FatClause) (before after : Bytes) :
    Clause.stored true (before ++ (clause.encode ++ after)) before.length = clause.reduced :=
  stored_of_reads Clause.readFat_at clause.reads clause.length_encode before after

section

variable {ι : Type} {isFat : Bool} {stride : Nat} {encode : ι → Bytes} {value : ι → Clause}

private theorem length_clauses (sized : ∀ item, (encode item).length = stride) (items : List ι) :
    (items.flatMap encode).length = stride * items.length := by
  have each : ∀ bytes ∈ items.map encode, bytes.length = stride := by
    rw [List.forall_mem_map]
    exact fun item _ => sized item
  rw [List.flatMap_def, Bytes.length_flatten each, List.length_map, Nat.mul_comm]

/-- Clauses that were written one behind the other are stored one `stride` apart. -/
private theorem stored_clauses (sized : ∀ item, (encode item).length = stride)
    (stored : ∀ item before after,
      Clause.stored isFat (before ++ (encode item ++ after)) before.length = value item)
    (items : List ι) (before after : Bytes) :
    (List.range' before.length items.length stride).map
      (Clause.stored isFat (before ++ (items.flatMap encode ++ after))) = items.map value := by
  induction items generalizing before with
  | nil => rfl
  | cons item rest ih =>
      have others := ih (before ++ encode item)
      rw [List.length_append, sized, List.append_assoc] at others
      rw [List.flatMap_cons, List.append_assoc, List.length_cons, List.range'_succ, List.map_cons,
        stored, others, List.map_cons]

end

/-- A section whose size can be written: in one byte if it is small, else in three. What the two
reserved bytes of a small section hold does not matter. -/
inductive WrittenSection where
  | small (reserved : UInt16) (clauses : List SmallClause) (few : clauses.length ≤ 20)
  | fat (clauses : List FatClause) (sized : 4 + 24 * clauses.length < 0x1000000)

namespace WrittenSection

def shape : WrittenSection → SectionShape
  | small _ clauses _ => ⟨false, clauses.length⟩
  | fat clauses _ => ⟨true, clauses.length⟩

def clauses : WrittenSection → List Clause
  | small _ clauses _ => clauses.map SmallClause.widened
  | fat clauses _ => clauses.map FatClause.reduced

def kind (isFat more : Bool) : UInt8 :=
  Section.exceptionTable ||| (if isFat then Section.fatForm else 0) |||
    (if more then Section.moreFollow else 0)

def header (more : Bool) : WrittenSection → Bytes
  | small reserved clauses _ =>
      kind false more :: UInt8.ofNat (4 + 12 * clauses.length) :: bytesOfUInt16 reserved
  | fat clauses _ => kind true more :: LittleEndian.encode 3 (4 + 24 * clauses.length)

def clauseBytes : WrittenSection → Bytes
  | small _ clauses _ => clauses.flatMap SmallClause.encode
  | fat clauses _ => clauses.flatMap FatClause.encode

def encode (more : Bool) (written : WrittenSection) : Bytes :=
  written.header more ++ written.clauseBytes

/-- The bytes of a chain: every section but the last announces another one. -/
def encodeChain : List WrittenSection → Bytes
  | [] => []
  | [last] => last.encode false
  | first :: others => first.encode true ++ encodeChain others

/-! ## Chains -/

theorem kind_spec (isFat more : Bool) :
    IsSectionKind (kind isFat more) ∧ (kind isFat more &&& 0x40 ≠ 0 ↔ isFat = true) ∧
      (kind isFat more &&& 0x80 != 0) = more := by
  unfold IsSectionKind
  cases isFat <;> cases more <;> decide

theorem length_header (more : Bool) (written : WrittenSection) :
    (written.header more).length = 4 := by
  cases written <;> simp [header]

theorem isSection (more : Bool) (written : WrittenSection) :
    IsSection written.shape.isFat more written.shape.clauses (written.encode more) := by
  cases written with
  | small reserved clauses few =>
      obtain ⟨marked, isSmall, announced⟩ := kind_spec false more
      have size : (UInt8.ofNat (4 + 12 * clauses.length)).toNat = 4 + 12 * clauses.length :=
        toNat_byte (by omega)
      have count : (UInt8.ofNat (4 + 12 * clauses.length)).toNat / 12 = clauses.length := by
        omega
      have length : (bytesOfUInt16 reserved ++ clauses.flatMap SmallClause.encode).length =
          2 + 12 * ((UInt8.ofNat (4 + 12 * clauses.length)).toNat / 12) := by
        rw [List.length_append, length_bytesOfUInt16, length_clauses SmallClause.length_encode,
          count]
      have formed := IsSection.small marked (by simpa using isSmall) length
      rwa [announced, count] at formed
  | fat clauses sized =>
      obtain ⟨marked, isFat, announced⟩ := kind_spec true more
      have size : LittleEndian.decode (LittleEndian.encode 3 (4 + 24 * clauses.length)) =
          4 + 24 * clauses.length := by
        rw [LittleEndian.decode_encode]
        exact Nat.mod_eq_of_lt sized
      have count : LittleEndian.decode (LittleEndian.encode 3 (4 + 24 * clauses.length)) / 24 =
          clauses.length := by
        omega
      have length : (clauses.flatMap FatClause.encode).length =
          24 * (LittleEndian.decode (LittleEndian.encode 3 (4 + 24 * clauses.length)) / 24) := by
        rw [length_clauses FatClause.length_encode, count]
      have formed := IsSection.fat marked (isFat.mpr rfl) (LittleEndian.length_encode 3 _) length
      rwa [announced, count] at formed

theorem isChain {sections : List WrittenSection} (nonempty : sections ≠ []) :
    IsChain (sections.map shape) (encodeChain sections) := by
  induction sections with
  | nil => exact absurd rfl nonempty
  | cons first others ih =>
      cases others with
      | nil => exact .last (first.isSection false)
      | cons second rest => exact .more (first.isSection true) (ih (List.cons_ne_nil second rest))

def stored (written : WrittenSection) : Section := ⟨written.shape.isFat, written.clauses⟩

/-- Stored clauses are the written ones, wherever in the data the section stands. -/
theorem stored_encode (more : Bool) (written : WrittenSection) (before after : Bytes) :
    written.shape.stored (before ++ (written.encode more ++ after)) before.length =
      written.stored := by
  have start : (before ++ written.header more).length = before.length + 4 := by
    rw [List.length_append, length_header]
  have split : before ++ (written.encode more ++ after) =
      before ++ written.header more ++ (written.clauseBytes ++ after) := by
    simp only [encode, List.append_assoc]
  rw [SectionShape.stored, split, ← start]
  cases written with
  | small reserved clauses few =>
      exact congrArg _ (stored_clauses SmallClause.length_encode SmallClause.stored clauses _ after)
  | fat clauses sized =>
      exact congrArg _ (stored_clauses FatClause.length_encode FatClause.stored clauses _ after)

theorem storedSections_encodeChain (sections : List WrittenSection) (before : Bytes) :
    storedSections (before ++ encodeChain sections) before.length (sections.map shape) =
      sections.map stored := by
  induction sections generalizing before with
  | nil => rfl
  | cons first others ih =>
      cases others with
      | nil =>
          have only := first.stored_encode false before []
          rw [List.append_nil] at only
          exact congrArg (· :: []) only
      | cons second rest =>
          have later := ih (before ++ first.encode true)
          rw [List.length_append, (first.isSection true).length_eq, List.append_assoc] at later
          have chain : encodeChain (first :: second :: rest) =
              first.encode true ++ encodeChain (second :: rest) := rfl
          rw [List.map_cons, storedSections, chain, first.stored_encode true before, later]
          rfl

/-- Any order of small and fat sections. -/
theorem readChain_encodeChain {sections : List WrittenSection} (nonempty : sections ≠ []) :
    Section.readChain (encodeChain sections) = .ok (sections.map stored) := by
  have places := storedSections_encodeChain sections []
  rw [List.nil_append, List.length_nil] at places
  rw [(isChain nonempty).readChain, places]

theorem decodeClauses_encodeChain {sections : List WrittenSection} (nonempty : sections ≠ []) :
    decodeClauses (encodeChain sections) = .ok (sections.flatMap clauses) := by
  have listed : (sections.map stored).flatMap Section.clauses = sections.flatMap clauses := by
    rw [List.flatMap_map]
    rfl
  rw [decodeClauses, readChain_encodeChain nonempty, ← listed]
  rfl

end WrittenSection

/-! ## Records -/

/-- A chain of sections behind any code, under any fat header that announces it: the record is
written, read back with this span whatever bytes follow it, and lists the clauses of all sections in
order. -/
theorem Body.clauses_of_written {header : Header} {code : Bytes}
    {sections : List WrittenSection} (notTiny : header.isTiny = false)
    (valid : header.validate = .ok ()) (announced : header.hasSections = true)
    (size : code.length = header.codeSize.toNat) (nonempty : sections ≠ []) :
    ∃ bytes,
      Body.encode ⟨header, code, some (WrittenSection.encodeChain sections)⟩ = .ok bytes ∧
        (∀ rest, Body.parse (bytes ++ rest) =
          .ok ⟨header, code, some (WrittenSection.encodeChain sections)⟩) ∧
        Body.clauses ⟨header, code, some (WrittenSection.encodeChain sections)⟩ =
          .ok (sections.flatMap WrittenSection.clauses) := by
  have isHeader := IsHeader.fat (Header.isFat_of_validate notTiny valid)
  have chain := WrittenSection.isChain nonempty
  have record := isHeader.extended_record (isHeader.hasSections_iff.mp announced) size chain
  obtain ⟨bytes, encoded, rewritten, -⟩ := record.encode
  exact ⟨bytes, encoded, fun rest => Body.parse_iff_isRecord.mpr ⟨bytes, rest, rfl, rewritten⟩,
    WrittenSection.decodeClauses_encodeChain nonempty⟩

/-- A small section with one clause and a fat one whose clause has more flags than are kept. -/
def mixedSections : List WrittenSection :=
  [.small 0 [⟨2, 8, 0x1B, 0x23, 0x0A, 5⟩] (by decide),
    .fat [⟨0x00070001, 2, 3, 4, 5, 0x01000006⟩] (by decide)]

/-- Behind code that leaves a gap of three bytes. -/
theorem Body.clauses_of_written_mixed :
    Header.validate ⟨0x300B, 8, 1, 0⟩ = .ok () ∧ Header.hasSections ⟨0x300B, 8, 1, 0⟩ = true ∧
      ∃ bytes,
        Body.encode ⟨⟨0x300B, 8, 1, 0⟩, [0x2A], some (WrittenSection.encodeChain mixedSections)⟩ =
            .ok bytes ∧
          Body.parse (bytes ++ [0xCC, 0xCC]) =
            .ok ⟨⟨0x300B, 8, 1, 0⟩, [0x2A], some (WrittenSection.encodeChain mixedSections)⟩ ∧
          Body.clauses ⟨⟨0x300B, 8, 1, 0⟩, [0x2A],
              some (WrittenSection.encodeChain mixedSections)⟩ =
            .ok [⟨2, 8, 0x1B, 0x23, 0x0A, 5⟩, ⟨1, 2, 3, 4, 5, 0x01000006⟩] := by
  have valid : Header.validate ⟨0x300B, 8, 1, 0⟩ = .ok () := rfl
  have announced : Header.hasSections ⟨0x300B, 8, 1, 0⟩ = true := rfl
  have nonempty : mixedSections ≠ [] := List.cons_ne_nil _ _
  obtain ⟨bytes, encoded, parsed, clauses⟩ :=
    @Body.clauses_of_written _ [0x2A] _ rfl valid announced rfl nonempty
  exact ⟨valid, announced, bytes, encoded, parsed [0xCC, 0xCC], clauses⟩

end CilRecovery.Method
