import CilRecovery.Proofs.Method.RoundTrip

/-!
# The clauses of a record

A record is measured by the sizes of its sections, and its clauses are read field by field. The two
walks agree: every clause that was skipped is read from its own place, and the second walk ends
where the span of sections ends.
-/

set_option autoImplicit false

namespace CilRecovery

/-! ## Reading at a place -/

/-- The number that `width` bytes of the data hold from an offset on. -/
def Bytes.number (data : Bytes) (offset width : Nat) : Nat :=
  LittleEndian.decode ((data.drop offset).take width)

theorem Bytes.number_lt {data : Bytes} {offset width : Nat}
    (inside : offset + width ≤ data.length) :
    data.number offset width < LittleEndian.capacity width := by
  have bound := LittleEndian.decode_lt ((data.drop offset).take width)
  rwa [List.length_take_of_le (by rw [List.length_drop]; omega)] at bound

theorem Bytes.number_append (before rest : Bytes) (offset width : Nat) :
    (before ++ rest).number (before.length + offset) width = rest.number offset width := by
  rw [number, number, List.drop_length_add_append]

namespace Reader

variable {α : Type} {data : Bytes} {start : Nat}

theorem unsigned_at {width : Nat} (inside : start + width ≤ data.length) :
    unsigned width ⟨data, start⟩ = .ok (data.number start width) ⟨data, start + width⟩ := by
  have taken : take width ⟨data, start⟩ =
      .ok ((data.drop start).take width) ⟨data, start + width⟩ := by
    simp only [take, Bytes.slice?, if_pos inside]
  exact EState.bind_of_ok taken

theorem byte_at (inside : start + 1 ≤ data.length) :
    byte ⟨data, start⟩ = .ok (.ofNat (data.number start 1)) ⟨data, start + 1⟩ :=
  EState.bind_of_ok (unsigned_at inside)

theorem uint16_at (inside : start + 2 ≤ data.length) :
    uint16 ⟨data, start⟩ = .ok (.ofNat (data.number start 2)) ⟨data, start + 2⟩ :=
  EState.bind_of_ok (unsigned_at inside)

theorem uint32_at (inside : start + 4 ≤ data.length) :
    uint32 ⟨data, start⟩ = .ok (.ofNat (data.number start 4)) ⟨data, start + 4⟩ :=
  EState.bind_of_ok (unsigned_at inside)

/-- Runs of a reader that moves by `stride` give its values at places one `stride` apart. -/
theorem times_at {reader : Reader α} {value : Nat → α} {stride : Nat}
    (reads : ∀ place, place + stride ≤ data.length →
      reader ⟨data, place⟩ = .ok (value place) ⟨data, place + stride⟩)
    (count : Nat) (inside : start + stride * count ≤ data.length) :
    times reader count ⟨data, start⟩ =
      .ok ((List.range' start count stride).map value) ⟨data, start + stride * count⟩ := by
  induction count generalizing start with
  | zero => rfl
  | succ count ih =>
      rw [Nat.mul_succ, ← Nat.add_assoc, Nat.add_right_comm] at inside ⊢
      have first := reads start (by omega)
      have others := ih inside
      rw [times, EState.bind_of_ok first, EState.bind_of_ok others]
      rfl

end Reader

namespace Method

/-! ## Clauses -/

/-- The clause at a place, field by field. Fields of a small clause take 16, 16, 8, 16, 8 and 32
bits, those of a fat one 32 bits each, and of its flags the low half counts. -/
def Clause.stored (isFat : Bool) (data : Bytes) (place : Nat) : Clause :=
  if isFat then
    { flags := .ofNat (data.number place 4)
      tryOffset := .ofNat (data.number (place + 4) 4)
      tryLength := .ofNat (data.number (place + 8) 4)
      handlerOffset := .ofNat (data.number (place + 12) 4)
      handlerLength := .ofNat (data.number (place + 16) 4)
      filterOffset := .ofNat (data.number (place + 20) 4) }
  else
    { flags := .ofNat (data.number place 2)
      tryOffset := .ofNat (data.number (place + 2) 2)
      tryLength := .ofNat (data.number (place + 4) 1)
      handlerOffset := .ofNat (data.number (place + 5) 2)
      handlerLength := .ofNat (data.number (place + 7) 1)
      filterOffset := .ofNat (data.number (place + 8) 4) }

private theorem low_half (number : Nat) : (UInt32.ofNat number).toUInt16 = .ofNat number := by
  apply UInt16.toNat_inj.mp
  rw [UInt32.toNat_toUInt16, UInt32.toNat_ofNat', UInt16.toNat_ofNat']
  omega

private theorem widen_half {number : Nat} (small : number < LittleEndian.capacity 2) :
    (UInt16.ofNat number).toUInt32 = .ofNat number := by
  have limit : LittleEndian.capacity 2 = 65536 := rfl
  apply UInt32.toNat_inj.mp
  rw [UInt16.toNat_toUInt32, UInt32.toNat_ofNat', UInt16.toNat_ofNat']
  omega

private theorem widen_byte {number : Nat} (small : number < LittleEndian.capacity 1) :
    (UInt8.ofNat number).toUInt32 = .ofNat number := by
  have limit : LittleEndian.capacity 1 = 256 := rfl
  apply UInt32.toNat_inj.mp
  rw [UInt8.toNat_toUInt32, UInt32.toNat_ofNat', UInt8.toNat_ofNat']
  omega

theorem Clause.readFat_at {data : Bytes} {place : Nat} (inside : place + 24 ≤ data.length) :
    Clause.readFat ⟨data, place⟩ = .ok (.stored true data place) ⟨data, place + 24⟩ := by
  rw [readFat, EState.bind_of_ok (Reader.uint32_at (by omega)),
    EState.bind_of_ok (Reader.uint32_at (by omega)),
    EState.bind_of_ok (Reader.uint32_at (by omega)),
    EState.bind_of_ok (Reader.uint32_at (by omega)),
    EState.bind_of_ok (Reader.uint32_at (by omega)),
    EState.bind_of_ok (Reader.uint32_at (by omega)), low_half]
  rfl

theorem Clause.readSmall_at {data : Bytes} {place : Nat} (inside : place + 12 ≤ data.length) :
    Clause.readSmall ⟨data, place⟩ = .ok (.stored false data place) ⟨data, place + 12⟩ := by
  rw [readSmall, EState.bind_of_ok (Reader.uint16_at (by omega)),
    EState.bind_of_ok (Reader.uint16_at (by omega)),
    EState.bind_of_ok (Reader.byte_at (by omega)),
    EState.bind_of_ok (Reader.uint16_at (by omega)),
    EState.bind_of_ok (Reader.byte_at (by omega)),
    EState.bind_of_ok (Reader.uint32_at (by omega)),
    widen_half (Bytes.number_lt (by omega)), widen_byte (Bytes.number_lt (by omega)),
    widen_half (Bytes.number_lt (by omega)), widen_byte (Bytes.number_lt (by omega))]
  rfl

/-! ## Sections -/

def SectionShape.stride (shape : SectionShape) : Nat := if shape.isFat then 24 else 12

def SectionShape.size (shape : SectionShape) : Nat := 4 + shape.stride * shape.clauses

/-- The section that starts at a place, its clauses one `stride` apart. -/
def SectionShape.stored (shape : SectionShape) (data : Bytes) (place : Nat) : Section :=
  ⟨shape.isFat, (List.range' (place + 4) shape.clauses shape.stride).map
    (Clause.stored shape.isFat data)⟩

def storedSections (data : Bytes) : (place : Nat) → List SectionShape → List Section
  | _, [] => []
  | place, shape :: shapes =>
      shape.stored data place :: storedSections data (place + shape.size) shapes

theorem IsSection.length_eq {isFat more : Bool} {clauses : Nat} {span : Bytes}
    (section_ : IsSection isFat more clauses span) :
    span.length = SectionShape.size ⟨isFat, clauses⟩ := by
  cases section_ with
  | small _ _ length =>
      simp only [List.length_cons, length, SectionShape.size, SectionShape.stride,
        Bool.false_eq_true, if_false]
      omega
  | fat _ _ width length =>
      simp only [List.length_cons, List.length_append, width, length, SectionShape.size,
        SectionShape.stride, if_true]
      omega

private def readFatFrom (kind : UInt8) : Reader (Section × Bool) := do
  let word ← Reader.uint32
  let clauses ← Reader.times Clause.readFat (word.toNat / 0x100 / Clause.fatSize)
  return (⟨true, clauses⟩, kind &&& Section.moreFollow != 0)

private def readSmallFrom (kind : UInt8) : Reader (Section × Bool) := do
  let size ← Reader.byte
  Reader.leap 2
  let clauses ← Reader.times Clause.readSmall (size.toNat / Clause.smallSize)
  return (⟨false, clauses⟩, kind &&& Section.moreFollow != 0)

private theorem readOne_cons {before others : Bytes} {kind : UInt8}
    (aligned : before.length % 4 = 0) (marked : IsSectionKind kind) :
    Section.readOne ⟨before ++ kind :: others, before.length⟩ =
      if kind &&& Section.fatForm != 0 then
        readFatFrom kind ⟨before ++ kind :: others, before.length⟩
      else readSmallFrom kind ⟨before ++ kind :: others, before.length + 1⟩ := by
  have gap := paddingTo_eq_zero aligned
  have read : Reader.byte ⟨before ++ kind :: others, before.length⟩ =
      .ok kind ⟨before ++ kind :: others, before.length + 1⟩ := Reader.Reads.byte kind before others
  have sought : Reader.seek before.length ⟨before ++ kind :: others, before.length + 1⟩ =
      .ok () ⟨before ++ kind :: others, before.length⟩ := by
    simp [Reader.seek]
  simp only [Section.readOne, bind, EStateM.bind, Reader.position, Reader.leap, gap, Nat.add_zero,
    read, Reader.check, checkKind_eq_ok_iff.mpr marked]
  by_cases isFat : (kind &&& Section.fatForm != 0) = true
  · simp only [if_pos isFat, EStateM.bind, sought]
    rfl
  · simp only [if_neg isFat]
    rfl

private theorem readFatFrom_at {data : Bytes} {start size : Nat} (kind : UInt8)
    (announced : data.number start 4 / 256 = size)
    (inside : start + 4 + 24 * (size / 24) ≤ data.length) :
    readFatFrom kind ⟨data, start⟩ =
      .ok (⟨true, (List.range' (start + 4) (size / 24) 24).map (Clause.stored true data)⟩,
        kind &&& 0x80 != 0) ⟨data, start + 4 + 24 * (size / 24)⟩ := by
  have word : (UInt32.ofNat (data.number start 4)).toNat = data.number start 4 :=
    UInt32.toNat_ofNat_of_lt' (Bytes.number_lt (by omega))
  have clauses := Reader.times_at (fun _ => Clause.readFat_at) (size / 24) inside
  rw [readFatFrom, EState.bind_of_ok (Reader.uint32_at (by omega)), word, announced,
    Clause.fatSize, EState.bind_of_ok clauses]
  rfl

private theorem readSmallFrom_at {data : Bytes} {start size : Nat} (kind : UInt8)
    (announced : data.number start 1 = size)
    (inside : start + 3 + 12 * (size / 12) ≤ data.length) :
    readSmallFrom kind ⟨data, start⟩ =
      .ok (⟨false, (List.range' (start + 3) (size / 12) 12).map (Clause.stored false data)⟩,
        kind &&& 0x80 != 0) ⟨data, start + 3 + 12 * (size / 12)⟩ := by
  have byte : (UInt8.ofNat (data.number start 1)).toNat = data.number start 1 :=
    toNat_byte (Bytes.number_lt (by omega))
  have leapt : Reader.leap 2 ⟨data, start + 1⟩ = .ok () ⟨data, start + 3⟩ := rfl
  have clauses := Reader.times_at (fun _ => Clause.readSmall_at) (size / 12) inside
  rw [readSmallFrom, EState.bind_of_ok (Reader.byte_at (by omega)), EState.bind_of_ok leapt, byte,
    announced, Clause.smallSize, EState.bind_of_ok clauses]
  rfl

/-- An aligned section is read with the clauses that its size announces, from their places. -/
theorem IsSection.readOne {isFat more : Bool} {clauses : Nat} {before span : Bytes}
    (section_ : IsSection isFat more clauses span) (aligned : before.length % 4 = 0)
    (after : Bytes) :
    Section.readOne ⟨before ++ (span ++ after), before.length⟩ =
      .ok (SectionShape.stored ⟨isFat, clauses⟩ (before ++ (span ++ after)) before.length, more)
        ⟨before ++ (span ++ after), before.length + span.length⟩ := by
  cases section_ with
  | @small kind size body marked isSmall length =>
      have announced : Bytes.number (before ++ (kind :: size :: body ++ after))
          (before.length + 1) 1 = size.toNat := by
        rw [Bytes.number_append]
        simp [Bytes.number, LittleEndian.decode]
      have inside : before.length + 1 + 3 + 12 * (size.toNat / 12) ≤
          (before ++ (kind :: size :: body ++ after)).length := by
        simp only [List.length_append, List.length_cons, length]
        omega
      have stop : before.length + 1 + 3 + 12 * (size.toNat / 12) =
          before.length + (kind :: size :: body).length := by
        simp only [List.length_cons, length]
        omega
      rw [List.cons_append, readOne_cons aligned marked,
        if_neg (by simp [Section.fatForm, isSmall])]
      rw [List.cons_append] at announced inside
      rw [readSmallFrom_at kind announced inside, stop]
      rfl
  | @fat kind size body marked isFat width length =>
      have announced : Bytes.number (before ++ (kind :: (size ++ body) ++ after))
          before.length 4 / 256 = LittleEndian.decode size := by
        have small := kind.toNat_lt
        rw [Bytes.number, List.drop_left, List.cons_append, List.append_assoc,
          List.take_succ_cons, List.take_left' width, LittleEndian.decode]
        omega
      have inside : before.length + 4 + 24 * (LittleEndian.decode size / 24) ≤
          (before ++ (kind :: (size ++ body) ++ after)).length := by
        simp only [List.length_append, List.length_cons, width, length]
        omega
      have stop : before.length + 4 + 24 * (LittleEndian.decode size / 24) =
          before.length + (kind :: (size ++ body)).length := by
        simp only [List.length_append, List.length_cons, width, length]
        omega
      rw [List.cons_append, readOne_cons aligned marked, if_pos (by simp [Section.fatForm, isFat])]
      rw [List.cons_append] at announced inside
      rw [readFatFrom_at kind announced inside, stop]
      rfl

/-- A small section without clauses is read by its first two bytes, whatever comes behind them. -/
theorem Section.readOne_bare {before others : Bytes} {kind size : UInt8}
    (aligned : before.length % 4 = 0) (marked : IsSectionKind kind) (isSmall : kind &&& 0x40 = 0)
    (bare : size.toNat / 12 = 0) :
    Section.readOne ⟨before ++ kind :: size :: others, before.length⟩ =
      .ok (⟨false, []⟩, kind &&& 0x80 != 0)
        ⟨before ++ kind :: size :: others, before.length + 4⟩ := by
  have read : Reader.byte ⟨before ++ kind :: size :: others, before.length + 1⟩ =
      .ok size ⟨before ++ kind :: size :: others, before.length + 2⟩ := by
    simpa using Reader.Reads.byte size (before ++ [kind]) others
  rw [readOne_cons aligned marked, if_neg (by simp [Section.fatForm, isSmall]), readSmallFrom,
    EState.bind_of_ok read, Clause.smallSize, bare]
  rfl

theorem Section.readAll_last {fuel : Nat} {cursor moved : Cursor} {first : Section}
    (read : Section.readOne cursor = .ok (first, false) moved) :
    Section.readAll (fuel + 1) cursor = .ok [first] moved := by
  rw [Section.readAll, EState.bind_of_ok read]
  rfl

theorem Section.readAll_more {fuel : Nat} {cursor moved final : Cursor} {first : Section}
    {others : List Section} (read : Section.readOne cursor = .ok (first, true) moved)
    (continued : Section.readAll fuel moved = .ok others final) :
    Section.readAll (fuel + 1) cursor = .ok (first :: others) final := by
  rw [Section.readAll, EState.bind_of_ok read]
  exact EState.bind_of_ok continued

/-- The chain is read in place. The induction is on the sections, the offset before them being a
multiple of four. -/
theorem IsChain.readAll {shapes : List SectionShape} {span : Bytes} (chain : IsChain shapes span)
    {before : Bytes} (aligned : before.length % 4 = 0) {fuel : Nat}
    (enough : shapes.length ≤ fuel) (after : Bytes) :
    Section.readAll fuel ⟨before ++ (span ++ after), before.length⟩ =
      .ok (storedSections (before ++ (span ++ after)) before.length shapes)
        ⟨before ++ (span ++ after), before.length + span.length⟩ := by
  induction chain generalizing before fuel with
  | last section_ =>
      obtain _ | fuel := fuel
      · cases enough
      exact Section.readAll_last (section_.readOne aligned after)
  | @more isFat clauses shapes span rest section_ _ ih =>
      obtain _ | fuel := fuel
      · cases enough
      -- A section keeps the alignment, so no later one follows a gap.
      have kept := section_.length_mod
      have aligned' : (before ++ span).length % 4 = 0 := by
        rw [List.length_append]
        omega
      have others := ih aligned' (Nat.le_of_succ_le_succ enough)
      simp only [List.length_append, List.append_assoc] at others ⊢
      rw [storedSections, ← section_.length_eq, ← Nat.add_assoc]
      exact Section.readAll_more (section_.readOne aligned (rest ++ after)) others

def clauseCount : List SectionShape → Nat
  | [] => 0
  | shape :: shapes => shape.clauses + clauseCount shapes

theorem length_storedSections (data : Bytes) (place : Nat) (shapes : List SectionShape) :
    ((storedSections data place shapes).flatMap Section.clauses).length = clauseCount shapes := by
  induction shapes generalizing place with
  | nil => rfl
  | cons shape shapes ih =>
      rw [storedSections, List.flatMap_cons, List.length_append, ih, SectionShape.stored,
        List.length_map, List.length_range', clauseCount]

theorem IsChain.readAll_span {shapes : List SectionShape} {span : Bytes}
    (chain : IsChain shapes span) :
    Section.readAll (span.length + 1) (Cursor.start span) =
      .ok (storedSections span 0 shapes) ⟨span, span.length⟩ := by
  have enough := Nat.le_succ_of_le chain.length_le
  have read := @IsChain.readAll _ _ chain [] rfl _ enough []
  rwa [List.append_nil, List.nil_append, List.length_nil, Nat.zero_add] at read

theorem IsChain.readChain {shapes : List SectionShape} {span : Bytes}
    (chain : IsChain shapes span) :
    Section.readChain span = .ok (storedSections span 0 shapes) := by
  rw [Section.readChain, Reader.decode, chain.readAll_span]

/-- What the grammar lists is what reading lists, in the same order. -/
theorem IsChain.decodeClauses {shapes : List SectionShape} {span : Bytes}
    (chain : IsChain shapes span) :
    Method.decodeClauses span = .ok ((storedSections span 0 shapes).flatMap Section.clauses) := by
  rw [Method.decodeClauses, chain.readChain]
  rfl

/-! ## Records -/

/-- The clauses of every record that is parsed can be read: none if it has no sections, and
otherwise as many as the sizes of its sections announce, in order and each from its own place in the
span, where reading stops at the end of the span. -/
theorem Body.clauses_of_parse {data : Bytes} {body : Body} (parsed : Body.parse data = .ok body) :
    (body.sections = none ∧ body.clauses = .ok []) ∨
      ∃ span shapes, body.sections = some span ∧ IsChain shapes span ∧
        body.clauses = .ok ((storedSections span 0 shapes).flatMap Section.clauses) ∧
        ((storedSections span 0 shapes).flatMap Section.clauses).length = clauseCount shapes ∧
        Section.readAll (span.length + 1) (Cursor.start span) =
          .ok (storedSections span 0 shapes) ⟨span, span.length⟩ := by
  obtain ⟨_, _, _, record⟩ := Body.parse_iff_isRecord.mp parsed
  cases record with
  | plain => exact .inl ⟨rfl, rfl⟩
  | @extended _ _ _ span _ shapes _ _ _ _ _ chain =>
      exact .inr ⟨span, shapes, rfl, chain, chain.decodeClauses, length_storedSections span 0 shapes,
        chain.readAll_span⟩

/-- A small section of size 17 and a fat one of size 30, each with one clause. -/
def mixedChain : Bytes :=
  [0x81, 17, 9, 9, 2, 0, 8, 0, 0x1B, 0x23, 0, 0x0A, 5, 0, 0, 0,
    0x41, 30, 0, 0, 1, 0, 1, 0, 2, 0, 0, 0, 3, 0, 0, 0, 4, 0, 0, 0, 5, 0, 0, 0, 6, 0, 0, 1]

/-- Sizes that are no multiples of a clause, behind code that needs a gap. -/
theorem Body.clauses_of_parse_mixed :
    Body.parse ([0x0B, 0x30, 8, 0, 1, 0, 0, 0, 0, 0, 0, 0, 0x2A, 7, 7, 7] ++ mixedChain) =
        .ok ⟨⟨0x300B, 8, 1, 0⟩, [0x2A], some mixedChain⟩ ∧
      Body.clauses ⟨⟨0x300B, 8, 1, 0⟩, [0x2A], some mixedChain⟩ =
        .ok [⟨2, 8, 0x1B, 0x23, 0x0A, 5⟩, ⟨1, 2, 3, 4, 5, 0x01000006⟩] ∧
      ∃ shapes, IsChain shapes mixedChain ∧ clauseCount shapes = 2 ∧
        Section.readAll (mixedChain.length + 1) (Cursor.start mixedChain) =
          .ok (storedSections mixedChain 0 shapes) ⟨mixedChain, 44⟩ := by
  have parsed :
      Body.parse ([0x0B, 0x30, 8, 0, 1, 0, 0, 0, 0, 0, 0, 0, 0x2A, 7, 7, 7] ++ mixedChain) =
        .ok ⟨⟨0x300B, 8, 1, 0⟩, [0x2A], some mixedChain⟩ := rfl
  have clauses : Body.clauses ⟨⟨0x300B, 8, 1, 0⟩, [0x2A], some mixedChain⟩ =
      .ok [⟨2, 8, 0x1B, 0x23, 0x0A, 5⟩, ⟨1, 2, 3, 4, 5, 0x01000006⟩] := rfl
  rcases Body.clauses_of_parse parsed with
    ⟨absent, -⟩ | ⟨span, shapes, present, chain, read, count, stop⟩
  · cases absent
  · cases present
    have same := Except.ok.inj (read.symm.trans clauses)
    rw [same] at count
    exact ⟨parsed, clauses, shapes, chain, count.symm, stop⟩

end Method

end CilRecovery
