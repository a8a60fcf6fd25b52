import CilRecovery.Proofs.Method.RoundTrip
import CilRecovery.Proofs.Reader.Refuses
import CilRecovery.Proofs.Reader.Relocation

/-!
# Reading records in place

A record is read where it lies in a buffer or cut out of it. The sections of a record in place are
aligned to the buffer, those of one that was cut out to its own start. So both ways agree at every
multiple of four, and everywhere on records that have no sections.
-/

set_option autoImplicit false

namespace CilRecovery.Method

open Reader (Relocates moveBehind)

variable {front buffer : Bytes} {position : Nat}

/-! ## Parts of a record -/

theorem Header.relocates_read : Relocates front read read := by
  refine Relocates.peekByte.bind fun first => ?_
  refine .ite ((Relocates.skip 1).bind fun _ => .check _) (.ite ?_ (.throw _))
  refine Relocates.uint16.bind fun flags => ?_
  refine Relocates.uint16.bind fun maxStack => ?_
  refine Relocates.uint32.bind fun codeSize => ?_
  refine Relocates.uint32.bind fun localSignature => ?_
  exact (Relocates.check _).bind fun _ => .pure _

section

variable (aligned : front.length % 4 = 0)

include aligned

theorem Section.relocates_skipOne : Relocates front skipOne skipOne := by
  refine (Relocates.align (by decide) aligned).bind fun _ => ?_
  -- A fat section is read again from its start, which lies elsewhere in the larger buffer.
  refine .position fun start => Relocates.byte.bind fun kind => ?_
  refine (Relocates.check _).bind fun _ => .ite ?_ ?_
  · refine (Relocates.seek start).bind fun _ => ?_
    refine Relocates.uint32.bind fun word => ?_
    exact (Relocates.skip _).bind fun _ => .pure _
  · refine Relocates.byte.bind fun size => ?_
    exact (Relocates.skip _).bind fun _ => .pure _

theorem Section.relocates_skipAll (fuel : Nat) : Relocates front (skipAll fuel) (skipAll fuel) := by
  induction fuel with
  | zero => exact .throw _
  | succ fuel ih => exact (Section.relocates_skipOne aligned).bind fun more => .ite ih (.pure _)

theorem Section.relocates_skipChain : Relocates front skipChain skipChain := by
  refine (Relocates.align (by decide) aligned).bind fun _ => ?_
  refine .position fun start => Relocates.left.bind fun left => ?_
  refine (Section.relocates_skipAll aligned (left + 1)).bind fun _ => ?_
  refine .position fun stop => (Relocates.seek start).bind fun _ => ?_
  have same : front.length + stop - (front.length + start) = stop - start :=
    Nat.add_sub_add_left _ _ _
  rw [same]
  exact .take _

end

private def readBehind (header : Header) : Reader Body := do
  let code ← Reader.take header.codeSize.toNat
  if header.hasSections then
    let span ← Section.skipChain
    return ⟨header, code, some span⟩
  else
    return ⟨header, code, none⟩

private theorem read_eq : Body.read = Reader.atomically (Header.read >>= readBehind) := rfl

private theorem relocates_readBehind {header : Header}
    (fits : header.hasSections = true → front.length % 4 = 0) :
    Relocates front (readBehind header) (readBehind header) := by
  refine (Relocates.take _).bind fun code => ?_
  by_cases announced : header.hasSections = true
  · simp only [announced, if_true]
    exact (Section.relocates_skipChain (fits announced)).bind fun span => .pure _
  · simp only [announced]
    exact .pure _

/-! ## Records -/

/-- No header at the start of the data announces sections. -/
def Body.Unextended (data : Bytes) : Prop :=
  ∀ header moved, Header.read (Cursor.start data) = .ok header moved → header.hasSections = false

/-- What reading at a position comes to if the record cut out of the buffer there is parsed as
given. A record that is refused is not moved over. -/
def Body.inPlace (buffer : Bytes) (position : Nat) :
    Except Error Body → EStateM.Result Error Cursor Body
  | .ok body => .ok body ⟨buffer, position + body.totalSize⟩
  | .error error => .error error ⟨buffer, position⟩

theorem Body.read_start (data : Bytes) :
    Body.read (Cursor.start data) = Body.inPlace data 0 (Body.parse data) := by
  cases read : Body.read (Cursor.start data) with
  | ok body moved =>
      have parsed : Body.parse data = .ok body := by
        simp only [Body.parse, Reader.decode, read]
      obtain ⟨span, rest, _, record, rfl⟩ := (Body.accepts_read [] data body moved).mp read
      rw [parsed, Body.inPlace, ← record.length_eq]
      rfl
  | error error stopped =>
      have refused : Body.parse data = .error error := by
        simp only [Body.parse, Reader.decode, read]
      rw [refused, (Reader.atomically_eq_error_iff.mp read).2]
      rfl

theorem Body.moveBehind_inPlace (rest : Bytes) (result : Except Error Body) :
    moveBehind front (Body.inPlace rest 0 result) =
      Body.inPlace (front ++ rest) front.length result := by
  cases result with
  | ok body => simp only [Body.inPlace, moveBehind, Cursor.behind, Nat.zero_add]
  | error error => rfl

theorem Body.read_behind {rest : Bytes} (fits : front.length % 4 = 0 ∨ Body.Unextended rest) :
    Body.read ⟨front ++ rest, front.length⟩ =
      Body.inPlace (front ++ rest) front.length (Body.parse rest) := by
  rw [← Body.moveBehind_inPlace, ← Body.read_start, read_eq]
  refine @Relocates.atomically_at _ front _ _ (Cursor.start rest) ?_
  refine Relocates.bind_at (Header.relocates_read _) fun header moved found => ?_
  refine relocates_readBehind (fun announced => ?_) moved
  cases fits with
  | inl aligned => exact aligned
  | inr unextended => exact absurd announced (Bool.eq_false_iff.mp (unextended header moved found))

/-- A position past the end is refused like an empty buffer, without a move. -/
theorem Body.read_past_end (past : buffer.length ≤ position) :
    Body.read ⟨buffer, position⟩ = .error .outOfBounds ⟨buffer, position⟩ := by
  have ended : Reader.peekByte ⟨buffer, position⟩ = .error .outOfBounds ⟨buffer, position⟩ := by
    simp only [Reader.peekByte, List.getElem?_eq_none past]
  have refused : (Header.read >>= readBehind) ⟨buffer, position⟩ =
      .error .outOfBounds ⟨buffer, position⟩ :=
    EState.bind_of_error (EState.bind_of_error ended)
  exact Reader.atomically_eq_error_iff.mpr ⟨⟨_, refused⟩, rfl⟩

/-- Only the alignment of sections can see the position, so a multiple of four or a record without
sections is read as alone. -/
theorem Body.read_eq_inPlace
    (fits : position % 4 = 0 ∨ Body.Unextended (buffer.drop position)) :
    Body.read ⟨buffer, position⟩ =
      Body.inPlace buffer position (Body.parse (buffer.drop position)) := by
  by_cases inside : position ≤ buffer.length
  · have front : (buffer.take position).length = position := List.length_take_of_le inside
    have moved := @Body.read_behind (buffer.take position) _ (front.symm ▸ fits)
    rwa [front, List.take_append_drop] at moved
  · have past : buffer.length ≤ position := Nat.le_of_not_le inside
    rw [Body.read_past_end past, List.drop_of_length_le past]
    rfl

/-- Without sections, nothing of a record depends on where it lies. -/
theorem IsRecord.elsewhere {position' : Nat} {span : Bytes} {body : Body}
    (record : IsRecord position span body) (plain : body.sections = none) :
    IsRecord position' span body := by
  cases record with
  | plain isHeader absent length => exact .plain isHeader absent length
  | extended => cases plain

theorem Body.read_eq_ok_iff {body : Body} {moved : Cursor} (plain : body.sections = none) :
    Body.read ⟨buffer, position⟩ = .ok body moved ↔
      Body.parse (buffer.drop position) = .ok body ∧
        moved = ⟨buffer, position + body.totalSize⟩ := by
  by_cases inside : position ≤ buffer.length
  · rw [Body.accepts_read.at_place inside, Body.parse_iff_isRecord]
    constructor
    · intro ⟨span, rest, split, record, ended⟩
      have start : IsRecord 0 span body := record.elsewhere plain
      exact ⟨⟨span, rest, split, start⟩, start.length_eq ▸ ended⟩
    · intro ⟨⟨span, rest, split, record⟩, ended⟩
      exact ⟨span, rest, split, record.elsewhere plain, record.length_eq ▸ ended⟩
  · have past : buffer.length ≤ position := Nat.le_of_not_le inside
    rw [Body.read_past_end past, List.drop_of_length_le past]
    constructor
    · intro read
      cases read
    · intro ⟨parsed, _⟩
      cases parsed

/-- At a multiple of four, reading in place comes to what parsing the rest of the buffer comes to:
the same body, behind which the cursor then stands, or the same error and no move. Elsewhere this
holds as well where no header announces sections, and a body without them is read in place if and
only if it is parsed alone. -/
theorem Body.read_eq_parse_alone (buffer : Bytes) (position : Nat) :
    (position % 4 = 0 →
      Body.read ⟨buffer, position⟩ =
        Body.inPlace buffer position (Body.parse (buffer.drop position))) ∧
    (Body.Unextended (buffer.drop position) →
      Body.read ⟨buffer, position⟩ =
        Body.inPlace buffer position (Body.parse (buffer.drop position))) ∧
    ∀ (body : Body) (moved : Cursor), body.sections = none →
      (Body.read ⟨buffer, position⟩ = .ok body moved ↔
        Body.parse (buffer.drop position) = .ok body ∧
          moved = ⟨buffer, position + body.totalSize⟩) := by
  refine ⟨fun aligned => ?_, fun unextended => ?_, fun body moved plain => ?_⟩
  · exact Body.read_eq_inPlace (.inl aligned)
  · exact Body.read_eq_inPlace (.inr unextended)
  · exact Body.read_eq_ok_iff plain

/-- A record with a gap and a section behind four bytes, and a byte behind it. -/
private def behindFour : Bytes :=
  [0xCC, 0xCC, 0xCC, 0xCC, 0x1B, 0x30, 1, 0, 1, 0, 0, 0, 0, 0, 0, 0, 0x2A, 7, 8, 9, 0x01, 4, 0, 0,
    0xCC]

theorem Body.read_eq_parse_alone_mixed :
    (4 % 4 = 0 ∧
      Body.read ⟨behindFour, 4⟩ =
        .ok ⟨⟨0x301B, 1, 1, 0⟩, [0x2A], some [0x01, 4, 0, 0]⟩ ⟨behindFour, 24⟩) ∧
    (Body.Unextended [0x0A, 0x17] ∧
      Body.read ⟨[0xCC, 0x0A, 0x17], 1⟩ = .error .outOfBounds ⟨[0xCC, 0x0A, 0x17], 1⟩) ∧
    Body.parse [0x0A, 0x17, 0x2A] = .ok ⟨⟨2, 8, 2, 0⟩, [0x17, 0x2A], none⟩ ∧
      Body.read ⟨[0xCC, 0x0A, 0x17, 0x2A], 1⟩ =
        .ok ⟨⟨2, 8, 2, 0⟩, [0x17, 0x2A], none⟩ ⟨[0xCC, 0x0A, 0x17, 0x2A], 4⟩ := by
  have unextended : Body.Unextended [0x0A, 0x17] := by
    intro header moved found
    cases found
    rfl
  have parsed : Body.parse [0x0A, 0x17, 0x2A] = .ok ⟨⟨2, 8, 2, 0⟩, [0x17, 0x2A], none⟩ := rfl
  refine ⟨⟨rfl, ?_⟩, ⟨unextended, ?_⟩, parsed, ?_⟩
  · exact (Body.read_eq_parse_alone behindFour 4).1 rfl
  · exact (Body.read_eq_parse_alone [0xCC, 0x0A, 0x17] 1).2.1 unextended
  · exact ((Body.read_eq_parse_alone [0xCC, 0x0A, 0x17, 0x2A] 1).2.2 _ _ rfl).mpr ⟨parsed, rfl⟩

/-- One byte behind a multiple of four, the gap in front of the section is shorter in place. -/
example :
    Body.verify (behindFour.drop 4) = true ∧
      Body.read ⟨0xCC :: behindFour, 5⟩ =
        .error (.invalidBody .sectionBits) ⟨0xCC :: behindFour, 5⟩ :=
  ⟨rfl, rfl⟩

end CilRecovery.Method
