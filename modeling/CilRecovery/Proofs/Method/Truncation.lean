import CilRecovery.Proofs.Method.RoundTrip
import CilRecovery.Proofs.Reader.Truncation

/-!
# Method records are self-delimiting

A record tells where it ends. Whatever follows it makes no difference, and wherever it is cut off,
reading it fails for want of data and for no other reason.
-/

set_option autoImplicit false

namespace CilRecovery.Method

open Reader (Follows)

/-! ## Reading what is cut short -/

theorem Header.follows_read : Follows read read := by
  refine Follows.peekByte.bind fun first => ?_
  refine .ite ((Follows.skip 1).bind fun _ => .check _) (.ite ?_ (.throw _ _))
  refine Follows.uint16.bind fun flags => ?_
  refine Follows.uint16.bind fun maxStack => ?_
  refine Follows.uint32.bind fun codeSize => ?_
  refine Follows.uint32.bind fun localSignature => ?_
  exact (Follows.check _).bind fun _ => .pure _

theorem Section.follows_skipOne : Follows skipOne skipOne := by
  refine (Follows.align 4 (by decide)).bind fun _ => ?_
  refine Follows.position.bind fun start => ?_
  refine Follows.byte.bind fun kind => ?_
  refine (Follows.check _).bind fun _ => .ite ?_ ?_
  · refine (Follows.seek start).bind fun _ => ?_
    refine Follows.uint32.bind fun word => ?_
    exact (Follows.skip _).bind fun _ => .pure _
  · refine Follows.byte.bind fun size => ?_
    exact (Follows.skip _).bind fun _ => .pure _

/-- A walk without fuel stops as if the data had ended, so any two walks can be compared. -/
theorem Section.follows_skipAll (few many : Nat) : Follows (skipAll few) (skipAll many) := by
  induction many generalizing few with
  | zero => exact .throw _ _
  | succ many ih =>
      have fuelled (few : Nat) : Follows (skipAll (few + 1)) (skipAll (many + 1)) :=
        Section.follows_skipOne.bind fun more => .ite (ih few) (.pure _)
      cases few with
      | zero => exact (fuelled 0).exhausted
      | succ few => exact fuelled few

theorem Section.follows_skipChain : Follows skipChain skipChain := by
  refine (Follows.align 4 (by decide)).bind fun _ => ?_
  refine Follows.position.bind fun start => .left fun few many => ?_
  refine (Section.follows_skipAll (few + 1) (many + 1)).bind fun _ => ?_
  refine Follows.position.bind fun stop => ?_
  exact (Follows.seek start).bind fun _ => .take _

/-- On shorter data the record is the same or the data runs out: the reader never takes another way.
-/
theorem Body.follows_read : Follows read read := by
  refine .atomically (Header.follows_read.bind fun header => ?_)
  refine (Follows.take _).bind fun code => ?_
  exact .ite (Section.follows_skipChain.bind fun span => .pure _) (.pure _)

/-! ## Records -/

/-- Every proper beginning of a record is refused because it ends. -/
theorem IsRecord.parse_take {span : Bytes} {body : Body} (record : IsRecord 0 span body)
    {count : Nat} (short : count < span.length) :
    Body.parse (span.take count) = .error .outOfBounds := by
  have whole : Body.read ⟨span.take count ++ span.drop count, 0⟩ =
      .ok body ⟨span, span.length⟩ := by
    have read := Body.accepts_read.reads [] record []
    rw [List.append_nil, List.nil_append, List.length_nil, Nat.zero_add] at read
    rw [List.take_append_drop]
    exact read
  obtain ⟨-, same | ⟨stopped, failed⟩⟩ := Body.follows_read _ _ _ _ _ whole
  · -- A success on the beginning would take a span as long as the whole record.
    obtain ⟨span', rest, split, -, moved⟩ := (Body.accepts_read [] _ _ _).mp same
    have shorter := congrArg List.length split
    have longer : span.length = 0 + span'.length := congrArg Cursor.position moved
    rw [List.length_take, List.length_append] at shorter
    omega
  · rw [Body.parse, Reader.decode, Cursor.start, failed]

/-- What follows a record does not matter. -/
theorem IsRecord.parse_append {span : Bytes} {body : Body} (record : IsRecord 0 span body)
    (rest : Bytes) : Body.parse (span ++ rest) = .ok body :=
  Body.parse_iff_isRecord.mpr ⟨span, rest, rfl, record⟩

/-- A record is self-delimiting: with fewer bytes than its size it is refused because the data
ends, and with all of them it is read whatever comes behind. -/
theorem Body.self_delimiting_of_parse {data : Bytes} {body : Body}
    (parsed : Body.parse data = .ok body) :
    (∀ count, count < body.totalSize →
      Body.parse (data.take count) = .error .outOfBounds ∧
        Body.verify (data.take count) = false) ∧
      ∀ rest, Body.parse (data.take body.totalSize ++ rest) = .ok body := by
  obtain ⟨span, behind, split, record⟩ := Body.parse_iff_isRecord.mp parsed
  have size := record.length_eq
  subst split
  constructor
  · intro count short
    have inside : (span ++ behind).take count = span.take count :=
      List.take_append_of_le_length (by omega)
    have refused : Body.parse ((span ++ behind).take count) = .error .outOfBounds := by
      rw [inside]
      exact record.parse_take (by omega)
    refine ⟨refused, ?_⟩
    rw [Body.verify, refused]
    rfl
  · intro rest
    rw [← size, List.take_left]
    exact record.parse_append rest

/-- A fat record with a gap and two sections, cut inside the first word of the second one. -/
theorem Body.self_delimiting_of_parse_sections :
    Body.parse [0x1B, 0x30, 1, 0, 1, 0, 0, 0, 0, 0, 0, 0, 0x2A, 7, 8, 9, 0x81, 4, 0, 0,
        0x41, 4, 0, 0, 0xCC] =
        .ok ⟨⟨0x301B, 1, 1, 0⟩, [0x2A], some [0x81, 4, 0, 0, 0x41, 4, 0, 0]⟩ ∧
      Body.parse [0x1B, 0x30, 1, 0, 1, 0, 0, 0, 0, 0, 0, 0, 0x2A, 7, 8, 9, 0x81, 4, 0, 0,
        0x41, 4] = .error .outOfBounds ∧
      Body.parse [0x1B, 0x30, 1, 0, 1, 0, 0, 0, 0, 0, 0, 0, 0x2A, 7, 8, 9, 0x81, 4, 0, 0,
        0x41, 4, 0, 0, 0x17, 0x2A] =
        .ok ⟨⟨0x301B, 1, 1, 0⟩, [0x2A], some [0x81, 4, 0, 0, 0x41, 4, 0, 0]⟩ := by
  have parsed :
      Body.parse [0x1B, 0x30, 1, 0, 1, 0, 0, 0, 0, 0, 0, 0, 0x2A, 7, 8, 9, 0x81, 4, 0, 0,
        0x41, 4, 0, 0, 0xCC] =
        .ok ⟨⟨0x301B, 1, 1, 0⟩, [0x2A], some [0x81, 4, 0, 0, 0x41, 4, 0, 0]⟩ := by
    rfl
  obtain ⟨cut, extended⟩ := Body.self_delimiting_of_parse parsed
  exact ⟨parsed, (cut 22 (by decide)).1, extended [0x17, 0x2A]⟩

end CilRecovery.Method
