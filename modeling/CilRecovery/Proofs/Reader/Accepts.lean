import CilRecovery.Proofs.Except
import CilRecovery.Reader

/-!
# Spans that readers accept

A reader is described by its form: the spans that it takes at a position and the value of each.
A reader that accepts exactly the spans of its form cannot look behind its span or at what lies
before it, so forms compose as readers do.
-/

set_option autoImplicit false

namespace CilRecovery.Reader

variable {α β : Type}

/-- The spans that a reader takes at a position, with the value of each. -/
abbrev Form (α : Type) := (position : Nat) → (span : Bytes) → (value : α) → Prop

/-- A reader succeeds exactly on what starts with a span of the form, and moves behind that span.
The bytes before and behind the span are arbitrary. -/
def Accepts (reader : Reader α) (form : Form α) : Prop :=
  ∀ (before rest : Bytes) (value : α) (moved : Cursor),
    reader ⟨before ++ rest, before.length⟩ = .ok value moved ↔
      ∃ span after, rest = span ++ after ∧ form before.length span value ∧
        moved = ⟨before ++ rest, before.length + span.length⟩

theorem decode_eq_ok {reader : Reader α} {data : Bytes} {value : α} :
    decode reader data = .ok value ↔ ∃ moved, reader ⟨data, 0⟩ = .ok value moved := by
  rw [decode, Cursor.start]
  cases reader ⟨data, 0⟩ with
  | ok value' moved =>
      constructor
      · intro same
        cases same
        exact ⟨moved, rfl⟩
      · intro ⟨_, same⟩
        cases same
        rfl
  | error error moved => exact ⟨nofun, fun ⟨_, same⟩ => nomatch same⟩

namespace Accepts

theorem congr {reader : Reader α} {form form' : Form α} (accepts : Accepts reader form)
    (same : ∀ position span value, form position span value ↔ form' position span value) :
    Accepts reader form' := by
  intro before rest value moved
  rw [accepts before rest value moved]
  simp only [same]

/-- At a place of the data, the span is at the beginning of what is left. -/
theorem at_place {reader : Reader α} {form : Form α} (accepts : Accepts reader form) {data : Bytes}
    {place : Nat} (inside : place ≤ data.length) {value : α} {moved : Cursor} :
    reader ⟨data, place⟩ = .ok value moved ↔
      ∃ span after, data.drop place = span ++ after ∧ form place span value ∧
        moved = ⟨data, place + span.length⟩ := by
  have front : (data.take place).length = place := List.length_take_of_le inside
  have accepted := accepts (data.take place) (data.drop place) value moved
  rwa [List.take_append_drop, front] at accepted

theorem reads {reader : Reader α} {form : Form α} (accepts : Accepts reader form)
    (before : Bytes) {span : Bytes} {value : α} (formed : form before.length span value)
    (after : Bytes) :
    reader ⟨before ++ (span ++ after), before.length⟩ =
      .ok value ⟨before ++ (span ++ after), before.length + span.length⟩ :=
  (accepts before (span ++ after) value _).mpr ⟨span, after, rfl, formed, rfl⟩

/-- At one place of the data a form has at most one span and value. -/
theorem unique {reader : Reader α} {form : Form α} (accepts : Accepts reader form)
    (before : Bytes) {span span' after after' : Bytes} {value value' : α}
    (formed : form before.length span value) (formed' : form before.length span' value')
    (same : span ++ after = span' ++ after') : span = span' ∧ value = value' := by
  have left := accepts.reads before formed after
  have right := accepts.reads before formed' after'
  rw [← same, left, EStateM.Result.ok.injEq, Cursor.mk.injEq] at right
  obtain ⟨sameValue, -, sameEnd⟩ := right
  exact ⟨(List.append_inj same (by omega)).1, sameValue⟩

theorem pure (value : α) :
    Accepts (pure value) fun _ span result => span = [] ∧ result = value := by
  intro before rest result moved
  constructor
  · intro read
    cases read
    exact ⟨[], rest, rfl, ⟨rfl, rfl⟩, rfl⟩
  · intro ⟨span, after, _, ⟨empty, same⟩, end_⟩
    subst empty same end_
    rfl

theorem throw (error : Error) : Accepts (throw error : Reader α) fun _ _ _ => False := by
  intro before rest result moved
  constructor
  · intro read
    cases read
  · intro ⟨_, _, _, impossible, _⟩
    exact impossible.elim

theorem bind {reader : Reader α} {next : α → Reader β} {form : Form α}
    {nextForm : α → Form β} (first : Accepts reader form)
    (second : ∀ value, Accepts (next value) (nextForm value)) :
    Accepts (reader >>= next) fun position span result =>
      ∃ front back value, span = front ++ back ∧ form position front value ∧
        nextForm value (position + front.length) back result := by
  intro before rest result final
  rw [EState.bind_eq_ok]
  constructor
  · intro ⟨value, moved, read, continued⟩
    obtain ⟨front, others, split, formed, end_⟩ := (first _ _ _ _).mp read
    subst split end_
    rw [← List.append_assoc, ← List.length_append] at continued
    obtain ⟨back, after, split, formed', end_⟩ := (second value _ _ _ _).mp continued
    subst split end_
    refine ⟨front ++ back, after, by simp, ⟨front, back, value, rfl, formed, ?_⟩, by
      simp [Nat.add_assoc]⟩
    simpa using formed'
  · intro ⟨_, after, split, ⟨front, back, value, joined, formed, formed'⟩, end_⟩
    subst joined split end_
    refine ⟨value, _, (first _ _ _ _).mpr
      ⟨front, back ++ after, by simp, formed, rfl⟩, ?_⟩
    have continued := (second value).reads (before ++ front) (by simpa using formed') after
    simpa [Nat.add_assoc] using continued

theorem map {reader : Reader α} {form : Form α} (accepts : Accepts reader form)
    (result : α → β) :
    Accepts (result <$> reader) fun position span value =>
      ∃ inner, form position span inner ∧ value = result inner := by
  rw [map_eq_pure_bind]
  refine (bind accepts fun inner => pure (result inner)).congr ?_
  intro position span value
  constructor
  · intro ⟨front, back, inner, joined, formed, empty, same⟩
    subst joined empty
    rw [List.append_nil]
    exact ⟨inner, formed, same⟩
  · intro ⟨inner, formed, same⟩
    exact ⟨span, [], inner, (List.append_nil span).symm, formed, rfl, same⟩

theorem ite {condition : Prop} [Decidable condition] {left right : Reader α}
    {leftForm rightForm : Form α} (whenTrue : condition → Accepts left leftForm)
    (whenFalse : ¬ condition → Accepts right rightForm) :
    Accepts (if condition then left else right) fun position span value =>
      if condition then leftForm position span value else rightForm position span value := by
  by_cases holds : condition
  · simpa only [holds, if_true] using whenTrue holds
  · simpa only [holds, if_false] using whenFalse holds

theorem atomically {reader : Reader α} {form : Form α} (accepts : Accepts reader form) :
    Accepts (atomically reader) form := by
  intro before rest value moved
  rw [← accepts before rest value moved]
  unfold Reader.atomically
  cases reader ⟨before ++ rest, before.length⟩ with
  | ok value' moved' => exact Iff.rfl
  | error error moved' =>
      constructor
      · intro failed
        cases failed
      · intro failed
        cases failed

/-! ## Steps -/

theorem position : Accepts position fun position span value => span = [] ∧ value = position := by
  intro before rest value moved
  constructor
  · intro read
    cases read
    exact ⟨[], rest, rfl, ⟨rfl, rfl⟩, rfl⟩
  · intro ⟨span, after, _, ⟨empty, same⟩, end_⟩
    subst empty same end_
    rfl

theorem skip (count : Nat) : Accepts (skip count) fun _ span _ => span.length = count := by
  intro before rest value moved
  simp only [Reader.skip, List.length_append]
  constructor
  · intro read
    split at read
    · rename_i fits
      cases read
      refine ⟨rest.take count, rest.drop count, (List.take_append_drop _ _).symm, ?_, ?_⟩
      · exact List.length_take_of_le (by omega)
      · rw [List.length_take_of_le (by omega)]
    · cases read
  · intro ⟨span, after, split, length, end_⟩
    subst split end_ length
    rw [if_pos (by simp)]

theorem take (count : Nat) :
    Accepts (take count) fun _ span value => span.length = count ∧ value = span := by
  intro before rest value moved
  simp only [Reader.take, Bytes.slice?, List.length_append, List.drop_left]
  constructor
  · intro read
    split at read
    · rename_i found
      split at found
      · rename_i fits
        cases found
        cases read
        have length : (rest.take count).length = count := List.length_take_of_le (by omega)
        exact ⟨rest.take count, rest.drop count, (List.take_append_drop _ _).symm,
          ⟨length, rfl⟩, by rw [length]⟩
      · cases found
    · cases read
  · intro ⟨span, after, split, ⟨length, same⟩, end_⟩
    subst split end_ length same
    rw [if_pos (by simp)]
    simp

theorem check (result : Except Error α) :
    Accepts (check result) fun _ span value => span = [] ∧ result = .ok value := by
  intro before rest value moved
  unfold Reader.check
  constructor
  · intro read
    split at read
    · cases read
      exact ⟨[], rest, rfl, ⟨rfl, rfl⟩, rfl⟩
    · cases read
  · intro ⟨span, after, _, ⟨empty, same⟩, end_⟩
    subst empty same end_
    rfl

theorem align (alignment : Nat) (positive : 0 < alignment) :
    Accepts (align alignment positive)
      fun position span _ => span.length = paddingTo alignment position := by
  intro before rest value moved
  exact skip (paddingTo alignment before.length) before rest value moved

/-! ## Numbers -/

theorem unsigned (width : Nat) :
    Accepts (unsigned width)
      fun _ span value => span.length = width ∧ value = LittleEndian.decode span := by
  refine (bind (take width) fun bytes => pure (LittleEndian.decode bytes)).congr ?_
  intro position span value
  constructor
  · intro ⟨front, back, bytes, joined, ⟨length, same⟩, empty, decoded⟩
    subst joined empty same
    simpa using And.intro length decoded
  · intro ⟨length, decoded⟩
    exact ⟨span, [], span, by simp, ⟨length, rfl⟩, rfl, decoded⟩

theorem byte : Accepts byte fun _ span value => span = [value] := by
  refine (bind (unsigned 1) fun raw => pure (UInt8.ofNat raw)).congr ?_
  intro position span value
  constructor
  · intro ⟨front, back, raw, joined, ⟨length, decoded⟩, empty, same⟩
    subst joined empty decoded same
    obtain ⟨single, rfl⟩ := List.length_eq_one_iff.mp length
    simp [LittleEndian.decode]
  · intro same
    subst same
    exact ⟨[value], [], value.toNat, rfl, ⟨rfl, by simp [LittleEndian.decode]⟩, rfl, by simp⟩

theorem uint16 : Accepts uint16 fun _ span value => span = bytesOfUInt16 value := by
  refine (bind (unsigned 2) fun raw => pure (UInt16.ofNat raw)).congr ?_
  intro position span value
  constructor
  · intro ⟨front, back, raw, joined, ⟨length, decoded⟩, empty, same⟩
    subst joined empty decoded same
    rw [bytesOfUInt16_ofNat_decode length, List.append_nil]
  · intro same
    subst same
    exact ⟨bytesOfUInt16 value, [], value.toNat, (List.append_nil _).symm, ⟨by simp, by simp⟩, rfl,
      by simp⟩

theorem uint32 : Accepts uint32 fun _ span value => span = bytesOfUInt32 value := by
  refine (bind (unsigned 4) fun raw => pure (UInt32.ofNat raw)).congr ?_
  intro position span value
  constructor
  · intro ⟨front, back, raw, joined, ⟨length, decoded⟩, empty, same⟩
    subst joined empty decoded same
    rw [bytesOfUInt32_ofNat_decode length, List.append_nil]
  · intro same
    subst same
    exact ⟨bytesOfUInt32 value, [], value.toNat, (List.append_nil _).symm, ⟨by simp, by simp⟩, rfl,
      by simp⟩

theorem word (kind : WordKind) :
    Accepts (word kind) fun _ span value => span.length = kind.width ∧ value = kind.decode span := by
  refine (bind (unsigned kind.width) fun raw => pure (kind.interpret raw)).congr ?_
  intro position span value
  constructor
  · intro ⟨front, back, raw, joined, ⟨length, decoded⟩, empty, same⟩
    subst joined empty decoded same
    rw [List.append_nil]
    exact ⟨length, rfl⟩
  · intro ⟨length, same⟩
    exact ⟨span, [], _, (List.append_nil span).symm, ⟨length, rfl⟩, rfl, same⟩

/-! ## Looking ahead -/

theorem peekByte {next : UInt8 → Reader β} {form : UInt8 → Form β}
    (accepts : ∀ first, Accepts (next first) (form first))
    (nonempty : ∀ first position value, ¬ form first position [] value) :
    Accepts (peekByte >>= next) fun position span value =>
      ∃ first tail, span = first :: tail ∧ form first position span value := by
  intro before rest value moved
  cases rest with
  | nil =>
      constructor
      · intro read
        obtain ⟨first, middle, peeked, _⟩ := EState.bind_eq_ok.mp read
        simp [Reader.peekByte] at peeked
      · intro ⟨span, after, split, ⟨first, tail, same, _⟩, _⟩
        subst same
        cases split
  | cons first others =>
      have peeked : Reader.peekByte ⟨before ++ first :: others, before.length⟩ =
          .ok first ⟨before ++ first :: others, before.length⟩ := by
        simp [Reader.peekByte]
      rw [EState.bind_of_ok peeked, accepts first before (first :: others) value moved]
      constructor
      · intro ⟨span, after, split, formed, end_⟩
        cases span with
        | nil => exact (nonempty first _ value formed).elim
        | cons head tail =>
            cases split
            exact ⟨_, after, rfl, ⟨first, tail, rfl, formed⟩, end_⟩
      · intro ⟨span, after, split, ⟨head, tail, same, formed⟩, end_⟩
        subst same
        cases split
        exact ⟨_, after, rfl, formed, end_⟩

/-! ## Measuring -/

theorem captured {reader : Reader α} {form : Form α} (accepts : Accepts reader form) :
    Accepts
      (do
        let start ← Reader.position
        let _ ← reader
        let stop ← Reader.position
        Reader.seek start
        Reader.take (stop - start))
      fun position span value => value = span ∧ ∃ measured, form position span measured := by
  intro before rest value final
  constructor
  · intro read
    obtain ⟨_, _, started, read⟩ := EState.bind_eq_ok.mp read
    cases started
    obtain ⟨measured, moved, measuring, read⟩ := EState.bind_eq_ok.mp read
    obtain ⟨span, after, split, formed, end_⟩ := (accepts _ _ _ _).mp measuring
    subst split end_
    obtain ⟨_, _, stopped, read⟩ := EState.bind_eq_ok.mp read
    cases stopped
    obtain ⟨_, _, sought, read⟩ := EState.bind_eq_ok.mp read
    simp only [Reader.seek, List.length_append, Nat.le_add_right, if_true,
      EStateM.Result.ok.injEq, true_and] at sought
    subst sought
    rw [Nat.add_sub_cancel_left] at read
    obtain ⟨taken, others, split, ⟨length, same⟩, end_⟩ := (take _ _ _ _ _).mp read
    obtain ⟨rfl, rfl⟩ := List.append_inj split length.symm
    exact ⟨span, after, rfl, ⟨same, measured, formed⟩, end_⟩
  · intro ⟨span, after, split, ⟨same, measured, formed⟩, end_⟩
    subst split same end_
    refine EState.bind_eq_ok.mpr ⟨before.length, _, rfl, EState.bind_eq_ok.mpr ⟨measured, _,
      accepts.reads before formed after, EState.bind_eq_ok.mpr ⟨_, _, rfl, EState.bind_eq_ok.mpr
        ⟨(), ⟨before ++ (value ++ after), before.length⟩, ?_, ?_⟩⟩⟩⟩
    · simp [Reader.seek]
    · exact (take _).reads before ⟨(Nat.add_sub_cancel_left _ _).symm, rfl⟩ after

end Accepts

/-! ## Reading what was written -/

/-- A reader takes a span, wherever it lies, and gives a value. -/
def Reads (reader : Reader α) (span : Bytes) (value : α) : Prop :=
  ∀ before after : Bytes, reader ⟨before ++ (span ++ after), before.length⟩ =
    .ok value ⟨before ++ (span ++ after), before.length + span.length⟩

theorem Accepts.toReads {reader : Reader α} {form : Form α} {span : Bytes} {value : α}
    (accepts : Accepts reader form) (formed : ∀ position, form position span value) :
    Reads reader span value :=
  fun before after => accepts.reads before (formed before.length) after

namespace Reads

theorem step {reader : Reader α} {next : α → Reader β} {span : Bytes} {value : α}
    (reads : Reads reader span value) (before after : Bytes) :
    (reader >>= next) ⟨before ++ (span ++ after), before.length⟩ =
      next value ⟨(before ++ span) ++ after, (before ++ span).length⟩ := by
  rw [EState.bind_of_ok (reads before after), List.append_assoc, List.length_append]

theorem pure (value : α) : Reads (pure value) [] value := fun _ _ => rfl

theorem bind {reader : Reader α} {next : α → Reader β} {front back : Bytes} {value : α}
    {result : β} (first : Reads reader front value) (second : Reads (next value) back result) :
    Reads (reader >>= next) (front ++ back) result := by
  intro before after
  rw [List.append_assoc, first.step before (back ++ after), second (before ++ front) after,
    List.append_assoc, List.length_append, List.length_append, Nat.add_assoc]

/-- What follows the last read only computes the result. -/
theorem last {reader : Reader α} {next : α → Reader β} {span : Bytes} {value : α} {result : β}
    (reads : Reads reader span value) (computes : next value = Pure.pure result) :
    Reads (reader >>= next) span result := by
  have both := reads.bind (computes ▸ Reads.pure result)
  rwa [List.append_nil] at both

theorem map {reader : Reader α} {span : Bytes} {value : α} (reads : Reads reader span value)
    (computes : α → β) : Reads (computes <$> reader) span (computes value) := by
  intro before after
  change EStateM.map computes reader _ = _
  rw [EStateM.map, reads before after]

theorem atomically {reader : Reader α} {span : Bytes} {value : α}
    (reads : Reads reader span value) : Reads (Reader.atomically reader) span value := by
  intro before after
  rw [Reader.atomically, reads before after]

theorem byte (value : UInt8) : Reads Reader.byte [value] value :=
  Accepts.byte.toReads fun _ => rfl

theorem byte_bind {next : UInt8 → Reader β} {back : Bytes} {result : β} (value : UInt8)
    (reads : Reads (next value) back result) :
    Reads (Reader.byte >>= next) (value :: back) result :=
  (byte value).bind reads

theorem take (data : Bytes) : Reads (Reader.take data.length) data data :=
  (Accepts.take data.length).toReads fun _ => ⟨rfl, rfl⟩

theorem uint16 (value : UInt16) : Reads Reader.uint16 (bytesOfUInt16 value) value :=
  Accepts.uint16.toReads fun _ => rfl

theorem uint32 (value : UInt32) : Reads Reader.uint32 (bytesOfUInt32 value) value :=
  Accepts.uint32.toReads fun _ => rfl

theorem word (kind : WordKind) {bytes : Bytes} (length : bytes.length = kind.width) :
    Reads (Reader.word kind) bytes (kind.decode bytes) := by
  have raw : Reads (Reader.unsigned kind.width) bytes (LittleEndian.decode bytes) :=
    (Accepts.unsigned kind.width).toReads fun _ => ⟨length, rfl⟩
  exact raw.last rfl

/-- A reader may look at its position as long as its value does not depend on it. -/
theorem position {next : Nat → Reader β} {span : Bytes} {result : β}
    (reads : ∀ start, Reads (next start) span result) :
    Reads (Reader.position >>= next) span result :=
  fun before after => reads before.length before after

/-- Runs of a reader over items that were written one after the other. -/
theorem times {ι : Type} {reader : Reader α} {encode : ι → Bytes} {value : ι → α}
    {items : List ι} (reads : ∀ item ∈ items, Reads reader (encode item) (value item)) :
    Reads (times reader items.length) (items.flatMap encode) (items.map value) := by
  induction items with
  | nil => exact .pure []
  | cons item rest ih =>
      have others := ih fun other member => reads other (List.mem_cons_of_mem _ member)
      exact (reads item List.mem_cons_self).bind (others.last rfl)

end Reads

/-- A reader gives a value for a span that the buffer ends with, wherever it then stands. -/
def ReadsToEnd (reader : Reader α) (span : Bytes) (value : α) : Prop :=
  ∀ before : Bytes, ∃ moved, reader ⟨before ++ span, before.length⟩ = .ok value moved

theorem Reads.toEnd {reader : Reader α} {next : α → Reader β} {front back : Bytes} {value : α}
    {result : β} (first : Reads reader front value) (rest : ReadsToEnd (next value) back result) :
    ReadsToEnd (reader >>= next) (front ++ back) result := by
  intro before
  rw [first.step before back]
  exact rest (before ++ front)

theorem Reads.readsToEnd {reader : Reader α} {span : Bytes} {value : α}
    (reads : Reads reader span value) (rest : Bytes) : ReadsToEnd reader (span ++ rest) value :=
  fun before => ⟨_, reads before rest⟩

theorem ReadsToEnd.rest (data : Bytes) : ReadsToEnd Reader.rest data data := by
  intro before
  refine ⟨⟨before ++ data, (before ++ data).length⟩, ?_⟩
  rw [Reader.rest, List.drop_left]

theorem ReadsToEnd.last {reader : Reader α} {next : α → Reader β} {span : Bytes} {value : α}
    {result : β} (reads : ReadsToEnd reader span value)
    (computes : next value = Pure.pure result) : ReadsToEnd (reader >>= next) span result := by
  intro before
  obtain ⟨moved, read⟩ := reads before
  refine ⟨moved, EState.bind_eq_ok.mpr ⟨value, moved, read, ?_⟩⟩
  rw [computes]
  rfl

theorem ReadsToEnd.decode {reader : Reader α} {span : Bytes} {value : α}
    (reads : ReadsToEnd reader span value) : Reader.decode reader span = .ok value := by
  obtain ⟨moved, read⟩ := reads []
  rw [List.nil_append, List.length_nil] at read
  rw [Reader.decode, Cursor.start, read]

theorem Reads.decode {reader : Reader α} {span : Bytes} {value : α}
    (reads : Reads reader span value) (rest : Bytes) :
    Reader.decode reader (span ++ rest) = .ok value := by
  have read := reads [] rest
  rw [List.nil_append, List.length_nil] at read
  rw [Reader.decode, Cursor.start, read]

end CilRecovery.Reader

namespace CilRecovery.Writer

/-!
## What writers append

A writer is described by the bytes that it appends, whatever the buffer holds before.
-/

/-- A writer appends some bytes to every buffer. -/
def Writes (writer : Writer Unit) (bytes : Bytes) : Prop :=
  ∀ buffer, writer buffer = .ok () (buffer ++ bytes)

namespace Writes

theorem put (bytes : Bytes) : Writes (put bytes) bytes := fun _ => rfl

theorem putChecked (bytes : Bytes) : Writes (putChecked (.ok bytes)) bytes := fun _ => rfl

theorem bind {first : Writer Unit} {next : Unit → Writer Unit} {front back : Bytes}
    (writes : Writes first front) (writes' : Writes (next ()) back) :
    Writes (first >>= next) (front ++ back) := by
  intro buffer
  rw [EState.bind_of_ok (writes buffer), ← List.append_assoc]
  exact writes' (buffer ++ front)

theorem forM {ι : Type} {write : ι → Writer Unit} {encode : ι → Bytes} {items : List ι}
    (writes : ∀ item ∈ items, Writes (write item) (encode item)) :
    Writes (items.forM write) (items.flatMap encode) := by
  induction items with
  | nil => exact fun buffer => congrArg _ (List.append_nil buffer).symm
  | cons item rest ih =>
      exact (writes item List.mem_cons_self).bind
        (ih fun other member => writes other (List.mem_cons_of_mem _ member))

end Writes

end CilRecovery.Writer
