import CilRecovery.Proofs.Reader.Refuses

/-!
# Where readers fail

The counterpart of the spans that a reader accepts: the rests of a buffer that it fails on, and the
error of each. A sequence fails where its first part does, or behind a span of the first part where
the second one does, so flaws compose as forms do.
-/

set_option autoImplicit false

namespace CilRecovery

def IsSigned (value : Int) (word : Bytes) : Prop :=
  word.length = 4 ∧ WordKind.decode .i32 word = value

theorem exists_bytesOfUInt32 {word : Bytes} (length : word.length = 4) :
    ∃ value, word = bytesOfUInt32 value :=
  ⟨_, (bytesOfUInt32_ofNat_decode length).symm⟩

namespace Reader

variable {α β : Type}

/-! ## Signed words -/

theorem Accepts.signed : Accepts (Reader.word .i32) fun _ span value => IsSigned value span := by
  refine (Accepts.word .i32).congr fun _ span value => ?_
  constructor
  · intro ⟨length, same⟩
    exact ⟨length, same.symm⟩
  · intro ⟨length, same⟩
    exact ⟨length, same.symm⟩

theorem Accepts.count (counter : Counter) :
    Accepts (count counter) fun _ span value => IsSigned value span := by
  refine (Accepts.signed.bind fun value => Accepts.ite
    (fun _ => (Accepts.throw (.malformed (.negative counter value))).bind fun _ : Unit =>
      Accepts.pure value.toNat)
    fun _ => Accepts.pure value.toNat).congr ?_
  intro position span number
  constructor
  · rintro ⟨front, back, value, joined, signed, rest⟩
    split at rest
    · obtain ⟨_, _, _, _, impossible, _⟩ := rest
      exact impossible.elim
    · rename_i positive
      obtain ⟨empty, same⟩ := rest
      subst joined empty same
      rwa [List.append_nil, Int.toNat_of_nonneg (Int.not_lt.mp positive)]
  · intro signed
    refine ⟨span, [], number, (List.append_nil span).symm, signed, ?_⟩
    rw [if_neg (Int.not_lt.mpr (Int.natCast_nonneg number))]
    exact ⟨rfl, rfl⟩

/-! ## Flaws -/

/-- The rests of a buffer that a reader fails on, with the error of each. -/
abbrev Flaw := (rest : Bytes) → (error : Error) → Prop

/-- A reader fails exactly where the rest of the buffer has the flaw. -/
def Fails (reader : Reader α) (flaw : Flaw) : Prop :=
  ∀ (before rest : Bytes) (error : Error),
    (∃ moved, reader ⟨before ++ rest, before.length⟩ = .error error moved) ↔ flaw rest error

def Short (need : Nat) : Flaw := fun rest error => rest.length < need ∧ error = .outOfBounds

/-- A part of fixed size does not fit, or what lies behind it is flawed. -/
def Behind (width : Nat) (flaw : Flaw) : Flaw := fun rest error =>
  Short width rest error ∨
    ∃ span after, rest = span ++ after ∧ span.length = width ∧ flaw after error

/-- A signed word does not fit, or what lies behind it is flawed. -/
def Signed (flaw : Int → Flaw) : Flaw := fun rest error =>
  Short 4 rest error ∨
    ∃ word after value, rest = word ++ after ∧ IsSigned value word ∧ flaw value after error

/-- A count does not fit or is negative, or what lies behind it is flawed. -/
def Counted (counter : Counter) (flaw : Nat → Flaw) : Flaw :=
  Signed fun value rest error =>
    if value < 0 then error = .malformed (.negative counter value) else flaw value.toNat rest error

theorem behind_short (width need : Nat) (rest : Bytes) (error : Error) :
    Behind width (Short need) rest error ↔ Short (width + need) rest error := by
  constructor
  · rintro (⟨short, rfl⟩ | ⟨span, after, rfl, length, short, rfl⟩)
    · exact ⟨by omega, rfl⟩
    · refine ⟨?_, rfl⟩
      rw [List.length_append]
      omega
  · rintro ⟨short, rfl⟩
    by_cases early : rest.length < width
    · exact .inl ⟨early, rfl⟩
    · refine .inr ⟨rest.take width, rest.drop width, (List.take_append_drop _ _).symm,
        List.length_take_of_le (by omega), ?_, rfl⟩
      rw [List.length_drop]
      omega

theorem behind_behind (width width' : Nat) (flaw : Flaw) (rest : Bytes) (error : Error) :
    Behind width (Behind width' flaw) rest error ↔ Behind (width + width') flaw rest error := by
  constructor
  · rintro (⟨short, rfl⟩ | ⟨span, after, rfl, length, ⟨short, rfl⟩ | ⟨span', after', rfl, length',
      flawed⟩⟩)
    · exact .inl ⟨by omega, rfl⟩
    · exact .inl ((behind_short _ _ _ _).mp (.inr ⟨span, after, rfl, length, short, rfl⟩))
    · refine .inr ⟨span ++ span', after', (List.append_assoc _ _ _).symm, ?_, flawed⟩
      rw [List.length_append, length, length']
  · rintro (short | ⟨span, after, rfl, length, flawed⟩)
    · rcases (behind_short _ _ _ _).mpr short with early | ⟨span, after, rfl, length, late⟩
      · exact .inl early
      · exact .inr ⟨span, after, rfl, length, .inl late⟩
    · refine .inr ⟨span.take width, span.drop width ++ after, ?_,
        List.length_take_of_le (by omega), .inr ⟨span.drop width, after, rfl, ?_, flawed⟩⟩
      · rw [← List.append_assoc, List.take_append_drop]
      · rw [List.length_drop]
        omega

namespace Fails

theorem congr {reader : Reader α} {flaw flaw' : Flaw} (fails : Fails reader flaw)
    (same : ∀ rest error, flaw rest error ↔ flaw' rest error) : Fails reader flaw' :=
  fun before rest error => (fails before rest error).trans (same rest error)

theorem pure (value : α) : Fails (pure value) fun _ _ => False := by
  intro before rest error
  constructor
  · rintro ⟨moved, failed⟩
    cases failed
  · exact False.elim

theorem throw (error : Error) : Fails (throw error : Reader α) fun _ error' => error' = error := by
  intro before rest error'
  constructor
  · rintro ⟨moved, failed⟩
    cases failed
    rfl
  · rintro rfl
    exact ⟨_, rfl⟩

theorem bind {reader : Reader α} {next : α → Reader β} {form : Bytes → α → Prop} {flaw : Flaw}
    {nextFlaw : α → Flaw} (accepts : Accepts reader fun _ => form) (first : Fails reader flaw)
    (second : ∀ value, Fails (next value) (nextFlaw value)) :
    Fails (reader >>= next) fun rest error =>
      flaw rest error ∨
        ∃ span after value,
          rest = span ++ after ∧ form span value ∧ nextFlaw value after error := by
  intro before rest error
  constructor
  · rintro ⟨moved, failed⟩
    rcases EState.bind_eq_error.mp failed with failed | ⟨value, middle, read, failed⟩
    · exact .inl ((first _ _ _).mp ⟨moved, failed⟩)
    · obtain ⟨span, after, rfl, formed, rfl⟩ := (accepts _ _ _ _).mp read
      rw [← List.append_assoc, ← List.length_append] at failed
      exact .inr ⟨span, after, value, rfl, formed, (second value _ _ _).mp ⟨moved, failed⟩⟩
  · rintro (flawed | ⟨span, after, value, rfl, formed, flawed⟩)
    · obtain ⟨moved, failed⟩ := (first before rest error).mpr flawed
      exact ⟨moved, EState.bind_of_error failed⟩
    · obtain ⟨moved, failed⟩ := (second value (before ++ span) after error).mpr flawed
      refine ⟨moved, (EState.bind_of_ok (accepts.reads before formed after)).trans ?_⟩
      rwa [List.append_assoc, List.length_append] at failed

theorem ite {condition : Prop} [Decidable condition] {left right : Reader α}
    {leftFlaw rightFlaw : Flaw} (whenTrue : condition → Fails left leftFlaw)
    (whenFalse : ¬ condition → Fails right rightFlaw) :
    Fails (if condition then left else right) fun rest error =>
      if condition then leftFlaw rest error else rightFlaw rest error := by
  by_cases holds : condition
  · simpa only [holds, if_true] using whenTrue holds
  · simpa only [holds, if_false] using whenFalse holds

theorem decode {reader : Reader α} {flaw : Flaw} (fails : Fails reader flaw) (data : Bytes)
    (error : Error) : Reader.decode reader data = .error error ↔ flaw data error := by
  rw [← fails [] data error, Reader.decode, Cursor.start]
  change _ ↔ ∃ moved, reader ⟨data, 0⟩ = .error error moved
  cases reader ⟨data, 0⟩ with
  | ok value moved =>
      constructor
      · intro same
        cases same
      · intro failed
        obtain ⟨_, same⟩ := failed
        cases same
  | error error' moved =>
      constructor
      · intro same
        cases same
        exact ⟨moved, rfl⟩
      · intro failed
        obtain ⟨_, same⟩ := failed
        cases same
        rfl

/-! ## Steps -/

theorem skip (count : Nat) : Fails (skip count) (Short count) := by
  intro before rest error
  simp only [Reader.skip, List.length_append]
  constructor
  · rintro ⟨moved, failed⟩
    split at failed
    · cases failed
    · cases failed
      exact ⟨by omega, rfl⟩
  · rintro ⟨short, rfl⟩
    rw [if_neg (by omega)]
    exact ⟨_, rfl⟩

theorem take (count : Nat) : Fails (take count) (Short count) := by
  intro before rest error
  simp only [Reader.take, Bytes.slice?, List.length_append]
  constructor
  · rintro ⟨moved, failed⟩
    split at failed
    · cases failed
    · rename_i missing
      split at missing
      · cases missing
      · cases failed
        exact ⟨by omega, rfl⟩
  · rintro ⟨short, rfl⟩
    rw [if_neg (by omega)]
    exact ⟨_, rfl⟩

/-- What only computes behind the last read does not fail. -/
theorem last {reader : Reader α} {flaw : Flaw} (fails : Fails reader flaw) (result : α → β) :
    Fails (reader >>= fun value => Pure.pure (result value)) flaw := by
  intro before rest error
  rw [← fails before rest error]
  constructor
  · intro ⟨moved, failed⟩
    rcases EState.bind_eq_error.mp failed with failed | ⟨_, _, _, impossible⟩
    · exact ⟨moved, failed⟩
    · cases impossible
  · intro ⟨moved, failed⟩
    exact ⟨moved, EState.bind_of_error failed⟩

theorem unsigned (width : Nat) : Fails (unsigned width) (Short width) :=
  last (take width) _

theorem uint32 : Fails uint32 (Short 4) := last (unsigned 4) _

theorem signed : Fails (word .i32) (Short 4) := last (unsigned 4) _

/-- A reader of a fixed number of bytes takes any bytes of that number. -/
private theorem exists_formed {reader : Reader α} {form : Bytes → α → Prop} {width : Nat}
    (accepts : Accepts reader fun _ => form) (fails : Fails reader (Short width))
    (sized : ∀ span value, form span value → span.length = width) {span : Bytes}
    (length : span.length = width) : ∃ value, form span value := by
  cases read : reader ⟨[] ++ span, [].length⟩ with
  | ok value moved =>
      obtain ⟨front, after, rfl, formed, -⟩ := (accepts [] span value moved).mp read
      have whole := sized front value formed
      rw [List.length_append, whole, Nat.add_eq_left, List.length_eq_zero_iff] at length
      rw [length, List.append_nil]
      exact ⟨value, formed⟩
  | error error moved =>
      obtain ⟨short, -⟩ := (fails [] span error).mp ⟨moved, read⟩
      exact absurd length (Nat.ne_of_lt short)

theorem behind {reader : Reader α} {next : α → Reader β} {form : Bytes → α → Prop} {width : Nat}
    {flaw : Flaw} (accepts : Accepts reader fun _ => form) (first : Fails reader (Short width))
    (sized : ∀ span value, form span value → span.length = width)
    (second : ∀ value, Fails (next value) flaw) : Fails (reader >>= next) (Behind width flaw) := by
  refine (bind accepts first second).congr fun rest error => or_congr_right ?_
  constructor
  · rintro ⟨span, after, value, rfl, formed, flawed⟩
    exact ⟨span, after, rfl, sized span value formed, flawed⟩
  · rintro ⟨span, after, rfl, length, flawed⟩
    obtain ⟨value, formed⟩ := exists_formed accepts first sized length
    exact ⟨span, after, value, rfl, formed, flawed⟩

theorem uint32_bind {next : UInt32 → Reader β} {flaw : Flaw}
    (second : ∀ value, Fails (next value) flaw) :
    Fails (Reader.uint32 >>= next) (Behind 4 flaw) := by
  refine behind Accepts.uint32 uint32 ?_ second
  rintro _ value rfl
  exact length_bytesOfUInt32 value

theorem signed_bind {next : Int → Reader β} {flaw : Int → Flaw}
    (second : ∀ value, Fails (next value) (flaw value)) :
    Fails (word .i32 >>= next) (Signed flaw) :=
  bind Accepts.signed signed second

/-- A signed word that is not looked at. -/
theorem ignored_bind {next : Int → Reader β} {flaw : Flaw}
    (second : ∀ value, Fails (next value) flaw) : Fails (word .i32 >>= next) (Behind 4 flaw) :=
  behind Accepts.signed signed (fun _ _ form => form.1) second

theorem skip_bind {next : Unit → Reader β} {width : Nat} {flaw : Flaw}
    (second : Fails (next ()) flaw) : Fails (Reader.skip width >>= next) (Behind width flaw) :=
  behind (Accepts.skip width) (skip width) (fun _ _ length => length) fun _ => second

theorem counted {counter : Counter} {next : Nat → Reader β} {flaw : Nat → Flaw}
    (second : ∀ value, Fails (next value) (flaw value)) :
    Fails (count counter >>= next) (Counted counter flaw) := by
  have opened : count counter >>= next = word .i32 >>= fun value =>
      if value < 0 then MonadExcept.throw (Error.malformed (.negative counter value))
      else next value.toNat := by
    rw [count, bind_assoc]
    refine bind_congr fun value => ?_
    by_cases negative : value < 0
    · rw [if_pos negative, if_pos negative]
      rfl
    · rw [if_neg negative, if_neg negative]
      rfl
  rw [opened]
  exact signed_bind fun value => ite (fun _ => throw _) fun _ => second value.toNat

end Fails

/-! ## Data that are cut short -/

/-- On a proper beginning of a span with nothing behind it, a reader says that the data end. -/
def RunsOut (reader : Reader α) (span : Bytes) : Prop :=
  ∀ (before : Bytes) (count : Nat), count < span.length →
    ∃ stopped, reader ⟨before ++ span.take count, before.length⟩ = .error .outOfBounds stopped

/-- A reader runs out on a span as soon as every beginning of it is flawed in that way. -/
theorem Fails.runsOut {reader : Reader α} {flaw : Flaw} {span : Bytes} (fails : Fails reader flaw)
    (flawed : ∀ count < span.length, flaw (span.take count) .outOfBounds) : RunsOut reader span :=
  fun before count short => (fails before (span.take count) _).mpr (flawed count short)

namespace RunsOut

theorem pure (value : α) : RunsOut (Pure.pure value) [] :=
  fun _ _ short => (Nat.not_lt_zero _ short).elim

/-- What would follow is not reached. -/
theorem first {reader : Reader α} {span : Bytes} (ends : RunsOut reader span)
    (next : α → Reader β) : RunsOut (reader >>= next) span := by
  intro before count short
  obtain ⟨stopped, failed⟩ := ends before count short
  exact ⟨stopped, EState.bind_of_error failed⟩

theorem bind {reader : Reader α} {next : α → Reader β} {front back : Bytes} {value : α}
    (reads : Reads reader front value) (ends : RunsOut reader front)
    (later : RunsOut (next value) back) : RunsOut (reader >>= next) (front ++ back) := by
  intro before count short
  by_cases early : count < front.length
  · rw [List.take_append_of_le_length (Nat.le_of_lt early)]
    exact ends.first next before count early
  · have behind : count - front.length < back.length := by
      rw [List.length_append] at short
      omega
    obtain ⟨stopped, failed⟩ := later (before ++ front) (count - front.length) behind
    refine ⟨stopped, ?_⟩
    rw [List.take_append, List.take_of_length_le (Nat.le_of_not_lt early), reads.step]
    exact failed

theorem atomically {reader : Reader α} {span : Bytes} (ends : RunsOut reader span) :
    RunsOut (Reader.atomically reader) span := fun before count short =>
  ⟨_, atomically_eq_error_iff.mpr ⟨ends before count short, rfl⟩⟩

theorem take (data : Bytes) : RunsOut (Reader.take data.length) data := by
  refine (Fails.take data.length).runsOut fun count short => ⟨?_, rfl⟩
  rwa [List.length_take_of_le (Nat.le_of_lt short)]

theorem uint32 (value : UInt32) : RunsOut Reader.uint32 (bytesOfUInt32 value) := by
  refine Fails.uint32.runsOut fun count short => ⟨?_, rfl⟩
  rwa [List.length_take_of_le (Nat.le_of_lt short), ← length_bytesOfUInt32 value]

/-- Data that end inside one of several items. -/
theorem times {ι : Type} {reader : Reader α} {encode : ι → Bytes} {value : ι → α}
    {items : List ι} (reads : ∀ item ∈ items, Reads reader (encode item) (value item))
    (ends : ∀ item ∈ items, RunsOut reader (encode item)) :
    RunsOut (Reader.times reader items.length) (items.flatMap encode) := by
  induction items with
  | nil => exact pure []
  | cons item rest ih =>
      obtain ⟨reads, readsRest⟩ := List.forall_mem_cons.mp reads
      obtain ⟨ends, endsRest⟩ := List.forall_mem_cons.mp ends
      exact bind reads ends ((ih readsRest endsRest).first _)

theorem decode {reader : Reader α} {span : Bytes} (ends : RunsOut reader span) {count : Nat}
    (short : count < span.length) : reader.decode (span.take count) = .error .outOfBounds := by
  obtain ⟨stopped, failed⟩ := ends [] count short
  rw [List.nil_append, List.length_nil] at failed
  rw [Reader.decode, Cursor.start, failed]

end RunsOut

end Reader

end CilRecovery
