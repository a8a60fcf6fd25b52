import CilRecovery.Proofs.MethodStream.Layout

/-!
# The code of a method record has a signed size

Whatever stream it was read from, the code of a method record is short enough to be written again.
-/

set_option autoImplicit false

namespace CilRecovery

namespace Reader

variable {α β : Type}

def Yields (reader : Reader α) (property : α → Prop) : Prop :=
  ∀ cursor value moved, reader cursor = .ok value moved → property value

namespace Yields

theorem trivial (reader : Reader α) : Yields reader fun _ => True :=
  fun _ _ _ _ => True.intro

theorem pure {value : α} {property : α → Prop} (holds : property value) :
    Yields (pure value) property := by
  intro cursor value' moved read
  cases read
  exact holds

theorem bind {reader : Reader α} {next : α → Reader β} {property : α → Prop}
    {property' : β → Prop} (first : Yields reader property)
    (second : ∀ value, property value → Yields (next value) property') :
    Yields (reader >>= next) property' := by
  intro cursor result final read
  obtain ⟨value, moved, read, continued⟩ := EState.bind_eq_ok.mp read
  exact second value (first cursor value moved read) moved result final continued

theorem times {reader : Reader α} {property : α → Prop} (each : Yields reader property)
    (count : Nat) : Yields (times reader count) fun values => ∀ value ∈ values, property value := by
  induction count with
  | zero => exact .pure fun _ member => nomatch member
  | succ count ih =>
      refine each.bind fun first holds => ih.bind fun others hold => .pure fun value member => ?_
      rcases List.mem_cons.mp member with rfl | later
      · exact holds
      · exact hold value later

theorem take (count : Nat) : Yields (take count) fun piece => piece.length = count := by
  intro cursor piece moved read
  unfold Reader.take at read
  cases found : cursor.buffer.slice? cursor.position count with
  | none =>
      rw [found] at read
      cases read
  | some piece' =>
      rw [found] at read
      cases read
      obtain ⟨rfl, fits⟩ := Bytes.slice?_eq_some found
      rw [List.length_take, List.length_drop]
      omega

end Yields

end Reader

namespace MethodStream

open Reader (Yields)

def Record.Sized : Record → Prop
  | .method _ _ code => code.length < countLimit
  | _ => True

abbrev AllSized (records : List Record) : Prop := ∀ record ∈ records, record.Sized

private theorem interpret_lt {raw : Nat} (small : raw < 0x100000000) :
    WordKind.interpret .i32 raw < countLimit := by
  have range : WordKind.range .i32 = 0x100000000 := rfl
  unfold WordKind.interpret countLimit
  rw [range]
  split
  · omega
  · rename_i positive
    have low : ¬ 0x100000000 ≤ 2 * raw := by simpa [WordKind.isSigned] using positive
    omega

theorem yields_count (counter : Counter) :
    Yields (Reader.count counter) fun count => count < countLimit := by
  have raw : Yields (Reader.unsigned 4) fun raw => raw < 0x100000000 :=
    (Yields.take 4).bind fun bytes length => .pure (by
      have small := LittleEndian.decode_lt bytes
      rwa [length] at small)
  have word : Yields (Reader.word .i32) fun value => value < countLimit :=
    raw.bind fun raw small => .pure (interpret_lt small)
  refine word.bind fun value small => ?_
  by_cases negative : value < 0
  · simp only [if_pos negative]
    intro cursor count moved read
    cases read
  · simp only [if_neg negative]
    refine .pure ?_
    omega

theorem yields_dword : Yields readDword Record.Sized :=
  (Yields.trivial _).bind fun _ _ => (Yields.trivial _).bind fun _ _ => .pure True.intro

theorem yields_write : Yields readWrite AllSized := by
  refine (Yields.trivial _).bind fun _ _ => (Yields.trivial _).bind fun _ _ =>
    (Yields.trivial _).bind fun size _ => ?_
  by_cases positive : 0 < size
  · simp only [if_pos positive]
    refine (Yields.trivial _).bind fun data _ => .pure fun record member => ?_
    rw [List.mem_singleton.mp member]
    exact True.intro
  · simp only [if_neg positive]
    exact .pure fun _ member => nomatch member

theorem yields_group : Yields readGroup AllSized :=
  (Yields.trivial _).bind fun _ _ => (Yields.trivial _).bind fun _ _ => yields_dword.times _

theorem yields_method : Yields readMethod AllSized := by
  refine (Yields.trivial _).bind fun _ _ => (Yields.trivial _).bind fun _ _ =>
    (yields_count .methodSize).bind fun size small => (Yields.take size).bind fun code length =>
      .pure fun record member => ?_
  rw [List.mem_singleton.mp member]
  exact Nat.lt_of_le_of_lt (Nat.le_of_eq length) small

theorem yields_readWhileLeft {reader : Reader (List Record)} {property : Record → Prop}
    (each : Yields reader fun records => ∀ record ∈ records, property record) (fuel : Nat) :
    Yields (readWhileLeft reader fuel) fun records => ∀ record ∈ records, property record := by
  induction fuel with
  | zero => exact .pure fun _ member => nomatch member
  | succ fuel ih =>
      refine (Yields.trivial _).bind fun left _ => ?_
      by_cases more : 1 < left
      · simp only [if_pos more]
        exact each.bind fun first hold => ih.bind fun others hold' =>
          .pure (List.forall_mem_append.mpr ⟨hold, hold'⟩)
      · simp only [if_neg more]
        exact .pure fun _ member => nomatch member

theorem yields_readRecords (format : Format) : Yields (readRecords format) AllSized := by
  refine (Yields.trivial _).bind fun count _ => (Yields.trivial _).bind fun _ _ => ?_
  cases format with
  | legacyTokenRva =>
      exact (Yields.trivial _).bind fun _ _ => (Yields.trivial _).bind fun count _ =>
        (Yields.trivial _).bind fun _ _ => (yields_dword.times count).bind fun patches sized =>
        (Yields.trivial _).bind fun _ _ => (yields_readWhileLeft yields_group _).bind
        fun groups sized' => .pure (List.forall_mem_append.mpr ⟨sized, sized'⟩)
  | rvaTokenSize =>
      exact (yields_dword.times count).bind fun patches sized =>
        (Yields.trivial _).bind fun _ _ => (yields_readWhileLeft yields_write _).bind
        fun writes sized' => .pure (List.forall_mem_append.mpr ⟨sized, sized'⟩)
  | rvaIndexSize =>
      exact (yields_dword.times count).bind fun patches sized =>
        (Yields.trivial _).bind fun _ _ => (Yields.trivial _).bind fun _ _ =>
        (yields_readWhileLeft yields_method _).bind
        fun methods sized' => .pure (List.forall_mem_append.mpr ⟨sized, sized'⟩)

/-- What holds of all that a reader gives holds of the records of a stream. -/
theorem records_of_yields {format : Format} {stream : Bytes} {found : List Record}
    {property : List Record → Prop} (yields : Yields (readRecords format) property)
    (read : records format stream = .ok found) : property found := by
  obtain ⟨moved, decoded⟩ := Reader.decode_eq_ok.mp read
  exact yields _ _ _ decoded

/-- Every method record of a stream has code that a stream can hold. -/
theorem records_sized {format : Format} {stream : Bytes} {found : List Record}
    (read : records format stream = .ok found) : ∀ record ∈ found, record.Sized :=
  records_of_yields (yields_readRecords format) read

end MethodStream

end CilRecovery
