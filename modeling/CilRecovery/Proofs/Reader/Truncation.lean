import CilRecovery.Reader

/-!
# Readers on data that is cut short

Where a reader succeeds, it does the same on the first part of the data or runs out of it. It never
takes the end of the data for something else. The number of bytes left may decide how far a reader
is willing to go, so two readers are compared.
-/

set_option autoImplicit false

namespace CilRecovery.Reader

variable {α β : Type}

/-- Where `long` succeeds, `short` does the same on data that is cut short, or runs out of it. -/
def Follows (short long : Reader α) : Prop :=
  ∀ (data rest : Bytes) (position : Nat) (value : α) (moved : Cursor),
    long ⟨data ++ rest, position⟩ = .ok value moved →
      moved.buffer = data ++ rest ∧
        (short ⟨data, position⟩ = .ok value ⟨data, moved.position⟩ ∨
          ∃ stopped, short ⟨data, position⟩ = .error .outOfBounds stopped)

private theorem slice?_append {data rest : Bytes} {offset length : Nat}
    (inside : offset + length ≤ data.length) :
    (data ++ rest).slice? offset length = data.slice? offset length := by
  rw [Bytes.slice?, Bytes.slice?, if_pos (by rw [List.length_append]; omega), if_pos inside,
    List.drop_append_of_le_length (by omega),
    List.take_append_of_le_length (by rw [List.length_drop]; omega)]

namespace Follows

/-! ## Sequencing -/

theorem pure (value : α) : Follows (pure value) (pure value) := by
  intro data rest position result moved read
  cases read
  exact ⟨rfl, .inl rfl⟩

theorem throw (short : Reader α) (error : Error) : Follows short (throw error) := by
  intro data rest position result moved read
  cases read

theorem exhausted {short long : Reader α} (follows : Follows short long) :
    Follows (MonadExcept.throw Error.outOfBounds) long := fun data rest position value moved read =>
  ⟨(follows data rest position value moved read).1, .inr ⟨_, rfl⟩⟩

theorem bind {short long : Reader α} {next next' : α → Reader β} (first : Follows short long)
    (second : ∀ value, Follows (next value) (next' value)) :
    Follows (short >>= next) (long >>= next') := by
  intro data rest position result final read
  change EStateM.bind long next' _ = _ at read
  change _ ∧ (EStateM.bind short next _ = _ ∨ ∃ stopped, EStateM.bind short next _ = _)
  unfold EStateM.bind at read ⊢
  cases started : long ⟨data ++ rest, position⟩ with
  | error error moved =>
      rw [started] at read
      cases read
  | ok value moved =>
      rw [started] at read
      obtain ⟨buffer, middle⟩ := moved
      obtain ⟨kept, same | ⟨stopped, failed⟩⟩ := first data rest position value _ started
      · cases kept
        rw [same]
        exact second value data rest middle result final read
      · cases kept
        rw [failed]
        exact ⟨(second value data rest middle result final read).1, .inr ⟨stopped, rfl⟩⟩

theorem ite {condition : Prop} [Decidable condition] {short short' long long' : Reader α}
    (positive : Follows short long) (negative : Follows short' long') :
    Follows (if condition then short else short') (if condition then long else long') := by
  by_cases holds : condition
  · rwa [if_pos holds, if_pos holds]
  · rwa [if_neg holds, if_neg holds]

theorem atomically {short long : Reader α} (inner : Follows short long) :
    Follows (atomically short) (atomically long) := by
  intro data rest position value moved read
  unfold Reader.atomically at read ⊢
  cases ran : long ⟨data ++ rest, position⟩ with
  | error error stopped =>
      rw [ran] at read
      cases read
  | ok value' moved' =>
      rw [ran] at read
      cases read
      obtain ⟨kept, same | ⟨stopped, failed⟩⟩ := inner data rest position value moved ran
      · rw [same]
        exact ⟨kept, .inl rfl⟩
      · rw [failed]
        exact ⟨kept, .inr ⟨_, rfl⟩⟩

/-! ## Steps -/

theorem position : Follows position position := by
  intro data rest start value moved read
  cases read
  exact ⟨rfl, .inl rfl⟩

/-- What is done with the number of bytes left must not depend on it in an essential way. -/
theorem left {next next' : Nat → Reader β}
    (second : ∀ few many, Follows (next few) (next' many)) :
    Follows (left >>= next) (left >>= next') :=
  fun data rest start =>
    second (data.length - start) ((data ++ rest).length - start) data rest start

theorem check (result : Except Error α) : Follows (check result) (check result) := by
  intro data rest start value moved read
  unfold Reader.check at read ⊢
  split at read
  · cases read
    exact ⟨rfl, .inl rfl⟩
  · cases read

theorem seek (target : Nat) : Follows (seek target) (seek target) := by
  intro data rest start value moved read
  unfold Reader.seek at read ⊢
  split at read
  · cases read
    split
    · exact ⟨rfl, .inl rfl⟩
    · exact ⟨rfl, .inr ⟨_, rfl⟩⟩
  · cases read

theorem skip (count : Nat) : Follows (skip count) (skip count) := by
  intro data rest start value moved read
  unfold Reader.skip at read ⊢
  split at read
  · cases read
    split
    · exact ⟨rfl, .inl rfl⟩
    · exact ⟨rfl, .inr ⟨_, rfl⟩⟩
  · cases read

theorem align (alignment : Nat) (positive : 0 < alignment) :
    Follows (align alignment positive) (align alignment positive) :=
  fun data rest start => skip (paddingTo alignment start) data rest start

theorem peekByte : Follows peekByte peekByte := by
  intro data rest start value moved read
  unfold Reader.peekByte at read ⊢
  split at read
  · rename_i found
    cases read
    by_cases inside : start < data.length
    · rw [List.getElem?_append_left inside] at found
      rw [found]
      exact ⟨rfl, .inl rfl⟩
    · rw [List.getElem?_eq_none (Nat.le_of_not_lt inside)]
      exact ⟨rfl, .inr ⟨_, rfl⟩⟩
  · cases read

theorem take (count : Nat) : Follows (take count) (take count) := by
  intro data rest start value moved read
  unfold Reader.take at read ⊢
  split at read
  · rename_i found
    cases read
    refine ⟨rfl, ?_⟩
    by_cases inside : start + count ≤ data.length
    · rw [slice?_append inside] at found
      rw [found]
      exact .inl rfl
    · rw [Bytes.slice?, if_neg inside]
      exact .inr ⟨_, rfl⟩
  · cases read

theorem unsigned (width : Nat) : Follows (unsigned width) (unsigned width) :=
  (take width).bind fun _ => pure _

theorem byte : Follows byte byte := (unsigned 1).bind fun _ => pure _

theorem uint16 : Follows uint16 uint16 := (unsigned 2).bind fun _ => pure _

theorem uint32 : Follows uint32 uint32 := (unsigned 4).bind fun _ => pure _

end Follows

end CilRecovery.Reader
