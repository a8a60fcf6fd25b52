import CilRecovery.Proofs.Except
import CilRecovery.Reader

/-!
# Readers behind other bytes

What a reader does on data, it does on the same data with other bytes in front of them. Positions
count from the start of the buffer, so a reader that asks for one is compared with a reader that
gets the larger one. Alignment counts from there as well: it is the same in both buffers if the
bytes in front keep it.
-/

set_option autoImplicit false

namespace CilRecovery

/-- The same place in the same data, behind other bytes. -/
def Cursor.behind (front : Bytes) (cursor : Cursor) : Cursor :=
  ⟨front ++ cursor.buffer, front.length + cursor.position⟩

namespace Reader

variable {α β : Type} {front : Bytes}

/-- The outcome of a run with its cursor behind other bytes. -/
def moveBehind (front : Bytes) : EStateM.Result Error Cursor α → EStateM.Result Error Cursor α
  | .ok value moved => .ok value (moved.behind front)
  | .error error moved => .error error (moved.behind front)

/-- Behind the bytes in front, `far` comes to what `near` comes to without them. -/
def Relocates (front : Bytes) (near far : Reader α) : Prop :=
  ∀ cursor, far (cursor.behind front) = moveBehind front (near cursor)

namespace Relocates

/-! ## Sequencing -/

theorem pure (value : α) : Relocates front (pure value) (pure value) := fun _ => rfl

theorem throw (error : Error) : Relocates front (throw error : Reader α) (throw error) :=
  fun _ => rfl

/-- Only the values that the first reader can return at the cursor have to be continued alike. -/
theorem bind_at {near far : Reader α} {next next' : α → Reader β} {cursor : Cursor}
    (first : far (cursor.behind front) = moveBehind front (near cursor))
    (second : ∀ value moved, near cursor = .ok value moved →
      next' value (moved.behind front) = moveBehind front (next value moved)) :
    (far >>= next') (cursor.behind front) = moveBehind front ((near >>= next) cursor) := by
  cases ran : near cursor with
  | ok value moved =>
      have moved' : far (cursor.behind front) = .ok value (moved.behind front) :=
        first.trans (congrArg (moveBehind front) ran)
      rw [EState.bind_of_ok ran, EState.bind_of_ok moved']
      exact second value moved ran
  | error error stopped =>
      have stopped' : far (cursor.behind front) = .error error (stopped.behind front) :=
        first.trans (congrArg (moveBehind front) ran)
      rw [EState.bind_of_error ran, EState.bind_of_error stopped']
      rfl

theorem bind {near far : Reader α} {next next' : α → Reader β} (first : Relocates front near far)
    (second : ∀ value, Relocates front (next value) (next' value)) :
    Relocates front (near >>= next) (far >>= next') :=
  fun cursor => bind_at (first cursor) fun value moved _ => second value moved

theorem ite {condition : Prop} [Decidable condition] {near near' far far' : Reader α}
    (positive : Relocates front near far) (negative : Relocates front near' far') :
    Relocates front (if condition then near else near') (if condition then far else far') := by
  by_cases holds : condition
  · simpa only [holds, if_true] using positive
  · simpa only [holds, if_false] using negative

theorem atomically_at {near far : Reader α} {cursor : Cursor}
    (inner : far (cursor.behind front) = moveBehind front (near cursor)) :
    atomically far (cursor.behind front) = moveBehind front (atomically near cursor) := by
  unfold Reader.atomically
  rw [inner]
  cases near cursor with
  | ok value moved => rfl
  | error error stopped => rfl

/-! ## Positions -/

theorem position {next next' : Nat → Reader β}
    (second : ∀ start, Relocates front (next start) (next' (front.length + start))) :
    Relocates front (position >>= next) (position >>= next') :=
  fun cursor => second cursor.position cursor

theorem left : Relocates front left left := by
  intro cursor
  have same : (front ++ cursor.buffer).length - (front.length + cursor.position) =
      cursor.buffer.length - cursor.position := by
    rw [List.length_append, Nat.add_sub_add_left]
  exact congrArg (fun count => EStateM.Result.ok count (cursor.behind front)) same

theorem seek (target : Nat) : Relocates front (seek target) (seek (front.length + target)) := by
  intro cursor
  by_cases inside : target ≤ cursor.buffer.length
  · simp [Reader.seek, Cursor.behind, moveBehind, inside]
  · simp [Reader.seek, Cursor.behind, moveBehind, inside]

theorem skip (count : Nat) : Relocates front (skip count) (skip count) := by
  intro cursor
  by_cases inside : cursor.position + count ≤ cursor.buffer.length
  · simp [Reader.skip, Cursor.behind, moveBehind, Nat.add_assoc, inside]
  · simp [Reader.skip, Cursor.behind, moveBehind, Nat.add_assoc, inside]

theorem align {alignment : Nat} (positive : 0 < alignment) (kept : front.length % alignment = 0) :
    Relocates front (align alignment positive) (align alignment positive) := by
  intro cursor
  have same : paddingTo alignment (front.length + cursor.position) =
      paddingTo alignment cursor.position := by
    rw [paddingTo, paddingTo, Nat.add_mod, kept, Nat.zero_add, Nat.mod_mod]
  have padded := @skip front (paddingTo alignment cursor.position) cursor
  simpa only [Reader.align, Cursor.behind, same] using padded

/-! ## Data -/

theorem check (result : Except Error α) : Relocates front (check result) (check result) := by
  intro cursor
  cases result with
  | ok value => rfl
  | error error => rfl

theorem peekByte : Relocates front peekByte peekByte := by
  intro cursor
  have same : (front ++ cursor.buffer)[front.length + cursor.position]? =
      cursor.buffer[cursor.position]? := by
    rw [List.getElem?_append_right (Nat.le_add_right _ _), Nat.add_sub_cancel_left]
  cases found : cursor.buffer[cursor.position]? with
  | none => simp [Reader.peekByte, Cursor.behind, moveBehind, same, found]
  | some byte => simp [Reader.peekByte, Cursor.behind, moveBehind, same, found]

theorem take (count : Nat) : Relocates front (take count) (take count) := by
  intro cursor
  have same : (front ++ cursor.buffer).slice? (front.length + cursor.position) count =
      cursor.buffer.slice? cursor.position count := by
    simp [Bytes.slice?, Nat.add_assoc, List.drop_length_add_append]
  cases found : cursor.buffer.slice? cursor.position count with
  | none => simp [Reader.take, Cursor.behind, moveBehind, same, found]
  | some piece => simp [Reader.take, Cursor.behind, moveBehind, Nat.add_assoc, same, found]

theorem unsigned (width : Nat) : Relocates front (unsigned width) (unsigned width) :=
  (take width).bind fun _ => pure _

theorem byte : Relocates front byte byte := (unsigned 1).bind fun _ => pure _

theorem uint16 : Relocates front uint16 uint16 := (unsigned 2).bind fun _ => pure _

theorem uint32 : Relocates front uint32 uint32 := (unsigned 4).bind fun _ => pure _

end Relocates

end Reader

end CilRecovery
