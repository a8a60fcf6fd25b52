import CilRecovery.Deflate.Container
import CilRecovery.Proofs.Except

/-!
# The space of an inflater

What an inflater writes comes out of its space, whether it succeeds or stops, and it stops as full
only when nothing of that is left. So the output never outgrows the space, and it fills the space
wherever it is cut off.
-/

set_option autoImplicit false

namespace CilRecovery.Deflate

/-- The space that is left together with the part that the output has taken. -/
def Progress.capacity (progress : Progress) : Option Nat :=
  progress.space.map (· + progress.reversed.length)

namespace Inflater

variable {α β : Type}

/-- How the space is left by a result. -/
def Leaves (before : Progress) : EStateM.Result Stop Progress α → Prop
  | .ok _ after => after.capacity = before.capacity
  | .error stop after => after.capacity = before.capacity ∧ (stop = .full → after.space = some 0)

structure KeepsCapacity (inflater : Inflater α) : Prop where
  leaves : ∀ before, Leaves before (inflater before)

namespace KeepsCapacity

/-! ## Composition -/

theorem pure (value : α) : KeepsCapacity (pure value : Inflater α) := ⟨fun _ => rfl⟩

theorem throw (stop : Stop) (other : stop ≠ .full) : KeepsCapacity (throw stop : Inflater α) :=
  ⟨fun _ => ⟨rfl, fun full => absurd full other⟩⟩

theorem bind {first : Inflater α} {next : α → Inflater β} (keeps : KeepsCapacity first)
    (later : ∀ value, KeepsCapacity (next value)) : KeepsCapacity (first >>= next) := by
  refine ⟨fun before => ?_⟩
  have begun := keeps.leaves before
  cases began : first before with
  | error stop after =>
      rw [began] at begun
      rw [EState.bind_of_error began]
      exact begun
  | ok value middle =>
      rw [began] at begun
      have same : middle.capacity = before.capacity := begun
      have continued := (later value).leaves middle
      rw [EState.bind_of_ok began]
      cases ended : next value middle with
      | ok result after =>
          rw [ended] at continued
          exact Eq.trans continued same
      | error stop after =>
          rw [ended] at continued
          exact ⟨continued.1.trans same, continued.2⟩

theorem ite {condition : Prop} [Decidable condition] {left right : Inflater α}
    (keeps : KeepsCapacity left) (keeps' : KeepsCapacity right) :
    KeepsCapacity (if condition then left else right) := by
  by_cases holds : condition
  · rwa [if_pos holds]
  · rwa [if_neg holds]

/-! ## Input -/

theorem bit : KeepsCapacity bit := by
  refine ⟨fun before => ?_⟩
  rw [Inflater.bit]
  cases before.input.next? with
  | none => exact ⟨rfl, nofun⟩
  | some read => exact rfl

theorem number (width : Nat) : KeepsCapacity (number width) := by
  induction width with
  | zero => exact pure 0
  | succ width ih => exact bit.bind fun _ => ih.bind fun _ => pure _

theorem times {inflater : Inflater α} (keeps : KeepsCapacity inflater) (count : Nat) :
    KeepsCapacity (times inflater count) := by
  induction count with
  | zero => exact pure []
  | succ count ih => exact keeps.bind fun _ => ih.bind fun _ => pure _

theorem symbol (code : CodeTree) : KeepsCapacity (symbol code) := by
  induction code with
  | gap => exact throw .corrupt nofun
  | leaf symbol => exact pure symbol
  | fork zero one ih ih' => exact bit.bind fun _ => ite ih' ih

theorem align : KeepsCapacity align := ⟨fun _ => rfl⟩

/-! ## Output -/

private theorem capacity_write {space : Option Nat} {count : Nat} (length : Nat)
    (fits : ∀ room ∈ space, count ≤ room) :
    (space.map (· - count)).map (· + (count + length)) = space.map (· + length) := by
  cases space with
  | none => rfl
  | some room =>
      have fits : count ≤ room := fits room rfl
      simp only [Option.map_some, Option.some.injEq]
      omega

private theorem fitting_le {space : Option Nat} (count : Nat) :
    ∀ room ∈ space, fitting space count ≤ room := by
  rintro room rfl
  exact Nat.min_le_right _ _

private theorem space_of_fitting_lt {space : Option Nat} {count : Nat}
    (short : fitting space count < count) : space.map (· - fitting space count) = some 0 := by
  cases space with
  | none => exact absurd short (by simp [fitting])
  | some room =>
      simp only [fitting, Option.getD_some, Option.map_some, Option.some.injEq] at short ⊢
      omega

theorem emit (byte : UInt8) : KeepsCapacity (emit byte) := by
  refine ⟨fun before => ?_⟩
  rw [Inflater.emit]
  by_cases full : before.space = some 0
  · rw [if_pos full]
    exact ⟨rfl, fun _ => full⟩
  · rw [if_neg full]
    have fits : ∀ room ∈ before.space, 1 ≤ room := by
      rintro (_ | room) present
      · exact absurd present full
      · exact Nat.le_add_left 1 room
    have taken := capacity_write before.reversed.length fits
    rw [Nat.add_comm 1] at taken
    exact taken

/-- What is left when a piece, or as much of it as fits, has been written. -/
private theorem leaves_piece {before : Progress} {piece : Bytes} {count : Nat} {input : BitStream}
    (size : piece.length = fitting before.space count) :
    Leaves before (if fitting before.space count < count then
      .error .full ⟨input, before.space.map (· - fitting before.space count),
        piece.reverse ++ before.reversed⟩
    else .ok () ⟨input, before.space.map (· - fitting before.space count),
      piece.reverse ++ before.reversed⟩ : EStateM.Result Stop Progress Unit) := by
  have same : Option.map (· + (piece.reverse ++ before.reversed).length)
      (before.space.map (· - fitting before.space count)) = before.capacity := by
    rw [List.length_append, List.length_reverse, size]
    exact capacity_write _ (fitting_le count)
  by_cases short : fitting before.space count < count
  · rw [if_pos short]
    exact ⟨same, fun _ => space_of_fitting_lt short⟩
  · rw [if_neg short]
    exact same

theorem emitAll (bytes : Bytes) : KeepsCapacity (emitAll bytes) := by
  refine ⟨fun before => ?_⟩
  have size : (bytes.take (fitting before.space bytes.length)).length =
      fitting before.space bytes.length :=
    List.length_take_of_le (Nat.min_le_left _ _)
  exact leaves_piece size

theorem copy (distance length : Nat) : KeepsCapacity (copy distance length) := by
  refine ⟨fun before => ?_⟩
  rw [Inflater.copy]
  split
  · exact ⟨rfl, nofun⟩
  · exact (emitAll _).leaves before

theorem transfer (length : Nat) : KeepsCapacity (transfer length) := by
  refine ⟨fun before => ?_⟩
  let count := fitting before.space length
  let piece := before.input.bytes.take count
  have within : piece.length ≤ count := List.length_take_le _ _
  change Leaves before (if piece.length < count then _ else if count < length then _ else _)
  by_cases starved : piece.length < count
  · rw [if_pos starved]
    refine ⟨?_, nofun⟩
    have fits : ∀ room ∈ before.space, piece.length ≤ room := fun room present =>
      Nat.le_trans within (fitting_le length room present)
    change Option.map (· + (piece.reverse ++ before.reversed).length)
      (before.space.map (· - piece.length)) = before.capacity
    rw [List.length_append, List.length_reverse]
    exact capacity_write _ fits
  · have size : piece.length = count := Nat.le_antisymm within (Nat.not_lt.mp starved)
    rw [if_neg starved, size]
    exact leaves_piece size

/-! ## Blocks -/

theorem classValue (classes : List (Nat × Nat)) (index : Nat) :
    KeepsCapacity (classValue classes index) := by
  rw [Inflater.classValue]
  cases classes[index]? with
  | none => exact throw .corrupt nofun
  | some class_ => exact (number _).bind fun _ => pure _

theorem codedData (literals distances : CodeTree) (fuel : Nat) :
    KeepsCapacity (codedData literals distances fuel) := by
  induction fuel with
  | zero => exact throw .starved nofun
  | succ fuel ih =>
      unfold Inflater.codedData
      refine (symbol literals).bind fun literal => ite ((emit _).bind fun _ => ih) ?_
      refine ite (pure ()) ((classValue lengthClasses _).bind fun length => ?_)
      refine (symbol distances).bind fun slot => ?_
      exact (classValue distanceClasses slot).bind fun distance => (copy _ _).bind fun _ => ih

theorem dataCode (lengths : List Nat) : KeepsCapacity (dataCode lengths) := by
  unfold Inflater.dataCode
  split
  · exact pure _
  · exact throw .corrupt nofun

theorem codeLengths (code : CodeTree) (total fuel : Nat) (reversed : List Nat) :
    KeepsCapacity (codeLengths code total fuel reversed) := by
  induction fuel generalizing reversed with
  | zero => exact throw .corrupt nofun
  | succ fuel ih =>
      have repeats (width first value : Nat) (reversed : List Nat) :
          KeepsCapacity (Inflater.number width >>= fun count =>
            Inflater.codeLengths code total fuel
              (List.replicate (first + count) value ++ reversed)) :=
        (number width).bind fun _ => ih _
      unfold Inflater.codeLengths
      refine ite (throw .corrupt nofun) (ite (pure _) ((symbol code).bind fun length => ite (ih _) ?_))
      refine ite ?_ (ite (repeats 3 3 0 reversed) (repeats 7 11 0 reversed))
      cases reversed with
      | nil => exact throw .corrupt nofun
      | cons previous others => exact repeats 2 3 previous _

theorem guarded {bad : Prop} [Decidable bad] {next : Unit → Inflater α} (stop : Stop)
    (other : stop ≠ .full) (keeps : KeepsCapacity (next ())) :
    KeepsCapacity (if bad then MonadExcept.throw stop >>= next else next ()) :=
  ite ((throw stop other).bind fun _ => keeps) keeps

theorem describedCodes : KeepsCapacity describedCodes := by
  unfold Inflater.describedCodes
  refine (number 5).bind fun literalCount => (number 5).bind fun distanceCount => ?_
  refine (number 4).bind fun storedCount => ?_
  dsimp only
  refine guarded .corrupt nofun ((times (number 3) _).bind fun stored => ?_)
  refine guarded .corrupt nofun ?_
  refine (codeLengths _ _ _ _).bind fun all => ?_
  exact (dataCode _).bind fun literals => (dataCode _).bind fun distances => pure _

theorem storedData : KeepsCapacity storedData :=
  align.bind fun _ => (number 16).bind fun _ => (number 16).bind fun _ =>
    guarded .corrupt nofun (transfer _)

theorem blocks (bound fuel : Nat) : KeepsCapacity (blocks bound fuel) := by
  induction fuel with
  | zero => exact throw .starved nofun
  | succ fuel ih =>
      have later (isLast : Bool) : KeepsCapacity
          (if isLast then Pure.pure () else Inflater.blocks bound fuel) := ite (pure ()) ih
      refine bit.bind fun isLast => (number 2).bind fun kind => ?_
      exact ite (storedData.bind fun _ => later isLast) <|
        ite ((codedData _ _ _).bind fun _ => later isLast) <|
        ite (describedCodes.bind fun _ => (codedData _ _ _).bind fun _ => later isLast) <|
        (throw .corrupt nofun).bind fun _ => later isLast

end KeepsCapacity

end Inflater

/-! ## Outcomes -/

theorem Progress.capacity_eq_some {progress : Progress} {room : Nat} :
    progress.capacity = some room ↔
      ∃ left, progress.space = some left ∧ left + progress.reversed.length = room :=
  Option.map_eq_some_iff

/-- The output stays in its space, and it fills the space if it is cut off. -/
theorem length_output (data : Bytes) (room : Nat) :
    (inflate data (some room) []).output.length ≤ room ∧
      ((inflate data (some room) []).stop = some .full →
        (inflate data (some room) []).output.length = room) := by
  have length (reversed : Bytes) :
      (reversed.take (reversed.length - ([] : Bytes).length)).reverse.length = reversed.length := by
    simp
  have leaves := (Inflater.KeepsCapacity.blocks (8 * data.length + 1) (8 * data.length + 1)).leaves
    ⟨BitStream.ofBytes data, some room, []⟩
  have start : Progress.capacity ⟨BitStream.ofBytes data, some room, []⟩ = some room := rfl
  unfold inflate
  simp only [List.reverse_nil]
  cases ended : Inflater.blocks (8 * data.length + 1) (8 * data.length + 1)
      ⟨BitStream.ofBytes data, some room, []⟩ with
  | ok value after =>
      rw [ended] at leaves
      obtain ⟨left, -, total⟩ := Progress.capacity_eq_some.mp (Eq.trans leaves start)
      simp only [length]
      exact ⟨by omega, nofun⟩
  | error stop after =>
      rw [ended] at leaves
      obtain ⟨left, present, total⟩ := Progress.capacity_eq_some.mp (leaves.1.trans start)
      simp only [length]
      refine ⟨by omega, fun full => ?_⟩
      have none := leaves.2 (Option.some.inj full)
      rw [present] at none
      have none : left = 0 := Option.some.inj none
      omega

/-- The container never writes past its space, and fills it before it stops for want of it. -/
theorem Zlib.length_output (data : Bytes) (room : Nat) :
    (inflate data room).output.length ≤ room ∧
      ((inflate data room).stop = some .full → (inflate data room).output.length = room) := by
  unfold inflate
  split
  · rename_i method flags data
    have inner := Deflate.length_output data room
    split
    · dsimp only
      split
      · exact inner
      · split
        · refine ⟨inner.1, fun full => ?_⟩
          split at full <;> cases full
        · exact ⟨inner.1, nofun⟩
    · exact ⟨Nat.zero_le _, nofun⟩
  · exact ⟨Nat.zero_le _, nofun⟩

end CilRecovery.Deflate
