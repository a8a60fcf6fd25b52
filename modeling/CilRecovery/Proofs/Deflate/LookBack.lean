import CilRecovery.Proofs.Deflate.Grammar

/-!
# Copies of earlier output

Looking back computes the one copy of a length that each match allows, also when it overlaps
itself.
-/

set_option autoImplicit false

namespace CilRecovery.Deflate

variable {earlier copied : Bytes} {distance length : Nat}

/-! ## Repeated windows -/

theorem getElem?_flatten_replicate {window : Bytes} {count index : Nat}
    (inside : index < count * window.length) :
    (List.replicate count window).flatten[index]? = window[index % window.length]? := by
  induction count generalizing index with
  | zero => omega
  | succ count ih =>
      rw [List.replicate_succ, List.flatten_cons]
      by_cases early : index < window.length
      · rw [List.getElem?_append_left early, Nat.mod_eq_of_lt early]
      · have late := Nat.le_of_not_lt early
        rw [Nat.succ_mul] at inside
        rw [List.getElem?_append_right late, ih (by omega), ← Nat.mod_eq_sub_mod late]

theorem getElem?_source (reached : distance ≤ earlier.length) (index : Nat) :
    (earlier ++ copied)[earlier.length + index - distance]? =
      if index < distance then earlier[earlier.length - distance + index]?
      else copied[index - distance]? := by
  by_cases early : index < distance
  · have place : earlier.length + index - distance = earlier.length - distance + index := by omega
    rw [if_pos early, place, List.getElem?_append_left (by omega)]
  · have place : earlier.length + index - distance = earlier.length + (index - distance) := by
      omega
    rw [if_neg early, place, List.getElem?_append_right (by omega), Nat.add_sub_cancel_left]

/-- A copy repeats the last `distance` bytes. -/
theorem isCopy_iff (positive : 0 < distance) :
    IsCopy earlier distance copied ↔
      distance ≤ earlier.length ∧ ∀ index < copied.length,
        copied[index]? = earlier[earlier.length - distance + index % distance]? := by
  constructor
  · intro ⟨reached, same⟩
    refine ⟨reached, fun index inside => ?_⟩
    -- A copy may reach into itself: behind the first `distance` bytes the source is the copy.
    induction index using Nat.strongRecOn with
    | ind index ih =>
        rw [same index inside, getElem?_source reached]
        split
        · rw [Nat.mod_eq_of_lt (by assumption)]
        · rw [ih _ (by omega) (by omega), ← Nat.mod_eq_sub_mod (by omega)]
  · intro ⟨reached, same⟩
    refine ⟨reached, fun index inside => ?_⟩
    rw [same index inside, getElem?_source reached]
    split
    · rw [Nat.mod_eq_of_lt (by assumption)]
    · rw [same _ (by omega), ← Nat.mod_eq_sub_mod (by omega)]

/-! ## The computed copy -/

namespace Inflater

/-- The output is kept in reverse, so a window of it is cut from the other side. -/
theorem window_eq (reached : distance ≤ earlier.length) :
    ((earlier.reverse.drop (distance - length)).take (min distance length)).reverse =
      (earlier.drop (earlier.length - distance)).take (min distance length) := by
  have start : earlier.length - (distance - length) - min distance length =
      earlier.length - distance := by omega
  have size : earlier.length - (distance - length) - (earlier.length - distance) =
      min distance length := by omega
  rw [List.drop_reverse, List.take_reverse, List.reverse_reverse, List.length_take,
    Nat.min_eq_left (Nat.sub_le _ _), start, List.drop_take, size]

theorem le_repeated (positive : 0 < distance) (length : Nat) :
    length ≤ (length / distance + 1) * min distance length := by
  by_cases wide : length ≤ distance
  · rw [Nat.min_eq_right wide]
    exact Nat.le_mul_of_pos_left length (Nat.succ_pos _)
  · rw [Nat.min_eq_left (by omega), Nat.mul_comm]
    exact Nat.le_of_lt (Nat.lt_mul_div_succ length positive)

theorem mod_min {index : Nat} (inside : index < length) :
    index % min distance length = index % distance := by
  by_cases wide : length ≤ distance
  · rw [Nat.min_eq_right wide, Nat.mod_eq_of_lt inside, Nat.mod_eq_of_lt (by omega)]
  · rw [Nat.min_eq_left (by omega)]

/-- A copy that is longer than its distance repeats the window. -/
theorem getElem?_lookBack (positive : 0 < distance) (reached : distance ≤ earlier.length)
    {index : Nat} (inside : index < length) :
    (lookBack earlier.reverse distance length)[index]? =
      earlier[earlier.length - distance + index % distance]? := by
  have size : ((earlier.drop (earlier.length - distance)).take (min distance length)).length =
      min distance length := by
    rw [List.length_take, List.length_drop]
    omega
  have enough := Nat.lt_of_lt_of_le inside (le_repeated positive length)
  have early : index % distance < min distance length :=
    mod_min inside ▸ Nat.mod_lt index (by omega)
  rw [lookBack, window_eq reached, List.getElem?_take_of_lt inside,
    getElem?_flatten_replicate (size.symm ▸ enough), size, mod_min inside,
    List.getElem?_take_of_lt early, List.getElem?_drop]

theorem length_lookBack (positive : 0 < distance) (reached : distance ≤ earlier.length) :
    (lookBack earlier.reverse distance length).length = length := by
  have enough := le_repeated positive length
  rw [lookBack, window_eq reached, List.length_take, List.length_flatten, List.map_replicate,
    List.sum_replicate_nat, List.length_take, List.length_drop]
  have size : min (min distance length) (earlier.length - (earlier.length - distance)) =
      min distance length := by omega
  rw [size]
  exact Nat.min_eq_left enough

/-- The copying loop is the relation that each byte equals the one `distance` before it. -/
theorem isCopy_iff_lookBack (positive : 0 < distance) :
    copied.length = length ∧ IsCopy earlier distance copied ↔
      distance ≤ earlier.length ∧ copied = lookBack earlier.reverse distance length := by
  rw [isCopy_iff positive]
  constructor
  · rintro ⟨rfl, reached, same⟩
    refine ⟨reached, List.ext_getElem? fun index => ?_⟩
    by_cases inside : index < copied.length
    · rw [same index inside, getElem?_lookBack positive reached inside]
    · have outside := Nat.le_of_not_lt inside
      rw [List.getElem?_eq_none outside,
        List.getElem?_eq_none (length_lookBack positive reached ▸ outside)]
  · rintro ⟨reached, rfl⟩
    have size : (lookBack earlier.reverse distance length).length = length :=
      length_lookBack positive reached
    exact ⟨size, reached, fun index inside =>
      getElem?_lookBack positive reached (size ▸ inside)⟩

end Inflater

end CilRecovery.Deflate
