import CilRecovery.AddressIndex
import CilRecovery.Proofs.Method.RoundTrip
import Mathlib.Data.List.Basic

/-!
# Writing into the slot of a resource

What a write into a slot leaves as it was: the layout of the image, the bytes outside the slot and
with them the records and the address index.
-/

set_option autoImplicit false

namespace CilRecovery

def ResourceLocation.Avoids (slot : ResourceLocation) (start length : Nat) : Prop :=
  ∀ position, slot.offset ≤ position → position < slot.offset + slot.length →
    position < start ∨ start + length ≤ position

/-! ## Bytes -/

namespace Bytes

theorem getElem?_overwrite_of_outside {data patch : Bytes} {offset index : Nat}
    (fits : offset + patch.length ≤ data.length)
    (outside : index < offset ∨ offset + patch.length ≤ index) :
    (data.overwrite offset patch)[index]? = data[index]? := by
  have front : (data.take offset).length = offset := List.length_take_of_le (by omega)
  rw [overwrite]
  rcases outside with before | behind
  · rw [List.append_assoc, List.getElem?_append_left (by omega), List.getElem?_take_of_lt before]
  · rw [List.getElem?_append_right (by rw [List.length_append]; omega), List.length_append,
      front, List.getElem?_drop]
    congr 1
    omega

/-- Bytes that a slot leaves alone are read as before. -/
theorem take_drop_overwrite {data patch : Bytes} {slot : ResourceLocation} {start length : Nat}
    (fills : patch.length = slot.length) (fits : slot.offset + slot.length ≤ data.length)
    (avoids : slot.Avoids start length) :
    ((data.overwrite slot.offset patch).drop start).take length =
      (data.drop start).take length := by
  refine List.ext_getElem? fun index => ?_
  rw [List.getElem?_take, List.getElem?_take, List.getElem?_drop, List.getElem?_drop]
  by_cases inside : index < length
  · rw [if_pos inside, if_pos inside]
    refine getElem?_overwrite_of_outside (by omega) ?_
    rcases Nat.lt_or_ge (start + index) slot.offset with before | behind
    · exact .inl before
    · rcases Nat.lt_or_ge (start + index) (slot.offset + slot.length) with covered | clear
      · rcases avoids (start + index) behind covered with low | high <;> omega
      · exact .inr (by omega)
  · rw [if_neg inside, if_neg inside]

theorem take_drop_overwrite_self {data patch : Bytes} {offset : Nat}
    (fits : offset + patch.length ≤ data.length) :
    ((data.overwrite offset patch).drop offset).take patch.length = patch := by
  have front : (data.take offset).length = offset := List.length_take_of_le (by omega)
  rw [overwrite, List.append_assoc, List.drop_left' front, List.take_left]

end Bytes

/-! ## Headers and records -/

/-- The announced size depends on the first two bytes only. -/
theorem Method.Header.announcedSize_take_two (data : Bytes) :
    announcedSize (data.take 2) = announcedSize data := by
  match data with
  | [] => rfl
  | [_] => rfl
  | _ :: _ :: _ => rfl

theorem Method.Header.announcedSize_append {data : Bytes} {size : Nat}
    (announced : announcedSize data = .ok size) (rest : Bytes) :
    announcedSize (data ++ rest) = .ok size := by
  match data with
  | [] => cases announced
  | [first] =>
      by_cases tiny : first % 4 == 2
      · simp only [announcedSize, List.cons_append, if_pos tiny] at announced ⊢
        exact announced
      · by_cases fat : first % 8 == 3
        · simp only [announcedSize, if_neg tiny, if_pos fat] at announced
          cases announced
        · simp only [announcedSize, if_neg tiny, if_neg fat] at announced
          cases announced
  | _ :: _ :: _ => exact announced

/-! ## Images -/

/-- A slot lies in the bytes of its image and is where its resource is. -/
theorem Image.resourceSlot?_eq_some {output : Image} {name : String} {slot : ResourceLocation}
    (found : output.resourceSlot? name = some slot) :
    output.resource? name = some slot ∧ slot.offset + slot.length ≤ output.data.length := by
  rw [Image.resourceSlot?, Option.filter_eq_some_iff] at found
  exact ⟨found.1, by simpa using found.2⟩

section

variable {image : Image} {slot : ResourceLocation} {bytes : Bytes}
  (fills : bytes.length = slot.length) (fits : slot.offset + slot.length ≤ image.data.length)

include fills fits

theorem Image.length_data_write :
    (image.write slot.offset bytes).data.length = image.data.length :=
  Bytes.length_overwrite (by omega)

/-- Addresses are found by the layout and the length, and writing into a slot changes neither. -/
theorem Image.offset?_write (address : UInt32) :
    (image.write slot.offset bytes).offset? address = image.offset? address := by
  simp only [Image.offset?, Image.length_data_write fills fits]
  rfl

/-- A row keeps its key if the two bytes it is found by are left alone. -/
theorem ContainerImage.keyed?_write {row : MethodRow}
    (avoids : row.address ≠ 0 → ∀ start, image.offset? row.address = some start →
      slot.Avoids start 2) :
    keyed? (image.write slot.offset bytes) row = keyed? image row := by
  by_cases absent : row.address = 0
  · rw [keyed?, keyed?, if_pos absent, if_pos absent]
  · rw [keyed?, keyed?, if_neg absent, if_neg absent]
    simp only [bytesAt, Image.bytesAt, Image.offset?_write fills fits]
    cases located : image.offset? row.address with
    | none => rfl
    | some start =>
        have first := Bytes.take_drop_overwrite fills fits (avoids absent start located)
        have same : Method.Header.announcedSize ((image.write slot.offset bytes).data.drop start) =
            Method.Header.announcedSize (image.data.drop start) := by
          rw [← Method.Header.announcedSize_take_two, ← Method.Header.announcedSize_take_two
            (image.data.drop start)]
          exact congrArg _ first
        simp only [bind, Except.bind, same]

/-- A slot without the first two bytes of any record does not change the index. -/
theorem AddressIndex.build_write
    (avoids : ∀ row ∈ image.rows, row.address ≠ 0 → ∀ start,
      image.offset? row.address = some start → slot.Avoids start 2) :
    build (image.write slot.offset bytes) = build image := by
  have same : (image.write slot.offset bytes).rows.filterMap
      (ContainerImage.keyed? (image.write slot.offset bytes)) =
        image.rows.filterMap (ContainerImage.keyed? image) :=
    List.filterMap_congr fun row member =>
      ContainerImage.keyed?_write fills fits (avoids row member)
  exact congrArg (fun entries => AddressIndex.mk (WordMap.ofList entries) image.generation) same

/-- A slot without any byte of a record does not change the record. -/
theorem Method.Body.parse_write {start : Nat} {body : Body}
    (parsed : parse (image.data.drop start) = .ok body)
    (avoids : slot.Avoids start body.totalSize) :
    parse ((image.write slot.offset bytes).data.drop start) = .ok body := by
  obtain ⟨span, rest, split, record⟩ := parse_iff_isRecord.mp parsed
  have untouched := Bytes.take_drop_overwrite fills fits avoids
  have front : (image.data.drop start).take body.totalSize = span := by
    rw [split, ← record.length_eq, List.take_left]
  rw [front] at untouched
  refine parse_iff_isRecord.mpr
    ⟨span, ((image.write slot.offset bytes).data.drop start).drop body.totalSize, ?_, record⟩
  conv => rhs; rw [← untouched]
  exact (List.take_append_drop _ _).symm

theorem Image.resourceSlot?_write (name : String) :
    (image.write slot.offset bytes).resourceSlot? name = image.resourceSlot? name := by
  simp only [Image.resourceSlot?, Image.length_data_write fills fits]
  rfl

theorem Image.resourceData?_write {name : String}
    (found : image.resourceSlot? name = some slot) :
    (image.write slot.offset bytes).resourceData? name = some bytes := by
  have written := @Bytes.take_drop_overwrite_self image.data bytes slot.offset (by omega)
  rw [Image.resourceData?, Image.resourceSlot?_write fills fits, found, Option.map_some, ← fills]
  exact congrArg some written

end

end CilRecovery
