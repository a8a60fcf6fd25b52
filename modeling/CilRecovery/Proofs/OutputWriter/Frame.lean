import CilRecovery.Proofs.Image.Write
import CilRecovery.Proofs.OutputWriter.Slot

/-!
# Encrypting again touches the slot or nothing

An image lends out the bytes of a resource before their number is checked. Whatever goes wrong, it
is left as it was, and otherwise it differs in the bytes of that resource only.
-/

set_option autoImplicit false

namespace CilRecovery

theorem Bytes.overwrite_self {data : Bytes} {offset length : Nat}
    (fits : offset + length ≤ data.length) :
    data.overwrite offset ((data.drop offset).take length) = data := by
  have size : ((data.drop offset).take length).length = length := by
    rw [List.length_take, List.length_drop]
    omega
  rw [overwrite, size, List.append_assoc, ← List.drop_drop, List.take_append_drop,
    List.take_append_drop]

/-- Two images differ in the bytes of a slot at most. -/
structure Image.DifferIn (slot : ResourceLocation) (image other : Image) : Prop where
  length : other.data.length = image.data.length
  outside : ∀ position, position < slot.offset ∨ slot.offset + slot.length ≤ position →
    other.data[position]? = image.data[position]?
  sections : other.sections = image.sections
  methodAddresses : other.methodAddresses = image.methodAddresses
  resources : other.resources = image.resources
  generation : other.generation = image.generation

theorem Image.differIn_write {image : Image} {slot : ResourceLocation} {bytes : Bytes}
    (fills : bytes.length = slot.length) (fits : slot.offset + slot.length ≤ image.data.length) :
    DifferIn slot image (image.write slot.offset bytes) where
  length := Image.length_data_write fills fits
  outside _ apart := Bytes.getElem?_overwrite_of_outside (fills ▸ fits) (fills ▸ apart)
  sections := rfl
  methodAddresses := rfl
  resources := rfl
  generation := rfl

namespace OutputWriter

variable {engine : PatchEngine} {context : ResourceContext} {output left : Image}

/-- What can come of encrypting again in place. The image is as it was unless the slot was
filled. -/
inductive Outcome (engine : PatchEngine) (context : ResourceContext) (output : Image) : Prop
  | failed (error : Error) (kept : reEncrypt engine context output = .error error output)
  | idle (kept : reEncrypt engine context output = .ok 0 output)
  | filled (stream encrypted : Bytes) (count : Nat) (slot : ResourceLocation)
      (serialized : serialize output engine.kept = .ok (some (stream, count)))
      (encryption : context.encrypt (MethodStream.mask engine.hints.maskKey stream) = .ok encrypted)
      (found : output.resourceSlot? context.name = some slot)
      (fills : encrypted.length = slot.length)
      (written : reEncrypt engine context output = .ok count (output.write slot.offset encrypted))

private theorem outcome_encrypted {stream encrypted : Bytes} {count : Nat}
    (serialized : serialize output engine.kept = .ok (some (stream, count)))
    (encryption : context.encrypt (MethodStream.mask engine.hints.maskKey stream) = .ok encrypted) :
    Outcome engine context output := by
  have attempt := encryptSurvivors_eq_some.mpr ⟨stream, serialized, encryption⟩
  cases found : output.resourceSlot? context.name with
  | none =>
      have asked : lend output context.name = .absent output := by simp only [lend, found]
      refine .failed (.notFound (.resource context.name)) ?_
      simp only [reEncrypt, attempt, asked]
  | some slot =>
      obtain ⟨-, fits⟩ := Image.resourceSlot?_eq_some found
      have asked : lend output context.name =
          .lent ((output.data.drop slot.offset).take slot.length) (output.write slot.offset) := by
        simp only [lend, found]
      have size : ((output.data.drop slot.offset).take slot.length).length = slot.length := by
        rw [List.length_take, List.length_drop]
        omega
      by_cases differs : slot.length ≠ encrypted.length
      · refine .failed (.slotMismatch slot.length encrypted.length) ?_
        simp only [reEncrypt, attempt, asked, size, if_pos differs, Image.write,
          Bytes.overwrite_self fits]
      · refine .filled stream encrypted count slot serialized encryption found
          (Decidable.of_not_not differs).symm ?_
        simp only [reEncrypt, attempt, asked, size, if_neg differs]

/-- One case for each way through: on every failure and without survivors the image is as it was. -/
theorem reEncrypt_outcome (engine : PatchEngine) (context : ResourceContext) (output : Image) :
    Outcome engine context output := by
  cases serialized : serialize output engine.kept with
  | error error =>
      refine .failed error ?_
      simp only [reEncrypt, encryptSurvivors, serialized, bind, Except.bind]
  | ok result =>
      cases result with
      | none =>
          refine .idle ?_
          simp only [reEncrypt, encryptSurvivors_eq_none.mpr (serialize_eq_none.mp serialized)]
      | some result =>
          obtain ⟨stream, count⟩ := result
          cases encryption : context.encrypt (MethodStream.mask engine.hints.maskKey stream) with
          | error error =>
              refine .failed error ?_
              simp only [reEncrypt, encryptSurvivors, serialized, encryption, bind, Except.bind]
          | ok encrypted => exact outcome_encrypted serialized encryption

theorem copy_of_ok {count : Nat} (written : reEncrypt engine context output = .ok count left) :
    engine.reEncrypt output context = .ok (count, left) := by
  rw [PatchEngine.reEncrypt, written]

theorem copy_of_error {error : Error}
    (failed : reEncrypt engine context output = .error error left) :
    engine.reEncrypt output context = .error error := by
  rw [PatchEngine.reEncrypt, failed]

private theorem count_of_serialize {stream : Bytes} {count : Nat}
    (serialized : serialize output engine.kept = .ok (some (stream, count))) :
    0 < count ∧ count = engine.kept.toList.countP fun method => output.containsMethod method.1 := by
  obtain ⟨present, rfl, -⟩ := serialize_eq_some.mp serialized
  exact ⟨List.length_pos_iff.mpr present, List.countP_eq_length_filter.symm⟩

/-- An image is left as it was by a failure, and by a success without methods. A success with
methods counts the kept ones that the image contains, puts their encrypted stream into the slot and
changes nothing else. The answer is that of `PatchEngine.reEncrypt`. -/
theorem reEncrypt_slot_or_nothing (engine : PatchEngine) (context : ResourceContext)
    (output : Image) :
    (∀ error left, reEncrypt engine context output = .error error left →
        left = output ∧ engine.reEncrypt output context = .error error) ∧
      (∀ left, reEncrypt engine context output = .ok 0 left →
        left = output ∧ engine.reEncrypt output context = .ok (0, output)) ∧
      ∀ count left, reEncrypt engine context output = .ok count left → 0 < count →
        engine.reEncrypt output context = .ok (count, left) ∧
          count = (engine.kept.toList.countP fun method => output.containsMethod method.1) ∧
          ∃ slot stream encrypted, output.resourceSlot? context.name = some slot ∧
            serialize output engine.kept = .ok (some (stream, count)) ∧
            context.encrypt (MethodStream.mask engine.hints.maskKey stream) = .ok encrypted ∧
            left.resourceData? context.name = some encrypted ∧ Image.DifferIn slot output left := by
  cases reEncrypt_outcome engine context output with
  | failed error kept =>
      rw [kept]
      refine ⟨fun _ _ failed => ?_, nofun, nofun⟩
      cases failed
      exact ⟨rfl, copy_of_error kept⟩
  | idle kept =>
      rw [kept]
      refine ⟨nofun, fun _ succeeded => ?_, fun _ _ succeeded positive => ?_⟩
      · cases succeeded
        exact ⟨rfl, copy_of_ok kept⟩
      · cases succeeded
        cases positive
  | filled stream encrypted count slot serialized encryption found fills written =>
      obtain ⟨positive, counted⟩ := count_of_serialize serialized
      obtain ⟨-, fits⟩ := Image.resourceSlot?_eq_some found
      rw [written]
      refine ⟨nofun, fun _ succeeded => ?_, fun _ _ succeeded _ => ?_⟩
      · cases succeeded
        cases positive
      · cases succeeded
        exact ⟨copy_of_ok written, counted, slot, stream, encrypted, found, serialized, encryption,
          Image.resourceData?_write fills fits found, Image.differIn_write fills fits⟩

/-- A slot of four blocks is filled. -/
theorem reEncrypt_slot_or_nothing_small :
    ∃ left, reEncrypt smallEngine smallContext (smallOutput 32) = .ok 1 left ∧
      smallEngine.reEncrypt (smallOutput 32) smallContext = .ok (1, left) ∧
      Image.DifferIn ⟨8, 32⟩ (smallOutput 32) left := by
  have supported : smallContext.Supported := ⟨rfl, by decide⟩
  obtain ⟨encrypted, count, attempt, length⟩ :=
    (exists_encryptSurvivors supported).mpr ⟨readable_small 32, rfl⟩
  obtain ⟨stream, serialized, -⟩ := encryptSurvivors_eq_some.mp attempt
  obtain ⟨-, rfl, -⟩ := serialize_eq_some.mp serialized
  have written : reEncrypt smallEngine smallContext (smallOutput 32) =
      .ok 1 ((smallOutput 32).write 8 encrypted) := by
    unfold reEncrypt
    rw [attempt]
    change (if 32 ≠ encrypted.length then _ else _) = _
    rw [length, if_neg (fun differs => differs rfl)]
    rfl
  obtain ⟨-, -, filled⟩ := reEncrypt_slot_or_nothing smallEngine smallContext (smallOutput 32)
  obtain ⟨same, -, slot, -, -, found, -, -, -, differ⟩ := filled 1 _ written Nat.one_pos
  cases found
  exact ⟨_, written, same, differ⟩

end OutputWriter

end CilRecovery
