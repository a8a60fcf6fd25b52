import CilRecovery.AddressIndex
import Mathlib.Data.List.Induction

/-!
# Indices that are kept

A cache and its image share nothing but the generation. Whatever happens to the two of them, the
cache answers with the index of the image at its first use after the last reload or invalidation.
-/

set_option autoImplicit false

namespace CilRecovery.AddressIndex.Cache

/-! ## Steps -/

inductive Edit
  | addMethod (address : UInt32)
  | addSection (mapping : SectionMapping)
  | addResource (name : String) (location : ResourceLocation)
  | write (offset : Nat) (bytes : Bytes)

def Edit.apply : Edit → Image → Image
  | addMethod address, image => image.addMethod address
  | addSection mapping, image => image.addSection mapping
  | addResource name location, image => image.addResource name location
  | write offset bytes, image => image.write offset bytes

inductive Step
  | get
  | invalidate
  | reload (data : Bytes)
  | edit (edit : Edit)

/-- Nothing that was built before such a step is used again. -/
def Step.Renews : Step → Prop
  | invalidate => True
  | reload _ => True
  | _ => False

def Step.IsEdit : Step → Prop
  | edit _ => True
  | _ => False

def Step.image : Step → Image → Image
  | get, image => image
  | invalidate, image => image
  | reload data, image => image.reload data
  | edit change, image => change.apply image

def Step.cache : Step → Image → Cache → Cache
  | get, image, cache => cache.refresh image
  | invalidate, _, _ => empty
  | reload _, _, cache => cache
  | edit _, _, cache => cache

def imageAfter (image : Image) (steps : List Step) : Image :=
  steps.foldl (fun image step => step.image image) image

/-- An image and its cache, empty at first, after steps of which the oldest comes first. -/
def run (image : Image) (steps : List Step) : Image × Cache :=
  steps.foldl (fun state step => (step.image state.1, step.cache state.1 state.2)) (image, empty)

@[simp] theorem imageAfter_nil (image : Image) : imageAfter image [] = image := rfl

@[simp] theorem imageAfter_append (image : Image) (first second : List Step) :
    imageAfter image (first ++ second) = imageAfter (imageAfter image first) second :=
  List.foldl_append

@[simp] theorem imageAfter_cons (image : Image) (step : Step) (steps : List Step) :
    imageAfter image (step :: steps) = imageAfter (step.image image) steps := rfl

theorem run_image (image : Image) (steps : List Step) :
    (run image steps).1 = imageAfter image steps := by
  induction steps using List.reverseRecOn with
  | nil => rfl
  | append_singleton steps step ih => simp [run, ← ih]

theorem run_cache_concat (image : Image) (steps : List Step) (step : Step) :
    (run image (steps ++ [step])).2 = step.cache (imageAfter image steps) (run image steps).2 := by
  simp [run, ← run_image]

/-! ## Generations -/

theorem Edit.generation_apply (edit : Edit) (image : Image) :
    (edit.apply image).generation = image.generation := by
  cases edit <;> rfl

theorem generation_imageAfter {steps : List Step} (settled : ∀ step ∈ steps, ¬ step.Renews)
    (image : Image) : (imageAfter image steps).generation = image.generation := by
  induction steps generalizing image with
  | nil => rfl
  | cons step steps ih =>
      obtain ⟨first, others⟩ := List.forall_mem_cons.mp settled
      rw [imageAfter_cons, ih others]
      cases step with
      | get => rfl
      | invalidate => rfl
      | reload data => exact absurd True.intro first
      | edit edit => exact edit.generation_apply image

theorem imageAfter_of_no_edit {steps : List Step} (settled : ∀ step ∈ steps, ¬ step.Renews)
    (unedited : ∀ step ∈ steps, ¬ step.IsEdit) (image : Image) :
    imageAfter image steps = image := by
  induction steps generalizing image with
  | nil => rfl
  | cons step steps ih =>
      obtain ⟨first, others⟩ := List.forall_mem_cons.mp settled
      obtain ⟨first', others'⟩ := List.forall_mem_cons.mp unedited
      rw [imageAfter_cons, ih others others']
      cases step with
      | get => rfl
      | invalidate => rfl
      | reload data => exact absurd True.intro first
      | edit edit => exact absurd True.intro first'

/-! ## What a cache holds -/

inductive Renewed : List Step → Prop
  | start : Renewed []
  | after {steps : List Step} {step : Step} : step.Renews → Renewed (steps ++ [step])

def Idle (steps : List Step) : Prop := ∀ step ∈ steps, ¬ step.Renews ∧ step ≠ .get

/-- Where the steps since the last renewal have no use of the cache, whatever it holds is of an
older generation. Otherwise it holds the index that the first such use has built. -/
inductive Holds (image : Image) (steps : List Step) (cache : Cache) : Prop
  | stale {older unused : List Step} (split : steps = older ++ unused) (renewed : Renewed older)
      (idle : Idle unused)
      (outdated : ∀ index, cache.kept = some index →
        index.generation < (imageAfter image steps).generation)
  | built {older unused later : List Step} (split : steps = older ++ unused ++ .get :: later)
      (renewed : Renewed older) (idle : Idle unused) (settled : ∀ step ∈ later, ¬ step.Renews)
      (kept : cache.kept = some (build (imageAfter image (older ++ unused))))

variable {image : Image} {steps : List Step} {cache : Cache}

theorem get_of_kept {index : AddressIndex} (kept : cache.kept = some index)
    (same : index.generation = image.generation) : cache.get image = index := by
  simp [get, kept, same]

/-- An index of an earlier generation is never answered with. -/
theorem get_of_outdated
    (outdated : ∀ index, cache.kept = some index → index.generation < image.generation) :
    cache.get image = build image := by
  cases kept : cache.kept with
  | none => simp [get, kept]
  | some index => simp [get, kept, Nat.ne_of_lt (outdated index kept)]

/-- A kept index is not newer than the image, since generations only grow. -/
theorem Holds.generation_le (holds : Holds image steps cache) {index : AddressIndex}
    (kept : cache.kept = some index) :
    index.generation ≤ (imageAfter image steps).generation := by
  cases holds with
  | stale _ _ _ outdated => exact Nat.le_of_lt (outdated index kept)
  | built split _ _ settled kept' =>
      obtain rfl := Option.some.inj (kept.symm.trans kept')
      rw [split, imageAfter_append _ (_ ++ _), imageAfter_cons, generation_imageAfter settled]
      exact Nat.le_refl _

/-- What a cache answers in a history. -/
theorem Holds.get_eq (holds : Holds image steps cache) :
    ∃ older unused later, steps ++ [.get] = older ++ unused ++ .get :: later ∧ Renewed older ∧
      Idle unused ∧ (∀ step ∈ later, ¬ step.Renews) ∧
      cache.get (imageAfter image steps) = build (imageAfter image (older ++ unused)) := by
  cases holds with
  | @stale older unused split renewed idle outdated =>
      refine ⟨older, unused, [], by rw [split], renewed, idle, nofun, ?_⟩
      rw [get_of_outdated outdated, split]
  | @built older unused later split renewed idle settled kept =>
      have settled' : ∀ step ∈ later ++ [.get], ¬ step.Renews :=
        List.forall_mem_append.mpr ⟨settled, List.forall_mem_singleton.mpr id⟩
      refine ⟨older, unused, later ++ [.get], by simp [split], renewed, idle, settled', ?_⟩
      refine get_of_kept kept ?_
      rw [split, imageAfter_append _ (_ ++ _), imageAfter_cons, generation_imageAfter settled]
      rfl

/-- Every step keeps the cache in one of its two conditions. -/
theorem Holds.step (holds : Holds image steps cache) (step : Step) :
    Holds image (steps ++ [step]) (step.cache (imageAfter image steps) cache) := by
  cases step with
  | get =>
      obtain ⟨older, unused, later, split, renewed, idle, settled, answer⟩ := holds.get_eq
      exact .built split renewed idle settled (congrArg some answer)
  | invalidate =>
      exact .stale (List.append_nil _).symm (.after True.intro) nofun nofun
  | reload data =>
      refine .stale (List.append_nil _).symm (.after True.intro) nofun fun index kept => ?_
      rw [imageAfter_append]
      exact Nat.lt_succ_of_le (holds.generation_le kept)
  | edit edit =>
      have same := edit.generation_apply (imageAfter image steps)
      cases holds with
      | @stale older unused split renewed idle outdated =>
          have idle' : Idle (unused ++ [.edit edit]) :=
            List.forall_mem_append.mpr ⟨idle, List.forall_mem_singleton.mpr ⟨id, nofun⟩⟩
          refine .stale (by rw [split, List.append_assoc]) renewed idle' fun index kept => ?_
          rw [imageAfter_append]
          exact same ▸ outdated index kept
      | @built older unused later split renewed idle settled kept =>
          have settled' : ∀ step ∈ later ++ [.edit edit], ¬ step.Renews :=
            List.forall_mem_append.mpr ⟨settled, List.forall_mem_singleton.mpr id⟩
          exact .built (by simp [split]) renewed idle settled' kept

/-- The invariant holds after any steps, by induction on the last of them. -/
theorem holds_run (image : Image) (steps : List Step) : Holds image steps (run image steps).2 := by
  induction steps using List.reverseRecOn with
  | nil => exact .stale rfl .start nofun nofun
  | append_singleton steps step ih =>
      rw [run_cache_concat]
      exact ih.step step

/-- Every use of the cache gives the index of the image as it stood at the first use after the last
reload or invalidation. That is the index of the image as it stands now unless it was edited since
then. -/
theorem get_eq_build_at_first_use (image : Image) (steps : List Step) :
    ∃ older unused later, steps ++ [.get] = older ++ unused ++ .get :: later ∧ Renewed older ∧
      Idle unused ∧ (∀ step ∈ later, ¬ step.Renews) ∧
      (run image steps).2.get (run image steps).1 = build (imageAfter image (older ++ unused)) ∧
      ((∀ step ∈ later, ¬ step.IsEdit) →
        (run image steps).2.get (run image steps).1 = build (run image steps).1) := by
  obtain ⟨older, unused, later, split, renewed, idle, settled, answer⟩ :=
    (holds_run image steps).get_eq
  rw [run_image]
  refine ⟨older, unused, later, split, renewed, idle, settled, answer, fun unedited => ?_⟩
  have same : imageAfter image (steps ++ [.get]) = imageAfter image (older ++ unused) := by
    rw [split, imageAfter_append, imageAfter_cons, imageAfter_of_no_edit settled unedited]
    rfl
  rw [answer, ← same, imageAfter_append]
  rfl

end CilRecovery.AddressIndex.Cache
