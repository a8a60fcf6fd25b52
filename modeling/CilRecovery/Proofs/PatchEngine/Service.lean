import CilRecovery.Proofs.MethodStream.Sizes
import CilRecovery.Proofs.PatchEngine.Writes

/-!
# Engines in service

Whatever streams an engine has been given, for whatever images, and whether they succeeded or not:
the code that it keeps is opaque and has a size that a stream can hold.
-/

set_option autoImplicit false

namespace CilRecovery.PatchEngine

open MethodStream (Record countLimit)

/-- An engine that was only used through its operations. -/
inductive Served : PatchEngine → Prop
  | fresh (hints : MethodStream.Hints) : Served (ofHints hints)
  | apply {engine : PatchEngine} (served : Served engine) (stream : Bytes) (image : Image)
      (target : Bytes) : Served (engine.apply stream image target).engine
  | refresh {engine : PatchEngine} (served : Served engine) (image : Image) :
      Served (engine.refresh image)
  | reset {engine : PatchEngine} (served : Served engine) : Served engine.reset

/-- Native code that is no stub and fits into a stream. -/
structure IsOpaque (code : Bytes) : Prop where
  sized : code.length < countLimit
  classified : NativeStub.classify code = .opaqueCode

def AllOpaque (table : OpaqueTable) : Prop := ∀ entry ∈ table.entries, IsOpaque entry.2

theorem AllOpaque.keepEntry {table : OpaqueTable} (all : AllOpaque table) {entry : Resolved}
    (sized : entry.code.length < countLimit) : AllOpaque (keepEntry table entry) := by
  unfold PatchEngine.keepEntry
  by_cases native : entry.isKept
  · rw [if_pos native]
    intro stored member
    rcases WordMap.mem_place member with rfl | old
    · simp only [Resolved.isKept, isKept, Bool.and_eq_true, beq_iff_eq] at native
      exact ⟨sized, native.2⟩
    · exact all stored old
  · rw [if_neg native]
    exact all

theorem AllOpaque.foldl {entries : List Resolved} {table : OpaqueTable} (all : AllOpaque table)
    (sized : ∀ entry ∈ entries, entry.code.length < countLimit) :
    AllOpaque (entries.foldl PatchEngine.keepEntry table) := by
  induction entries generalizing table with
  | nil => exact all
  | cons entry rest ih =>
      exact ih (all.keepEntry (sized entry List.mem_cons_self))
        fun later member => sized later (List.mem_cons_of_mem _ member)

theorem sized_of_mem_resolvedEntries {index : AddressIndex} {records : List Record}
    (sized : ∀ record ∈ records, record.Sized) {entry : Resolved}
    (member : entry ∈ resolvedEntries index records) : entry.code.length < countLimit := by
  obtain ⟨record, inside, resolved⟩ := List.mem_filterMap.mp member
  cases record with
  | dword address value => cases resolved
  | write address data => cases resolved
  | method codeAddress methodIndex code =>
      obtain ⟨token, _, rfl⟩ := Option.map_eq_some_iff.mp resolved
      exact sized _ inside

/-- Streams that fail are included: what they leave behind is opaque as well. -/
theorem AllOpaque.apply {engine : PatchEngine} (all : AllOpaque engine.kept) (stream : Bytes)
    (image : Image) (target : Bytes) :
    AllOpaque (engine.apply stream image target).engine.kept := by
  cases prepared : prepare engine.hints stream image target.length with
  | error error =>
      rw [PatchEngine.apply, prepared]
      exact all
  | ok plan =>
      obtain ⟨format, records, writes⟩ := plan
      obtain ⟨done, before, kept⟩ := @leftBy_forM_kept (engine.index image) image
        (Overwrite.applyAll writes target) records ⟨engine.kept, .empty, []⟩
      have result : (engine.apply stream image target).engine.kept =
          (resolvedEntries (engine.index image) done).foldl PatchEngine.keepEntry engine.kept := by
        rw [← kept, PatchEngine.apply, prepared]
        dsimp only [PatchEngine.refresh]
        cases records.forM (collect (engine.index image) image (Overwrite.applyAll writes target))
          ⟨engine.kept, .empty, []⟩ <;> rfl
      rw [result]
      have sized := MethodStream.records_sized (prepare_eq_ok_iff.mp prepared).1.read
      exact all.foldl fun entry member => sized_of_mem_resolvedEntries
        (fun record inside => sized record (before.subset inside)) member

/-- An engine in service keeps nothing but opaque code. -/
theorem Served.allOpaque {engine : PatchEngine} (served : Served engine) :
    AllOpaque engine.kept := by
  induction served with
  | fresh hints => exact fun _ member => nomatch member
  | apply served stream image target ih => exact ih.apply stream image target
  | refresh served image ih => exact ih
  | reset served ih => exact fun _ member => nomatch member

end CilRecovery.PatchEngine
