import CilRecovery.Proofs.Patch

/-!
# Tables are applied as a whole or not at all

A table is refused for any of its entries, and then the target is as it was. Otherwise every byte
that entries cover is that of the last one of them, and the others are kept; so applying the table
to the outcome changes nothing.
-/

set_option autoImplicit false

namespace CilRecovery

variable {ι : Type} [AddressMap ι]

/-! ## Entries -/

namespace Patch

def write? (image : ι) (addressing : Addressing) (patch : Patch) : Option Overwrite :=
  if patch.offset < 0 then none
  else (addressing.start? image patch.address).map fun start => ⟨start, patch.bytes⟩

/-- The address is negative or lies nowhere, or the target ends before the fourth byte. -/
def Misses (image : ι) (addressing : Addressing) (targetLength : Nat) (patch : Patch) : Prop :=
  patch.offset < 0 ∨ addressing.start? image patch.address = none ∨
    ∃ start, addressing.start? image patch.address = some start ∧ targetLength < start + 4

theorem resolve_eq (image : ι) (addressing : Addressing) (targetLength : Nat) (patch : Patch) :
    PatchTable.resolve image addressing targetLength patch =
      (patch.write? image addressing).elim (.error .outOfBounds) fun write =>
        if write.start + 4 ≤ targetLength then .ok write else .error .outOfBounds := by
  unfold PatchTable.resolve write?
  by_cases negative : patch.offset < 0
  · rw [if_pos negative, if_pos negative]
    rfl
  · rw [if_neg negative, if_neg negative, Addressing.resolve, ← address]
    cases addressing.start? image patch.address with
    | none => rfl
    | some start =>
        by_cases fits : start + 4 ≤ targetLength
        · simp only [if_pos fits, Option.map_some, Option.elim_some]
          rfl
        · simp only [if_neg fits, Option.map_some, Option.elim_some]
          rfl

variable {image : ι} {addressing : Addressing} {targetLength : Nat} {patch : Patch}

theorem not_misses_iff :
    ¬ patch.Misses image addressing targetLength ↔
      ∃ write, patch.write? image addressing = some write ∧ write.start + 4 ≤ targetLength := by
  unfold Misses write?
  by_cases negative : patch.offset < 0
  · simp [negative]
  · cases addressing.start? image patch.address <;> simp [negative]

instance : Decidable (patch.Misses image addressing targetLength) :=
  decidable_of_iff
    (¬ (patch.write? image addressing).any fun write => write.start + 4 ≤ targetLength) <| by
      rw [Option.any_eq_true, ← not_iff_not, not_not, not_misses_iff]
      simp only [decide_eq_true_eq]

theorem resolve_of_misses (misses : patch.Misses image addressing targetLength) :
    PatchTable.resolve image addressing targetLength patch = .error .outOfBounds := by
  rw [resolve_eq]
  cases placed : patch.write? image addressing with
  | none => rfl
  | some write =>
      refine if_neg fun fits => ?_
      exact not_misses_iff.mpr ⟨write, placed, fits⟩ misses

theorem length_bytes_of_write? {write : Overwrite}
    (placed : patch.write? image addressing = some write) : write.bytes.length = 4 := by
  unfold write? at placed
  split at placed
  · cases placed
  · obtain ⟨start, -, rfl⟩ := Option.map_eq_some_iff.mp placed
    exact length_bytesOfUInt32 patch.value

end Patch

/-! ## Tables -/

namespace PatchTable

variable {image : ι} {addressing : Addressing} {table : PatchTable} {target : Bytes}

def writes (table : PatchTable) (image : ι) (addressing : Addressing) : List Overwrite :=
  table.filterMap (Patch.write? image addressing)

variable {targetLength : Nat}

theorem fit_writes (land : ∀ patch ∈ table, ¬ patch.Misses image addressing targetLength) :
    ∀ write ∈ table.writes image addressing, write.FitsIn targetLength := by
  intro write member
  obtain ⟨patch, listed, placed⟩ := List.mem_filterMap.mp member
  obtain ⟨write', placed', fits⟩ := Patch.not_misses_iff.mp (land patch listed)
  cases placed.symm.trans placed'
  rwa [Overwrite.FitsIn, Patch.length_bytes_of_write? placed]

theorem mapM_resolve_of_land
    (land : ∀ patch ∈ table, ¬ patch.Misses image addressing targetLength) :
    table.mapM (resolve image addressing targetLength) = .ok (table.writes image addressing) := by
  induction table with
  | nil => rfl
  | cons patch rest ih =>
      obtain ⟨first, later⟩ := List.forall_mem_cons.mp land
      obtain ⟨write, placed, fits⟩ := Patch.not_misses_iff.mp first
      have resolved : resolve image addressing targetLength patch = .ok write := by
        rw [Patch.resolve_eq, placed]
        exact if_pos fits
      have cons : writes (patch :: rest) image addressing =
          write :: writes rest image addressing := List.filterMap_cons_some placed
      rw [List.mapM_cons, resolved, ih later, cons]
      rfl

/-- One patch that misses is enough. Which one does not show in the error. -/
theorem mapM_resolve_of_misses {patch : Patch} (listed : patch ∈ table)
    (misses : patch.Misses image addressing targetLength) :
    table.mapM (resolve image addressing targetLength) = .error .outOfBounds := by
  cases resolved : table.mapM (resolve image addressing targetLength) with
  | ok writes =>
      obtain ⟨write, found⟩ := Except.exists_mapM_eq_ok.mp ⟨writes, resolved⟩ patch listed
      rw [Patch.resolve_of_misses misses] at found
      cases found
  | error error =>
      -- Whichever entry is refused first, the error is the same.
      obtain ⟨other, -, refused⟩ := Except.mapM_eq_error resolved
      by_cases lands : other.Misses image addressing targetLength
      · rw [Patch.resolve_of_misses lands] at refused
        cases refused
        rfl
      · obtain ⟨write, placed, fits⟩ := Patch.not_misses_iff.mp lands
        rw [Patch.resolve_eq, placed, Option.elim_some, if_pos fits] at refused
        cases refused

/-- With no patch missing, the count is the number of entries, and all writes are carried out in
order. -/
theorem applyInPlace_of_land
    (land : ∀ patch ∈ table, ¬ patch.Misses image addressing target.length) :
    applyInPlace image addressing table target =
      .ok table.length (Overwrite.applyAll (table.writes image addressing) target) := by
  rw [applyInPlace_eq, mapM_resolve_of_land land]

/-- Writes that have been carried out leave nothing to do. -/
theorem applyAll_applyAll {writes : List Overwrite}
    (fit : ∀ write ∈ writes, write.FitsIn target.length) :
    Overwrite.applyAll writes (Overwrite.applyAll writes target) =
      Overwrite.applyAll writes target := by
  have length := Overwrite.length_applyAll fit
  refine List.ext_getElem? fun index => ?_
  rw [Overwrite.getElem?_applyAll (length.symm ▸ fit), Overwrite.byte?]
  cases covering : writes.reverse.find? (·.covers index) with
  | none => rfl
  | some write => rw [Overwrite.getElem?_applyAll fit, Overwrite.byte?, covering]

/-- A table is refused, and the target left as it was, exactly if one of its entries has a negative
address, an address that lies nowhere or fewer than four bytes of the target. Otherwise each byte
is that of the last entry that covers it, or what it was, and a second time changes nothing. -/
theorem applyInPlace_atomic (image : ι) (addressing : Addressing) (table : PatchTable)
    (target : Bytes) :
    (applyInPlace image addressing table target = .error .outOfBounds target ↔
      ∃ patch ∈ table, patch.Misses image addressing target.length) ∧
    ((∀ patch ∈ table, ¬ patch.Misses image addressing target.length) →
      ∃ patched, applyInPlace image addressing table target = .ok table.length patched ∧
        patched.length = target.length ∧
        (∀ index, patched[index]? =
          Overwrite.byte? (table.writes image addressing) target index) ∧
        applyInPlace image addressing table patched = .ok table.length patched) := by
  constructor
  · constructor
    · intro refused
      by_contra none
      have land : ∀ patch ∈ table, ¬ patch.Misses image addressing target.length :=
        fun patch listed misses => none ⟨patch, listed, misses⟩
      rw [applyInPlace_of_land land] at refused
      cases refused
    · rintro ⟨patch, listed, misses⟩
      rw [applyInPlace_eq, mapM_resolve_of_misses listed misses]
  · intro land
    have fit := fit_writes land
    have length := Overwrite.length_applyAll fit
    have again : ∀ patch ∈ table, ¬ patch.Misses image addressing
        (Overwrite.applyAll (table.writes image addressing) target).length := by
      rwa [length]
    refine ⟨_, applyInPlace_of_land land, length, Overwrite.getElem?_applyAll fit, ?_⟩
    rw [applyInPlace_of_land again, applyAll_applyAll fit]

private def plainImage : Image := Image.ofBytes (Bytes.zeros 16)

private def overlapping : PatchTable := [⟨2, 0x04030201⟩, ⟨4, 0x0D0C0B0A⟩, ⟨1, 0x14131211⟩]

/-- Three entries over one another in a target that is shorter than its image, and the same with an
entry that the target has three bytes for. -/
theorem applyInPlace_atomic_overlapping :
    (∀ patch ∈ overlapping, ¬ patch.Misses plainImage .virtualAddress 8) ∧
      applyInPlace plainImage .virtualAddress overlapping (Bytes.zeros 8) =
        .ok 3 [0, 0x11, 0x12, 0x13, 0x14, 0x0B, 0x0C, 0x0D] ∧
      applyInPlace plainImage .virtualAddress overlapping
          [0, 0x11, 0x12, 0x13, 0x14, 0x0B, 0x0C, 0x0D] =
        .ok 3 [0, 0x11, 0x12, 0x13, 0x14, 0x0B, 0x0C, 0x0D] ∧
      applyInPlace plainImage .virtualAddress (overlapping ++ [⟨5, 0⟩]) (Bytes.zeros 8) =
        .error .outOfBounds (Bytes.zeros 8) := by
  have land : ∀ patch ∈ overlapping, ¬ patch.Misses plainImage .virtualAddress 8 := by
    decide +kernel
  have applied : applyInPlace plainImage .virtualAddress overlapping (Bytes.zeros 8) =
      .ok 3 [0, 0x11, 0x12, 0x13, 0x14, 0x0B, 0x0C, 0x0D] := by
    have written : Overwrite.applyAll (overlapping.writes plainImage .virtualAddress)
        (Bytes.zeros 8) = [0, 0x11, 0x12, 0x13, 0x14, 0x0B, 0x0C, 0x0D] := by decide +kernel
    rw [applyInPlace_of_land land, written]
    rfl
  obtain ⟨patched, same, -, -, again⟩ :=
    (applyInPlace_atomic plainImage .virtualAddress overlapping (Bytes.zeros 8)).2 land
  obtain ⟨-, rfl⟩ := EStateM.Result.ok.inj (applied.symm.trans same)
  have refused : ∃ patch ∈ overlapping ++ [⟨5, 0⟩],
      patch.Misses plainImage .virtualAddress (Bytes.zeros 8).length := by decide +kernel
  have whole := applyInPlace_atomic plainImage .virtualAddress (overlapping ++ [⟨5, 0⟩])
    (Bytes.zeros 8)
  exact ⟨land, applied, again, whole.1.mpr refused⟩

end PatchTable

end CilRecovery
