import CilRecovery.Patch
import CilRecovery.Proofs.Except
import CilRecovery.Proofs.Image.Write
import Mathlib.Data.List.Induction

/-!
# What writes leave behind

Where a write lands, and the bytes of a target after a list of writes: each byte is that of the
last write that covers it.
-/

set_option autoImplicit false

namespace CilRecovery

theorem Bytes.getElem?_overwrite {data patch : Bytes} {offset : Nat}
    (fits : offset + patch.length ≤ data.length) (index : Nat) :
    (data.overwrite offset patch)[index]? =
      if offset ≤ index ∧ index < offset + patch.length then patch[index - offset]?
      else data[index]? := by
  by_cases covered : offset ≤ index ∧ index < offset + patch.length
  · have front : (data.take offset).length = offset := List.length_take_of_le (by omega)
    rw [if_pos covered, overwrite, List.append_assoc, List.getElem?_append_right (by omega), front,
      List.getElem?_append_left (by omega)]
  · rw [if_neg covered]
    exact getElem?_overwrite_of_outside fits (by omega)

/-! ## Addresses -/

variable {ι : Type} [AddressMap ι] {image : ι}

theorem Addressing.resolve_eq_ok_iff {addressing : Addressing} {address : UInt32}
    {length targetLength start : Nat} :
    addressing.resolve image address length targetLength = .ok start ↔
      addressing.start? image address = some start ∧ start + length ≤ targetLength := by
  unfold resolve
  cases addressing.start? image address with
  | none => simp
  | some place =>
      by_cases fits : place + length ≤ targetLength
      · simp only [if_pos fits, Except.ok.injEq, Option.some.injEq]
        constructor
        · rintro rfl
          exact ⟨rfl, fits⟩
        · exact And.left
      · simp only [if_neg fits, Option.some.injEq]
        constructor
        · intro resolved
          cases resolved
        · rintro ⟨rfl, fits'⟩
          exact absurd fits' fits

/-- The write of bytes at an address that lies somewhere. -/
def Addressing.place? (addressing : Addressing) (image : ι) (address : UInt32)
    (bytes : Bytes) : Option Overwrite :=
  (addressing.start? image address).map fun start => ⟨start, bytes⟩

/-! ## Lists of writes -/

namespace Overwrite

def covers (write : Overwrite) (index : Nat) : Bool :=
  write.start ≤ index && index < write.start + write.bytes.length

/-- The byte that writes leave at an index: that of the last one that covers it. -/
def byte? (writes : List Overwrite) (target : Bytes) (index : Nat) : Option UInt8 :=
  match writes.reverse.find? (·.covers index) with
  | some write => write.bytes[index - write.start]?
  | none => target[index]?

def FitsIn (write : Overwrite) (targetLength : Nat) : Prop :=
  write.start + write.bytes.length ≤ targetLength

theorem byte?_concat (writes : List Overwrite) (write : Overwrite) (target : Bytes) (index : Nat) :
    byte? (writes ++ [write]) target index =
      if write.covers index then write.bytes[index - write.start]?
      else byte? writes target index := by
  rw [byte?, List.reverse_append, List.reverse_singleton, List.singleton_append, List.find?_cons]
  cases write.covers index <;> rfl

theorem applyAll_append (first second : List Overwrite) (target : Bytes) :
    applyAll (first ++ second) target = applyAll second (applyAll first target) :=
  List.foldl_append

theorem length_applyAll {writes : List Overwrite} {target : Bytes}
    (fit : ∀ write ∈ writes, write.FitsIn target.length) :
    (applyAll writes target).length = target.length := by
  induction writes using List.reverseRecOn with
  | nil => rfl
  | append_singleton writes write ih =>
      have before := ih fun other member => fit other (List.mem_append_left _ member)
      have last := fit write (List.mem_append_right _ List.mem_cons_self)
      rw [applyAll_append]
      exact (Bytes.length_overwrite (before ▸ last)).trans before

/-- Byte by byte the last write that covers an index decides, provided that every write fits. -/
theorem getElem?_applyAll {writes : List Overwrite} {target : Bytes}
    (fit : ∀ write ∈ writes, write.FitsIn target.length) (index : Nat) :
    (applyAll writes target)[index]? = byte? writes target index := by
  -- From the end, because the last write decides about the bytes that it covers.
  induction writes using List.reverseRecOn with
  | nil => rfl
  | append_singleton writes write ih =>
      have earlier : ∀ other ∈ writes, other.FitsIn target.length :=
        fun other member => fit other (List.mem_append_left _ member)
      have last : write.FitsIn (applyAll writes target).length := by
        rw [length_applyAll earlier]
        exact fit write (List.mem_append_right _ List.mem_cons_self)
      rw [applyAll_append, byte?_concat, ← ih earlier]
      refine (Bytes.getElem?_overwrite last index).trans ?_
      simp only [covers, Bool.and_eq_true, decide_eq_true_eq]

end Overwrite

/-! ## Tables of patches -/

def Patch.address (patch : Patch) : UInt32 := patch.offset.toUInt32

def Patch.bytes (patch : Patch) : Bytes := bytesOfUInt32 patch.value

namespace PatchTable

variable {table : PatchTable} {addressing : Addressing} {target patched : Bytes}

theorem resolve_eq_ok_iff {targetLength : Nat} {patch : Patch} {write : Overwrite} :
    resolve image addressing targetLength patch = .ok write ↔
      ¬ patch.offset < 0 ∧ addressing.start? image patch.address = some write.start ∧
        write.bytes = patch.bytes ∧ write.FitsIn targetLength := by
  have size : patch.bytes.length = 4 := length_bytesOfUInt32 patch.value
  by_cases negative : patch.offset < 0
  · simp only [resolve, if_pos negative]
    exact ⟨nofun, fun found => absurd negative found.1⟩
  · simp only [resolve, if_neg negative]
    constructor
    · intro resolved
      obtain ⟨start, placed, last⟩ := Except.bind_eq_ok.mp resolved
      cases last
      obtain ⟨found, fits⟩ := Addressing.resolve_eq_ok_iff.mp placed
      exact ⟨negative, found, rfl, Nat.le_trans (Nat.le_of_eq (congrArg (start + ·) size)) fits⟩
    · rintro ⟨-, found, same, fits⟩
      rw [Overwrite.FitsIn, same, size] at fits
      refine Except.bind_eq_ok.mpr
        ⟨_, Addressing.resolve_eq_ok_iff.mpr ⟨found, fits⟩, congrArg Except.ok ?_⟩
      cases write
      cases same
      rfl

/-- Carrying out writes cannot fail: everything that can was checked when they were resolved. -/
theorem writeAll_eq (writes : List Overwrite) (target : Bytes) :
    writeAll writes target = .ok () (Overwrite.applyAll writes target) := by
  induction writes generalizing target with
  | nil => rfl
  | cons write rest ih => exact ih (target.overwrite write.start write.bytes)

/-- The target of a table that is refused is left as it was. -/
theorem applyInPlace_eq (image : ι) (addressing : Addressing) (table : PatchTable)
    (target : Bytes) :
    applyInPlace image addressing table target =
      match table.mapM (resolve image addressing target.length) with
      | .ok writes => .ok table.length (Overwrite.applyAll writes target)
      | .error error => .error error target := by
  change EStateM.bind (MonadExcept.ofExcept _) _ target = _
  cases table.mapM (resolve image addressing target.length) with
  | error error => rfl
  | ok writes =>
      change EStateM.bind (writeAll writes) _ target = _
      rw [EStateM.bind, writeAll_eq]
      rfl

/-- On a copy the two phases are one resolution of all patches and one sequence of writes. -/
theorem apply_eq (table : PatchTable) (image : ι) (addressing : Addressing) (target : Bytes) :
    table.apply image addressing target =
      table.mapM (resolve image addressing target.length) >>= fun writes =>
        pure (Overwrite.applyAll writes target) := by
  rw [apply, applyInPlace_eq]
  cases table.mapM (resolve image addressing target.length) <;> rfl

/-- A table is applied exactly if each of its patches has a write in the target. -/
theorem apply_eq_ok_iff :
    table.apply image addressing target = .ok patched ↔
      ∃ writes, List.Forall₂ (fun patch write => resolve image addressing target.length patch =
        .ok write) table writes ∧ patched = Overwrite.applyAll writes target := by
  rw [apply_eq, Except.bind_eq_ok]
  constructor
  · rintro ⟨writes, resolved, last⟩
    exact ⟨writes, Except.mapM_eq_ok.mp resolved, (Except.ok.inj last).symm⟩
  · rintro ⟨writes, resolved, rfl⟩
    exact ⟨writes, Except.mapM_eq_ok.mpr resolved, rfl⟩

/-- A resolved write lies inside the target, so carrying it out keeps the length. -/
theorem fit_of_resolved {targetLength : Nat} {writes : List Overwrite}
    (resolved : List.Forall₂
      (fun patch write => resolve image addressing targetLength patch = .ok write) table writes) :
    ∀ write ∈ writes, write.FitsIn targetLength := by
  induction resolved with
  | nil => exact fun _ member => nomatch member
  | cons first rest ih => exact List.forall_mem_cons.mpr ⟨(resolve_eq_ok_iff.mp first).2.2.2, ih⟩

theorem apply_nil (applied : apply [] image addressing target = .ok patched) :
    patched = target :=
  (Except.ok.inj applied).symm

theorem length_apply (applied : table.apply image addressing target = .ok patched) :
    patched.length = target.length := by
  obtain ⟨writes, resolved, rfl⟩ := apply_eq_ok_iff.mp applied
  exact Overwrite.length_applyAll (fit_of_resolved resolved)

end PatchTable

end CilRecovery
