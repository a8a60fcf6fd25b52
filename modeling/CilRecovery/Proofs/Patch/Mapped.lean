import CilRecovery.Proofs.Except
import CilRecovery.Proofs.Patch
import Mathlib.Data.List.Forall2
import Mathlib.Data.List.Pairwise

/-!
# Patches of the file and of the mapped image

A loader patches addresses, a recovery patches file positions. Both come to the same wherever the
file holds the four bytes of a patch together; a patch at the end of a section's data goes on in
the file with bytes of something else.
-/

set_option autoImplicit false

namespace CilRecovery

/-! ## Addresses and file positions -/

namespace SectionMapping

def Maps (mapping : SectionMapping) (address : UInt32) : Prop :=
  mapping.virtualAddress.toNat ≤ address.toNat ∧
    address.toNat < mapping.virtualAddress.toNat + mapping.virtualSize.toNat

def Holds (mapping : SectionMapping) (position : Nat) : Prop :=
  mapping.rawOffset.toNat ≤ position ∧ position < mapping.rawOffset.toNat + mapping.rawSize.toNat

def Apart (left right : SectionMapping) : Prop :=
  ∀ position, ¬ (left.Holds position ∧ right.Holds position)

instance : Std.Symm Apart := ⟨fun _ _ apart position shared => apart position shared.symm⟩

theorem translate?_eq_some_iff {mapping : SectionMapping} {address : UInt32} {position : Nat} :
    mapping.translate? address = some position ↔
      mapping.virtualAddress.toNat ≤ address.toNat ∧
        address.toNat - mapping.virtualAddress.toNat < mapping.rawSize.toNat ∧
        position = mapping.rawOffset.toNat + (address.toNat - mapping.virtualAddress.toNat) := by
  unfold translate?
  by_cases above : mapping.virtualAddress ≤ address
  · by_cases inside :
        address.toNat - mapping.virtualAddress.toNat < mapping.rawSize.toNat
    · simp only [if_pos above, if_pos inside, Option.some.injEq]
      exact ⟨fun same => ⟨above, inside, same.symm⟩, fun ⟨_, _, same⟩ => same.symm⟩
    · simp only [if_pos above, if_neg inside]
      exact ⟨nofun, fun ⟨_, inside', _⟩ => absurd inside' inside⟩
  · simp only [if_neg above]
    exact ⟨nofun, fun ⟨above', _, _⟩ => absurd above' above⟩

theorem holds_of_translate? {mapping : SectionMapping} {address : UInt32} {position : Nat}
    (translated : mapping.translate? address = some position) : mapping.Holds position := by
  obtain ⟨_, inside, rfl⟩ := translate?_eq_some_iff.mp translated
  exact ⟨Nat.le_add_right _ _, by omega⟩

/-- Within a section no two addresses have one place in the file. -/
theorem translate?_injective {mapping : SectionMapping} {left right : UInt32} {position : Nat}
    (first : mapping.translate? left = some position)
    (second : mapping.translate? right = some position) : left = right := by
  obtain ⟨aboveLeft, _, rfl⟩ := translate?_eq_some_iff.mp first
  obtain ⟨aboveRight, _, same⟩ := translate?_eq_some_iff.mp second
  exact UInt32.toNat_inj.mp (by omega)

end SectionMapping

namespace Image

variable {image : Image}

def SectionsApart (image : Image) : Prop := image.sections.Pairwise SectionMapping.Apart

def MappingsApart (image : Image) : Prop :=
  image.sections.Pairwise fun left right => ∀ address, ¬ (left.Maps address ∧ right.Maps address)

theorem offset?_eq_some_iff {address : UInt32} {position : Nat} :
    image.offset? address = some position ↔
      (if image.sections.isEmpty then some address.toNat
        else image.sections.findSome? (·.translate? address)) = some position ∧
      position < image.data.length := by
  unfold offset?
  simp only [Option.filter_eq_some_iff, decide_eq_true_eq]

/-- Where sections do not share file positions, addresses do not share them either. -/
theorem offset?_injective (apart : image.SectionsApart) {left right : UInt32} {position : Nat}
    (first : image.offset? left = some position) (second : image.offset? right = some position) :
    left = right := by
  obtain ⟨first, -⟩ := offset?_eq_some_iff.mp first
  obtain ⟨second, -⟩ := offset?_eq_some_iff.mp second
  by_cases none : image.sections.isEmpty
  · rw [if_pos none] at first second
    exact UInt32.toNat_inj.mp (Option.some.inj (first.trans second.symm))
  · rw [if_neg none] at first second
    obtain ⟨mapping, listed, translated⟩ := List.exists_of_findSome?_eq_some first
    obtain ⟨other, listed', translated'⟩ := List.exists_of_findSome?_eq_some second
    have same : mapping = other := by
      by_contra different
      have disjoint : mapping.Apart other := apart.forall listed listed' different
      exact disjoint position ⟨SectionMapping.holds_of_translate? translated,
        SectionMapping.holds_of_translate? translated'⟩
    subst same
    exact SectionMapping.translate?_injective translated translated'

/-- The file holds the bytes from an address on one after the other. -/
def HoldsTogether (image : Image) (address : UInt32) (length : Nat) : Prop :=
  ∃ start, ∀ index < length,
    image.offset? (address + UInt32.ofNat index) = some (start + index)

end Image

/-! ## Patches of the mapped image -/

namespace Patch

variable {patch : Patch}

/-- A loader writes the patch over an address. -/
def covers (patch : Patch) (address : UInt32) : Bool :=
  patch.offset.toInt ≤ address.toNat && address.toNat < patch.offset.toInt + 4

private theorem toNat_address (positive : ¬ patch.offset < 0) :
    (patch.address.toNat : Int) = patch.offset.toInt := by
  have nonnegative : 0 ≤ patch.offset.toInt := by
    rw [Int32.lt_iff_toInt_lt] at positive
    exact Int.not_lt.mp positive
  rw [address, Int32.toNat_toUInt32_of_le (Int32.le_iff_toInt_le.mpr nonnegative)]
  exact Int.toNat_of_nonneg nonnegative

private theorem toNat_address_add (positive : ¬ patch.offset < 0) {index : Nat}
    (bound : index < 4) :
    (patch.address + UInt32.ofNat index).toNat = patch.address.toNat + index := by
  have start := toNat_address positive
  have small : patch.offset.toInt < 2 ^ 31 := Int32.toInt_lt patch.offset
  rw [UInt32.toNat_add, UInt32.toNat_ofNat']
  omega

private theorem covers_eq_true_iff (positive : ¬ patch.offset < 0) {address : UInt32} :
    patch.covers address = true ↔
      ∃ index < 4, address = patch.address + UInt32.ofNat index := by
  have start := toNat_address positive
  simp only [covers, Bool.and_eq_true, decide_eq_true_eq, ← start]
  constructor
  · rintro ⟨above, below⟩
    have bound : address.toNat - patch.address.toNat < 4 := by omega
    refine ⟨_, bound, UInt32.toNat_inj.mp ?_⟩
    rw [toNat_address_add positive bound]
    omega
  · rintro ⟨index, bound, rfl⟩
    rw [toNat_address_add positive bound]
    omega

end Patch

namespace PatchTable

/-- The byte that the mapped image has at an address after a loader wrote the table into it. -/
def loaded? (table : PatchTable) (image : Image) (address : UInt32) : Option UInt8 :=
  match table.reverse.find? (·.covers address) with
  | some patch => patch.bytes[address.toNat - patch.address.toNat]?
  | none => (image.offset? address).bind fun position => image.data[position]?

/-- The loader's write at an address and the write at its file position leave the same byte. -/
private structure Agree (address : UInt32) (position : Nat) (patch : Patch)
    (write : Overwrite) : Prop where
  covers : patch.covers address = write.covers position
  byte : patch.covers address = true →
    patch.bytes[address.toNat - patch.address.toNat]? = write.bytes[position - write.start]?

private theorem agree_of_together {image : Image} (apart : image.SectionsApart) {patch : Patch}
    {write : Overwrite} (positive : ¬ patch.offset < 0)
    (placed : image.offset? patch.address = some write.start) (same : write.bytes = patch.bytes)
    {address : UInt32} {position : Nat} (backed : image.offset? address = some position)
    (together : image.HoldsTogether patch.address 4) : Agree address position patch write := by
  obtain ⟨start, held⟩ := together
  have first : write.start = start := by
    have front := held 0 (by decide)
    rw [show patch.address + UInt32.ofNat 0 = patch.address from UInt32.add_zero _, placed] at front
    exact Option.some.inj front
  have size : write.bytes.length = 4 := same ▸ length_bytesOfUInt32 patch.value
  have written_iff : write.covers position = true ↔ ∃ index < 4, position = start + index := by
    simp only [Overwrite.covers, Bool.and_eq_true, decide_eq_true_eq, size, first]
    constructor
    · rintro ⟨above, below⟩
      exact ⟨position - start, by omega, by omega⟩
    · rintro ⟨index, bound, rfl⟩
      omega
  -- Inside the patch, addresses and positions go on in step.
  have step (index : Nat) (bound : index < 4) :
      address = patch.address + UInt32.ofNat index ↔ position = start + index := by
    constructor
    · rintro rfl
      exact Option.some.inj (backed.symm.trans (held index bound))
    · rintro rfl
      exact Image.offset?_injective apart backed (held index bound)
  constructor
  · rw [Bool.eq_iff_iff, Patch.covers_eq_true_iff positive, written_iff]
    exact exists_congr fun index => and_congr_right (step index)
  · intro covered
    obtain ⟨index, bound, reached⟩ := (Patch.covers_eq_true_iff positive).mp covered
    rw [same, first, (step index bound).mp reached, reached,
      Patch.toNat_address_add positive bound, Nat.add_sub_cancel_left, Nat.add_sub_cancel_left]

private theorem agree_of_clear {address : UInt32} {position : Nat} {patch : Patch}
    {write : Overwrite} (uncovered : patch.covers address = false)
    (unwritten : write.covers position = false) : Agree address position patch write :=
  ⟨uncovered.trans unwritten.symm, fun covered => absurd (uncovered.symm.trans covered) nofun⟩

private theorem loaded?_eq_byte? {table : PatchTable} {writes : List Overwrite} {image : Image}
    {address : UInt32} {position : Nat} (backed : image.offset? address = some position)
    (agree : List.Forall₂ (Agree address position) table writes) :
    table.loaded? image address = Overwrite.byte? writes image.data position := by
  have reversed := List.forall₂_reverse_iff.mpr agree
  rw [loaded?, Overwrite.byte?]
  generalize table.reverse = patches at reversed
  generalize writes.reverse = latest at reversed
  induction reversed with
  | nil =>
      simp only [List.find?_nil, backed]
      rfl
  | @cons patch write patches latest same rest ih =>
      rw [List.find?_cons, List.find?_cons, ← same.covers]
      cases covered : patch.covers address with
      | true => exact same.byte covered
      | false => exact ih

/-- Patching a file is patching the mapped image, as long as the file holds every entry together.
An entry that it does not hold together matters only to the addresses that the loader writes it
over and to the positions after its first byte's. -/
theorem apply_eq_loaded {table : PatchTable} {image : Image} {patched : Bytes}
    (apart : image.SectionsApart)
    (applied : table.apply image .virtualAddress image.data = .ok patched)
    {address : UInt32} {position : Nat} (backed : image.offset? address = some position)
    (clear : ∀ patch ∈ table, ¬ image.HoldsTogether patch.address 4 →
      patch.covers address = false ∧
        ∀ start, image.offset? patch.address = some start → position < start ∨
          start + 4 ≤ position) :
    patched.length = image.data.length ∧ patched[position]? = table.loaded? image address := by
  obtain ⟨writes, resolved, rfl⟩ := apply_eq_ok_iff.mp applied
  have listed := (List.forall₂_and_left table writes).mpr ⟨fun _ member => member, resolved⟩
  have agree : List.Forall₂ (Agree address position) table writes := by
    refine listed.imp fun patch write found => ?_
    obtain ⟨member, ok⟩ := found
    obtain ⟨positive, placed, same, -⟩ := resolve_eq_ok_iff.mp ok
    by_cases together : image.HoldsTogether patch.address 4
    · exact agree_of_together apart positive placed same backed together
    · obtain ⟨uncovered, outside⟩ := clear patch member together
      have size : write.bytes.length = 4 := same ▸ length_bytesOfUInt32 patch.value
      refine agree_of_clear uncovered ?_
      have apart := outside write.start placed
      simp only [Overwrite.covers, size, Bool.and_eq_false_iff, decide_eq_false_iff_not]
      omega
  rw [loaded?_eq_byte? backed agree]
  exact ⟨length_apply applied, Overwrite.getElem?_applyAll (fit_of_resolved resolved) position⟩

/-- Two sections of four bytes, one after the other in the file and apart in memory. -/
private def twoSections : Image :=
  ⟨List.replicate 8 0, [⟨0x10, 4, 0, 4⟩, ⟨0x20, 4, 4, 4⟩], [], [], 0⟩

/-- The last two bytes of the first section and two bytes after its end. -/
private def acrossTheEnd : Patch := ⟨0x12, 0x04030201⟩

private def insideAndAcross : PatchTable := [acrossTheEnd, ⟨0x10, 0x0D0C0B0A⟩]

private theorem twoSections_apart : twoSections.SectionsApart := by
  have clear : SectionMapping.Apart ⟨0x10, 4, 0, 4⟩ ⟨0x20, 4, 4, 4⟩ := by
    rintro position ⟨⟨-, below⟩, above, -⟩
    simp only [UInt32.reduceToNat] at below above
    omega
  exact List.pairwise_pair.mpr clear

theorem apply_eq_loaded_inside :
    insideAndAcross.apply twoSections .virtualAddress twoSections.data =
        .ok [0x0A, 0x0B, 0x0C, 0x0D, 0x03, 0x04, 0, 0] ∧
      twoSections.offset? 0x11 = some 1 ∧
        insideAndAcross.loaded? twoSections 0x11 = some 0x0B := by
  have applied : insideAndAcross.apply twoSections .virtualAddress twoSections.data =
      .ok [0x0A, 0x0B, 0x0C, 0x0D, 0x03, 0x04, 0, 0] := by decide +kernel
  have backed : twoSections.offset? 0x11 = some 1 := by decide
  have same := apply_eq_loaded twoSections_apart applied backed <| by
    intro patch member split
    simp only [insideAndAcross, List.mem_cons, List.not_mem_nil, or_false] at member
    obtain rfl | rfl := member
    · exact ⟨by decide, fun start placed => by cases placed; decide⟩
    · exact absurd ⟨0, by decide⟩ split
  exact ⟨applied, backed, same.2.symm⟩

/-- The loader leaves the first byte of the second section alone. The file has there the third
byte of the patch that ends outside the first section. -/
theorem apply_ne_loaded_at_section_end :
    twoSections.SectionsApart ∧ twoSections.MappingsApart ∧
      twoSections.offset? 0x20 = some 4 ∧
      (∃ patched, PatchTable.apply [acrossTheEnd] twoSections .virtualAddress twoSections.data =
        .ok patched ∧ patched[4]? = some 0x03) ∧
      acrossTheEnd.covers 0x20 = false ∧
      PatchTable.loaded? [acrossTheEnd] twoSections 0x20 = some 0 := by
  have mapped : twoSections.MappingsApart := by
    refine List.pairwise_pair.mpr ?_
    rintro address ⟨⟨-, below⟩, above, -⟩
    simp only [UInt32.reduceToNat] at below above
    omega
  have applied : PatchTable.apply [acrossTheEnd] twoSections .virtualAddress twoSections.data =
      .ok [0, 0, 0x01, 0x02, 0x03, 0x04, 0, 0] := by decide +kernel
  exact ⟨twoSections_apart, mapped, by decide, ⟨_, applied, rfl⟩, by decide, by decide⟩

end PatchTable

end CilRecovery
