import CilRecovery.AddressIndex
import CilRecovery.Proofs.Except
import CilRecovery.Proofs.WordMap

/-!
# The owner of a code address

An index finds the last row of the table whose code starts at an address. Where no two rows share a
code address it finds every row with code, and nothing else.
-/

set_option autoImplicit false

namespace CilRecovery.ContainerImage

open Method (Header)

variable {ι : Type} [ContainerImage ι] {image : ι} {row : MethodRow} {address : UInt32}

/-! ## Rows -/

/-- The code of a row comes behind its header, at an address that is counted modulo `2 ^ 32`. -/
structure StartsAt (image : ι) (address : UInt32) (row : MethodRow) : Prop where
  present : row.address ≠ 0
  header : ∃ data size, bytesAt image row.address = .ok data ∧
    Header.announcedSize data = .ok size ∧ (row.address.toNat + size) % UInt32.size = address.toNat

def HasCode (image : ι) (row : MethodRow) : Prop := ∃ address, StartsAt image address row

def DistinctCode (image : ι) : Prop :=
  (rows image).Pairwise fun earlier later =>
    ∀ address, StartsAt image address earlier → ¬ StartsAt image address later

theorem keyed?_eq_some_iff {owner : MethodRow} :
    keyed? image row = some (address, owner) ↔ row = owner ∧ StartsAt image address row := by
  unfold keyed?
  by_cases absent : row.address = 0
  · simp only [absent, ↓reduceIte, reduceCtorEq, false_iff]
    exact fun both => both.2.present absent
  rw [if_neg absent]
  constructor
  · intro keyed
    cases announced : bytesAt image row.address >>= Header.announcedSize with
    | error error => simp [announced] at keyed
    | ok size =>
        obtain ⟨data, located, sized⟩ := Except.bind_eq_ok.mp announced
        obtain ⟨same, rfl⟩ : row.address + UInt32.ofNat size = address ∧ row = owner := by
          simpa [announced] using keyed
        exact ⟨rfl, absent, data, size, located, sized, by simp [← same]⟩
  · intro ⟨same, starts⟩
    subst same
    obtain ⟨data, size, located, sized, reached⟩ := starts.header
    have announced : bytesAt image row.address >>= Header.announcedSize = .ok size :=
      Except.bind_eq_ok.mpr ⟨data, located, sized⟩
    have start : row.address + UInt32.ofNat size = address := by
      apply UInt32.toNat_inj.mp
      simpa using reached
    simp [announced, start]

theorem hasCode_iff : HasCode image row ↔ (keyed? image row).isSome := by
  constructor
  · intro ⟨address, starts⟩
    rw [keyed?_eq_some_iff.mpr ⟨rfl, starts⟩]
    rfl
  · intro some_
    obtain ⟨⟨address, owner⟩, keyed⟩ := Option.isSome_iff_exists.mp some_
    exact ⟨address, (keyed?_eq_some_iff.mp keyed).2⟩

theorem distinctCode_iff :
    DistinctCode image ↔ (((rows image).filterMap (keyed? image)).map Prod.fst).Nodup := by
  rw [DistinctCode, List.Nodup, List.pairwise_map, List.pairwise_filterMap]
  refine List.Pairwise.iff fun earlier later => ?_
  constructor
  · intro distinct first keyed second keyed' same
    have starts := (keyed?_eq_some_iff.mp keyed).2
    have starts' := (keyed?_eq_some_iff.mp keyed').2
    exact distinct first.1 starts (same ▸ starts')
  · intro distinct address starts starts'
    exact distinct _ (keyed?_eq_some_iff.mpr ⟨rfl, starts⟩) _
      (keyed?_eq_some_iff.mpr ⟨rfl, starts'⟩) rfl

instance : DecidablePred (StartsAt image address) := fun _ =>
  decidable_of_iff _ (keyed?_eq_some_iff.trans (and_iff_right rfl))

instance : DecidablePred (HasCode image) := fun _ => decidable_of_iff _ hasCode_iff.symm

instance : Decidable (DistinctCode image) := decidable_of_iff _ distinctCode_iff.symm

/-! ## Entries -/

theorem filter_filterMap_keyed? (table : List MethodRow) :
    (table.filterMap (keyed? image)).filter (fun entry => entry.1 = address) =
      (table.filter (StartsAt image address)).map fun row => (address, row) := by
  induction table with
  | nil => rfl
  | cons row table ih =>
      by_cases starts : StartsAt image address row
      · have keyed := keyed?_eq_some_iff.mpr ⟨rfl, starts⟩
        simp [keyed, starts, ih]
      · cases keyed : keyed? image row with
        | none => simp [keyed, starts, ih]
        | some entry =>
            have other : entry.1 ≠ address := fun same =>
              starts (same ▸ (keyed?_eq_some_iff.mp keyed).2)
            simp [keyed, starts, other, ih]

/-- Rows that share a code address are decided by their order alone. -/
theorem row?_index (image : ι) (address : UInt32) :
    (index image).row? address = ((rows image).filter (StartsAt image address)).getLast? := by
  rw [AddressIndex.row?, index, WordMap.find?_ofList, filter_filterMap_keyed?, List.getLast?_map,
    Option.map_map]
  exact Option.map_id'

/-- An answer is a row of the image, and its code starts at the address. -/
theorem startsAt_of_row? (found : (index image).row? address = some row) :
    row ∈ rows image ∧ StartsAt image address row := by
  rw [row?_index] at found
  simpa using List.mem_of_getLast? found

/-- Without shared addresses the order of the rows plays no part. -/
theorem row?_index_of_distinct (distinct : DistinctCode image) (member : row ∈ rows image)
    (starts : StartsAt image address row) : (index image).row? address = some row := by
  have listed : (address, row) ∈ (rows image).filterMap (keyed? image) :=
    List.mem_filterMap.mpr ⟨row, member, keyed?_eq_some_iff.mpr ⟨rfl, starts⟩⟩
  exact WordMap.find?_ofList_of_mem (distinctCode_iff.mp distinct) listed

theorem size_index_of_distinct (distinct : DistinctCode image) :
    (index image).size = (rows image).countP (HasCode image) := by
  calc (index image).size
    _ = ((rows image).filterMap (keyed? image)).length :=
        WordMap.size_ofList (distinctCode_iff.mp distinct)
    _ = (rows image).countP fun row => (keyed? image row).isSome := List.length_filterMap_eq_countP
    _ = (rows image).countP (HasCode image) := by simp [hasCode_iff]

/-! ## The whole index -/

/-- The index of an image is exact: it knows of every address the last row whose code starts there,
and nothing of other addresses. -/
theorem index_finds_last (image : ι) :
    (∀ address,
      let owner := ((rows image).filter (StartsAt image address)).getLast?
      (index image).row? address = owner ∧
        (index image).resolve? address = owner.map MethodRow.token ∧
        (index image).lookup address = owner.elim (.error (.addressMiss address)) .ok) ∧
    (DistinctCode image →
      (∀ row ∈ rows image, ∀ address, StartsAt image address row →
        (index image).resolve? address = some row.token) ∧
      (index image).size = (rows image).countP (HasCode image) ∧
      ∀ address, (∀ row ∈ rows image, ¬ StartsAt image address row) →
        (index image).resolve? address = none) := by
  refine ⟨fun address => ⟨row?_index image address, ?_, ?_⟩, fun distinct => ⟨?_, ?_, ?_⟩⟩
  · rw [AddressIndex.resolve?, row?_index]
  · rw [AddressIndex.lookup, row?_index]
    cases ((rows image).filter (StartsAt image address)).getLast? <;> rfl
  · intro row member address starts
    rw [AddressIndex.resolve?, row?_index_of_distinct distinct member starts, Option.map_some]
  · exact size_index_of_distinct distinct
  · intro address none
    have empty : (rows image).filter (StartsAt image address) = [] :=
      List.filter_eq_nil_iff.mpr fun row member starts => none row member (of_decide_eq_true starts)
    rw [AddressIndex.resolve?, row?_index, empty]
    rfl

/-- Two tiny methods and a fat one, between them a method without a body, one with an unknown header
and one behind the end of the file. -/
private def sixRows : Image :=
  ⟨[0x00, 0x06, 0x2A, 0x06, 0x2A, 0x00, 0x13, 0x30], [], [1, 0, 3, 5, 6, 9], [], 0⟩

theorem index_finds_last_six :
    DistinctCode sixRows ∧ (AddressIndex.build sixRows).size = 3 ∧
      (AddressIndex.build sixRows).resolve? 18 = some ⟨0x06000005⟩ ∧
      (AddressIndex.build sixRows).lookup 3 = .error (.addressMiss 3) := by
  have distinct : DistinctCode sixRows := by decide
  obtain ⟨owners, ofDistinct⟩ := index_finds_last sixRows
  obtain ⟨resolves, size, -⟩ := ofDistinct distinct
  refine ⟨distinct, size, ?_, (owners 3).2.2⟩
  exact resolves ⟨5, 6⟩ (by decide) 18 (by decide)

end CilRecovery.ContainerImage
