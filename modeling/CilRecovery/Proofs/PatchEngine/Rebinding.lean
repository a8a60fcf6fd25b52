import CilRecovery.Proofs.AddressIndex.Owner
import CilRecovery.Proofs.PatchEngine.KeptCode

/-!
# Kept methods of another image

Whatever the engine keeps belongs to a row of the image that it ran on. An image with the same
rows therefore has every kept method, however its bytes differ.
-/

set_option autoImplicit false

namespace CilRecovery

/-! ## Rows -/

private theorem Token.value_ofMethodRow {row : UInt32} (small : row.toNat < rowLimit) :
    (ofMethodRow row).value.toNat = 0x6000000 + row.toNat := by
  rw [ofMethodRow, UInt32.toNat_ofNat', Nat.mod_eq_of_lt small]
  simp only [rowLimit, methodTable] at small ⊢
  change (6 * _ + _) % _ = _
  omega

private theorem Token.row_ofMethodRow {row : UInt32} (small : row.toNat < rowLimit) :
    (ofMethodRow row).row = row := by
  apply UInt32.toNat_inj.mp
  rw [Token.row, Token.value_ofMethodRow small, UInt32.toNat_ofNat']
  simp only [rowLimit] at small ⊢
  omega

private theorem Token.isMethod_ofMethodRow {row : UInt32} (present : row ≠ 0)
    (small : row.toNat < rowLimit) : (ofMethodRow row).isMethod := by
  have table : (ofMethodRow row).table = methodTable := by
    apply UInt8.toNat_inj.mp
    rw [Token.table, Token.value_ofMethodRow small, UInt8.toNat_ofNat']
    simp only [rowLimit, methodTable] at small ⊢
    change _ = 6
    omega
  rw [isMethod, Token.row_ofMethodRow small, table]
  simp [present]

/-- As long as tokens tell all rows apart, the token of a row names a method. -/
theorem Image.containsMethod_token {image : Image} {row : MethodRow} (listed : row ∈ image.rows)
    (few : image.methodAddresses.length < Token.rowLimit) : image.containsMethod row.token := by
  have number : row.index ≠ 0 ∧ row.index.toNat < Token.rowLimit := by
    obtain ⟨⟨address, index⟩, numbered, rfl⟩ := List.mem_map.mp listed
    have bound := (List.mem_zipIdx numbered).2.1
    have number : (UInt32.ofNat (index + 1)).toNat = index + 1 := by
      rw [UInt32.toNat_ofNat']
      rw [Token.rowLimit] at few
      omega
    dsimp only
    refine ⟨fun zero => ?_, by omega⟩
    rw [zero] at number
    exact absurd number (Nat.succ_ne_zero index).symm
  rw [containsMethod, MethodRow.token, Token.isMethod_ofMethodRow number.1 number.2,
    Token.row_ofMethodRow number.2, Bool.true_and]
  exact List.any_eq_true.mpr ⟨row, listed, beq_self_eq_true _⟩

theorem AddressIndex.mem_rows {image : Image} {address : UInt32} {row : MethodRow}
    (owned : (build image).row? address = some row) : row ∈ image.rows := by
  exact (ContainerImage.startsAt_of_row? owned).1

namespace PatchEngine

/-! ## Kept methods -/

private theorem mem_foldl_keepEntry {history : List Resolved} {table : OpaqueTable}
    {stored : UInt32 × Bytes} (member : stored ∈ (history.foldl keepEntry table).entries) :
    stored ∈ table.entries ∨ ∃ entry ∈ history, entry.token.value = stored.1 := by
  induction history generalizing table with
  | nil => exact .inl member
  | cons entry history ih =>
      rcases ih member with kept | ⟨other, later, same⟩
      · rw [keepEntry] at kept
        split at kept
        · rcases WordMap.mem_place kept with rfl | earlier
          · exact .inr ⟨entry, List.mem_cons_self, rfl⟩
          · exact .inl earlier
        · exact .inl kept
      · exact .inr ⟨other, List.mem_cons_of_mem _ later, same⟩

variable {hints : MethodStream.Hints} {image : Image} {engine : PatchEngine}
  {history : List Resolved}

private theorem mem_rows_of_streamEntries {stream : Bytes} {entry : Resolved}
    (member : entry ∈ streamEntries hints stream image) :
    ∃ row ∈ image.rows, entry.token = row.token := by
  unfold streamEntries at member
  dsimp only at member
  split at member
  · obtain ⟨record, -, found⟩ := List.mem_filterMap.mp member
    cases record with
    | dword address value => cases found
    | write address data => cases found
    | method codeAddress methodIndex code =>
        obtain ⟨token, resolved, rfl⟩ := Option.map_eq_some_iff.mp found
        obtain ⟨row, owned, rfl⟩ := Option.map_eq_some_iff.mp resolved
        exact ⟨row, AddressIndex.mem_rows owned, rfl⟩
  · cases member

/-- Every token that a run resolves is that of a row of the image. -/
theorem Run.mem_rows (run : Run hints image engine history) :
    ∀ entry ∈ history, ∃ row ∈ image.rows, entry.token = row.token := by
  induction run with
  | fresh => exact fun _ member => nomatch member
  | apply run applied ih =>
      intro entry member
      rcases List.mem_append.mp member with earlier | last
      · exact ih entry earlier
      · exact mem_rows_of_streamEntries last

/-- What an engine kept for one image can be rebound to every image with the same rows. -/
theorem Run.rebind_kept (run : Run hints image engine history)
    (few : image.methodAddresses.length < Token.rowLimit) {other : Image}
    (rows : other.methodAddresses = image.methodAddresses) :
    engine.kept.rebind other = .ok () := by
  have present : ∀ method ∈ engine.kept.toList, other.containsMethod method.1 := by
    intro method listed
    obtain ⟨stored, member, rfl⟩ := List.mem_map.mp listed
    rw [run.kept_eq] at member
    rcases mem_foldl_keepEntry member with none | ⟨entry, seen, same⟩
    · cases none
    · obtain ⟨row, placed, owner⟩ := run.mem_rows entry seen
      have listed : row ∈ other.rows := by rwa [Image.rows, rows]
      have token : (⟨stored.1⟩ : Token) = row.token := by rw [← same, ← owner]
      dsimp only
      rw [token]
      exact Image.containsMethod_token listed (rows ▸ few)
  unfold OpaqueTable.rebind
  split
  · rename_i token code found
    have contained := present _ (List.mem_of_find?_eq_some found)
    have absent := List.find?_some found
    dsimp only at contained absent
    rw [contained] at absent
    cases absent
  · rfl

end PatchEngine

end CilRecovery
