import CilRecovery.Proofs.Image.Write
import CilRecovery.Proofs.OutputWriter.Slot

/-!
# The stream of the surviving methods

A stream that can be written names, for every surviving method in token order, the code address
of a row of the output that has its token and a readable record.
-/

set_option autoImplicit false

namespace CilRecovery.OpaqueTable

open MethodStream (MethodEntry)

/-! ## Survivors -/

theorem ordered_toList (table : OpaqueTable) :
    table.toList.Pairwise fun left right => left.1.value < right.1.value :=
  List.pairwise_map.mpr table.ordered

/-- The output has the kept methods in the order of their tokens, each of them once. -/
theorem ordered_surviving (table : OpaqueTable) (output : Image) :
    (table.surviving output).Pairwise fun left right => left.1.value < right.1.value :=
  (ordered_toList table).filter _

theorem surviving_mem {table : OpaqueTable} {output : Image} {method : Token × Bytes}
    (member : method ∈ table.surviving output) :
    (method.1.value, method.2) ∈ table.entries ∧ output.containsMethod method.1 := by
  obtain ⟨listed, contained⟩ := List.mem_filter.mp member
  obtain ⟨entry, stored, rfl⟩ := List.mem_map.mp listed
  exact ⟨stored, contained⟩

private theorem method_bounds {token : Token} (method : token.isMethod) :
    0x6000000 ≤ token.value.toNat ∧ token.value.toNat < 0x7000000 := by
  have small : token.value.toNat < 0x100000000 := token.value.toNat_lt
  simp only [Token.isMethod, Token.table, Bool.and_eq_true, beq_iff_eq] at method
  have table := congrArg UInt8.toNat method.1
  rw [UInt8.toNat_ofNat'] at table
  simp only [Token.rowLimit, Token.methodTable] at table
  change _ = 6 at table
  omega

private theorem length_of_increasing {values : List Nat} {low high : Nat}
    (ordered : values.Pairwise (· < ·)) (bounds : ∀ value ∈ values, low ≤ value ∧ value < high)
    (room : low ≤ high) : low + values.length ≤ high := by
  induction values generalizing low with
  | nil => exact room
  | cons value rest ih =>
      obtain ⟨smallest, ordered'⟩ := List.pairwise_cons.mp ordered
      obtain ⟨above, below⟩ := bounds value List.mem_cons_self
      have others := ih ordered' (fun later member =>
        ⟨smallest later member, (bounds later (List.mem_cons_of_mem _ member)).2⟩) below
      rw [List.length_cons]
      omega

/-- There are no more survivors than method tokens. -/
theorem length_surviving_le (table : OpaqueTable) (output : Image) :
    (table.surviving output).length ≤ Token.rowLimit := by
  have ordered : ((table.surviving output).map fun method => method.1.value.toNat).Pairwise
      (· < ·) := List.pairwise_map.mpr (ordered_surviving table output)
  have counted := @length_of_increasing _ 0x6000000 0x7000000 ordered (by
    intro value member
    obtain ⟨method, inside, rfl⟩ := List.mem_map.mp member
    have contained := (surviving_mem inside).2
    rw [Image.containsMethod, Bool.and_eq_true] at contained
    exact method_bounds contained.1) (by decide)
  rw [List.length_map] at counted
  unfold Token.rowLimit
  omega

/-! ## Entries -/

/-- A row of the image has the token, a readable record at `start`, and an indexed address. -/
structure IsHome (image : Image) (token : Token) (codeAddress : UInt32) (row : MethodRow)
    (start : Nat) (body : Method.Body) : Prop where
  listed : row ∈ image.rows
  named : row.token = token
  indexed : ContainerImage.keyed? image row = some (codeAddress, row)
  located : image.offset? row.address = some start
  parsed : Method.Body.parse (image.data.drop start) = .ok body
  found : image.methodBody? token =
    some ⟨row.address, (image.data.drop start).take body.totalSize⟩

private theorem methodBody?_eq_some {image : Image} {token : Token} {written : WrittenBody}
    (found : image.methodBody? token = some written) :
    ∃ row start body, row ∈ image.rows ∧ row.token = token ∧ row.address ≠ 0 ∧
      image.offset? row.address = some start ∧
      Method.Body.parse (image.data.drop start) = .ok body ∧
      written = ⟨row.address, (image.data.drop start).take body.totalSize⟩ := by
  unfold Image.methodBody? at found
  obtain ⟨row, first, found⟩ := Option.bind_eq_some_iff.mp found
  obtain ⟨_, present, found⟩ := Option.bind_eq_some_iff.mp found
  obtain ⟨data, reached, found⟩ := Option.bind_eq_some_iff.mp found
  obtain ⟨body, parsed, found⟩ := Option.bind_eq_some_iff.mp found
  have nonzero : row.address ≠ 0 := by
    intro absent
    simp [guard, absent] at present
  have named : row.token = token := by simpa using List.find?_some first
  cases located : image.offset? row.address with
  | none =>
      rw [Image.bytesAt, located] at reached
      cases reached
  | some start =>
      rw [Image.bytesAt, located] at reached
      cases reached
      cases read : Method.Body.parse (image.data.drop start) with
      | error error =>
          rw [read] at parsed
          cases parsed
      | ok body' =>
          rw [read] at parsed
          cases parsed
          cases found
          exact ⟨row, start, body, List.mem_of_find?_eq_some first, named, nonzero, located, read,
            rfl⟩

private theorem codeAddress_eq_ok {written : WrittenBody} {codeAddress : UInt32}
    (computed : written.codeAddress = .ok codeAddress) :
    ∃ size, Method.Header.announcedSize written.record = .ok size ∧
      codeAddress = written.address + UInt32.ofNat size := by
  obtain ⟨size, announced, computed⟩ := Except.bind_eq_ok.mp computed
  by_cases fits : written.address.toNat + size < UInt32.size
  · rw [if_pos fits] at computed
    cases computed
    refine ⟨size, announced, ?_⟩
    rw [UInt32.ofNat_add, UInt32.ofNat_toNat]
  · rw [if_neg fits] at computed
    cases computed

/-- The record of a survivor carries the address at which an index of the output finds the method.
-/
theorem entryOf_eq_ok {output : Image} {method : Token × Bytes} {index : Nat}
    {entry : MethodEntry} (written : OutputWriter.entryOf output method index = .ok entry) :
    (∃ row start body, IsHome output method.1 entry.codeAddress row start body) ∧
      entry.index = nativeIndexBase + UInt32.ofNat index ∧ entry.code = method.2 := by
  obtain ⟨written', codeAddress, found, computed, rfl⟩ := OutputWriter.entryOf_eq_ok.mp written
  obtain ⟨row, start, body, listed, named, nonzero, located, parsed, rfl⟩ :=
    methodBody?_eq_some found
  obtain ⟨size, announced, rfl⟩ := codeAddress_eq_ok computed
  have whole := Method.Header.announcedSize_append announced
    ((output.data.drop start).drop body.totalSize)
  rw [List.take_append_drop] at whole
  refine ⟨⟨row, start, body, listed, named, ?_, located, parsed, found⟩, rfl, rfl⟩
  have reached : ContainerImage.bytesAt output row.address = .ok (output.data.drop start) := by
    change output.bytesAt row.address = _
    rw [Image.bytesAt, located]
  rw [ContainerImage.keyed?, if_neg nonzero, reached]
  simp only [bind, Except.bind, whole]

theorem serialize_eq_ok {table : OpaqueTable} {output : Image} {stream : Bytes} {count : Nat}
    (serialized : table.serialize output = .ok (some (stream, count))) :
    ∃ entries, stream = MethodStream.encodeMethods 0 [] entries ∧
      count = (table.surviving output).length ∧
      List.Forall₂ (fun (item : (Token × Bytes) × Nat) entry =>
        OutputWriter.entryOf output item.1 item.2 = .ok entry) (table.surviving output).zipIdx
        entries := by
  obtain ⟨-, counted, entries, encoded, written⟩ := OutputWriter.serialize_eq_some.mp serialized
  exact ⟨entries, encoded, counted, written⟩

end CilRecovery.OpaqueTable
