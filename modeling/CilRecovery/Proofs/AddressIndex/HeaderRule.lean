import CilRecovery.Proofs.AddressIndex.Owner

/-!
# Index keys and the headers of records

An index goes by the size that a fat header announces, while a record is only read if that size is
three dwords. The two agree on a row exactly if its header is tiny or of that size and its code lies
below `2 ^ 32`.
-/

set_option autoImplicit false

namespace CilRecovery

/-! ## First bytes -/

namespace Method

/-- The first bytes of the headers that are read, and the size of the header. -/
inductive Header.Begins : Bytes → Nat → Prop where
  | tiny {first : UInt8} {rest : Bytes} : first &&& 3 = 2 → Begins (first :: rest) 1
  | fat {first second : UInt8} {rest : Bytes} : first &&& 7 = 3 → second >>> 4 = 3 →
      Begins (first :: second :: rest) 12

/-- The first bytes that an index goes by. A fat header may announce any number of dwords. -/
inductive Header.Announces : Bytes → Nat → Prop where
  | tiny {first : UInt8} {rest : Bytes} : first &&& 3 = 2 → Announces (first :: rest) 1
  | fat {first second : UInt8} {rest : Bytes} : first &&& 7 = 3 →
      Announces (first :: second :: rest) (4 * (second >>> 4).toNat)

private theorem tinyByte_iff : ∀ first : UInt8, (first % 4 == 2) = true ↔ first &&& 3 = 2 := by
  decide

private theorem fatByte_iff : ∀ first : UInt8, (first % 8 == 3) = true ↔ first &&& 7 = 3 := by
  decide

private theorem fatByte_not_tiny :
    ∀ first : UInt8, first &&& 7 = 3 → ¬ (first % 4 == 2) = true := by
  decide

private theorem toNat_dwords : ∀ second : UInt8, second.toNat / 16 = (second >>> 4).toNat := by
  decide

theorem Header.announcedSize_tiny {first : UInt8} (format : first &&& 3 = 2) (rest : Bytes) :
    announcedSize (first :: rest) = .ok 1 := if_pos ((tinyByte_iff first).mpr format)

theorem Header.announcedSize_fat {first : UInt8} (format : first &&& 7 = 3) (second : UInt8)
    (rest : Bytes) :
    announcedSize (first :: second :: rest) = .ok (4 * (second >>> 4).toNat) := by
  rw [← toNat_dwords]
  exact (if_neg (fatByte_not_tiny first format)).trans (if_pos ((fatByte_iff first).mpr format))

theorem Header.announcedSize_eq_ok_iff {data : Bytes} {size : Nat} :
    announcedSize data = .ok size ↔ Announces data size := by
  constructor
  · intro announced
    cases data with
    | nil => cases announced
    | cons first rest =>
        by_cases tiny : first &&& 3 = 2
        · rw [announcedSize_tiny tiny] at announced
          cases announced
          exact .tiny tiny
        have notTiny := mt (tinyByte_iff first).mp tiny
        by_cases fat : first &&& 7 = 3
        · cases rest with
          | nil => simp [announcedSize, notTiny, (fatByte_iff first).mpr fat] at announced
          | cons second rest =>
              rw [announcedSize_fat fat] at announced
              cases announced
              exact .fat fat
        · simp [announcedSize, notTiny, mt (fatByte_iff first).mp fat] at announced
  · intro announces
    cases announces with
    | tiny format => exact announcedSize_tiny format _
    | fat format => exact announcedSize_fat format _ _

theorem Header.Announces.unique {data : Bytes} {size size' : Nat} (first : Announces data size)
    (second : Announces data size') : size = size' := by
  rw [← announcedSize_eq_ok_iff] at first second
  exact Except.ok.inj (first.symm.trans second)

theorem Header.begins_iff {data : Bytes} {size : Nat} :
    Begins data size ↔ Announces data size ∧ (size = 1 ∨ size = 12) := by
  constructor
  · intro begins
    cases begins with
    | tiny format => exact ⟨.tiny format, .inl rfl⟩
    | @fat first second rest format dwords =>
        have announces : Announces (first :: second :: rest) (4 * (second >>> 4).toNat) :=
          .fat format
        rw [dwords] at announces
        exact ⟨announces, .inr rfl⟩
  · intro ⟨announces, known⟩
    cases announces with
    | tiny format => exact .tiny format
    | @fat first second rest format =>
        have dwords : (second >>> 4).toNat = 3 := by omega
        rw [dwords]
        exact .fat format (UInt8.toNat_inj.mp dwords)

end Method

/-! ## Keys -/

theorem WrittenBody.codeAddress_eq_ok_iff {body : WrittenBody} {size : Nat} {key : UInt32}
    (announced : Method.Header.announcedSize body.record = .ok size) :
    body.codeAddress = .ok key ↔ body.address.toNat + size = key.toNat := by
  rw [codeAddress, announced]
  by_cases low : body.address.toNat + size < UInt32.size
  · have value : (UInt32.ofNat (body.address.toNat + size)).toNat = body.address.toNat + size :=
      UInt32.toNat_ofNat_of_lt low
    simp only [bind, Except.bind, if_pos low, pure, Except.pure, Except.ok.injEq]
    rw [← UInt32.toNat_inj, value]
  · simp only [bind, Except.bind, if_neg low, throw, throwThe, MonadExceptOf.throw, reduceCtorEq,
      false_iff]
    exact fun placed => low (placed ▸ key.toNat_lt)

namespace AddressIndex

open Method (Header)

variable {image : Image} {key : UInt32} {row : MethodRow}

/-- The key of a row comes behind a header that is read, where a writer puts it as well. -/
def KeyedByHeader (image : Image) (key : UInt32) (row : MethodRow) : Prop :=
  ∃ data size, image.bytesAt row.address = .ok data ∧ Header.Begins data size ∧
    row.address.toNat + size = key.toNat ∧ WrittenBody.codeAddress ⟨row.address, data⟩ = .ok key

/-- A row is indexed by what its first bytes announce, whether or not a header is read there. -/
theorem hasCode_iff_announces :
    ContainerImage.HasCode image row ↔
      row.address ≠ 0 ∧
        ∃ data size, image.bytesAt row.address = .ok data ∧ Header.Announces data size := by
  constructor
  · intro ⟨_, present, data, size, located, announced, _⟩
    exact ⟨present, data, size, located, Header.announcedSize_eq_ok_iff.mp announced⟩
  · intro ⟨present, data, size, located, announces⟩
    exact ⟨row.address + UInt32.ofNat size, present, data, size, located,
      Header.announcedSize_eq_ok_iff.mpr announces, by simp⟩

/-- The key of a row is what its header announces, counted modulo `2 ^ 32`. -/
theorem announces_of_row? (stored : (build image).row? key = some row) :
    ∃ data size, image.bytesAt row.address = .ok data ∧ Header.Announces data size ∧
      (row.address.toNat + size) % UInt32.size = key.toNat := by
  obtain ⟨-, starts⟩ := ContainerImage.startsAt_of_row? stored
  obtain ⟨data, size, located, announced, reached⟩ := starts.header
  exact ⟨data, size, located, Header.announcedSize_eq_ok_iff.mp announced, reached⟩

/-- Without a wrap the announced size of a header that is read is its size. -/
theorem KeyedByHeader.of_begins {data : Bytes} {size : Nat}
    (located : image.bytesAt row.address = .ok data) (begins : Header.Begins data size)
    (placed : row.address.toNat + size = key.toNat) : KeyedByHeader image key row := by
  have announced := Header.announcedSize_eq_ok_iff.mpr (Header.begins_iff.mp begins).1
  exact ⟨data, size, located, begins, placed,
    (WrittenBody.codeAddress_eq_ok_iff announced).mpr placed⟩

/-- Left out are the rows without a header of either kind. The others are keyed by the rule of the
records exactly if the announced size is one of the two that are read and the code address did not
wrap around. -/
theorem keyedByHeader_iff (image : Image) :
    (∀ row, ContainerImage.HasCode image row ↔
      row.address ≠ 0 ∧
        ∃ data size, image.bytesAt row.address = .ok data ∧ Header.Announces data size) ∧
    ∀ key row, (build image).row? key = some row →
      ∃ data size, image.bytesAt row.address = .ok data ∧ Header.Announces data size ∧
        (row.address.toNat + size) % UInt32.size = key.toNat ∧
        (KeyedByHeader image key row ↔
          (size = 1 ∨ size = 12) ∧ row.address.toNat + size < UInt32.size) := by
  refine ⟨fun row => hasCode_iff_announces, fun key row stored => ?_⟩
  obtain ⟨data, size, located, announces, reached⟩ := announces_of_row? stored
  refine ⟨data, size, located, announces, reached, ?_⟩
  constructor
  · intro ⟨data', size', located', begins, placed, _⟩
    obtain rfl : data' = data := Except.ok.inj (located'.symm.trans located)
    obtain ⟨announces', known⟩ := Header.begins_iff.mp begins
    obtain rfl : size' = size := announces'.unique announces
    exact ⟨known, placed ▸ key.toNat_lt⟩
  · intro ⟨known, low⟩
    rw [Nat.mod_eq_of_lt low] at reached
    exact .of_begins located (Header.begins_iff.mpr ⟨announces, known⟩) reached

/-- A tiny method at address 1. Its code, at address 2, looks like a fat header of no dwords, and
that is what the second row takes it for. -/
private def takenImage : Image :=
  ⟨[0x00, 0x0A, 0x03, 0x00, 0x00, 0x00, 0x00, 0x00, 0x00, 0x00, 0x00, 0x00, 0x00, 0x00, 0x00, 0x00],
    [], [1, 2], [], 0⟩

theorem keyedByHeader_iff_taken :
    (build takenImage).row? 2 = some ⟨2, 2⟩ ∧ ¬ KeyedByHeader takenImage 2 ⟨2, 2⟩ := by
  have stored : (build takenImage).row? 2 = some ⟨2, 2⟩ := by decide
  obtain ⟨data, size, located, announces, -, rule⟩ := (keyedByHeader_iff takenImage).2 2 _ stored
  refine ⟨stored, fun keyed => ?_⟩
  have same : data = takenImage.data.drop 2 := Except.ok.inj (located.symm.trans rfl)
  have announced := Header.announcedSize_eq_ok_iff.mpr announces
  rw [same] at announced
  have none : size = 0 := Except.ok.inj (announced.symm.trans rfl)
  have known := (rule.mp keyed).1
  omega

/-- An image of one section, which ends with the last address. A tiny header there has its code at
address 0. -/
private def lastAddress : Image := ⟨[0x02], [⟨0xFFFFFFFF, 1, 0, 1⟩], [0xFFFFFFFF], [], 0⟩

/-- A row whose header is not read takes the address of the tiny method in front of it, and a row
at the last address is stored under address 0, which no writer gives it. -/
theorem row?_build_against_header :
    (build takenImage).row? 2 = some ⟨2, 2⟩ ∧
      takenImage.bytesAt 2 >>= Method.Body.parse = .error (.invalidBody .headerSize) ∧
      (∀ data size, takenImage.bytesAt 2 = .ok data → ¬ Header.Begins data size) ∧
      KeyedByHeader takenImage 2 ⟨1, 1⟩ ∧
      (build lastAddress).row? 0 = some ⟨1, 0xFFFFFFFF⟩ ∧
      WrittenBody.codeAddress ⟨0xFFFFFFFF, lastAddress.data⟩ = .error .outOfBounds := by
  refine ⟨by decide, by decide, ?_, ?_, by decide, by decide⟩
  · intro data size located begins
    obtain rfl : takenImage.data.drop 2 = data := Except.ok.inj located
    cases begins with
    | tiny format => exact absurd format (by decide)
    | fat _ dwords => exact absurd dwords (by decide)
  · exact ⟨takenImage.data.drop 1, 1, rfl, .tiny (by decide), rfl, rfl⟩

end AddressIndex

end CilRecovery
