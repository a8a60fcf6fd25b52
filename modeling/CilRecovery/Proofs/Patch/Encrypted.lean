import CilRecovery.Patch
import CilRecovery.Proofs.Bytes
import CilRecovery.Proofs.Cipher.Chained
import CilRecovery.Proofs.Except

/-!
# Encrypted tables of patches

An encrypted table stores the negated addresses and the encrypted values of its patches. It is
decoded to exactly the table that was stored, and whatever is decoded has one value for each
address.
-/

set_option autoImplicit false

namespace CilRecovery.PatchTable

variable {table : PatchTable} {offsets : List Int32} {values encrypted : List UInt32}
variable {key vector : Bytes}

/-! ## Columns -/

@[simp] theorem length_offsets (table : PatchTable) : table.offsets.length = table.length :=
  List.length_map _

@[simp] theorem length_values (table : PatchTable) : table.values.length = table.length :=
  List.length_map _

theorem zipWith_columns (table : PatchTable) :
    List.zipWith Patch.mk table.offsets table.values = table := by
  simp [offsets, values, List.zipWith_map, List.zipWith_self]

theorem columns_zipWith (same : offsets.length = values.length) :
    PatchTable.offsets (List.zipWith Patch.mk offsets values) = offsets ∧
      PatchTable.values (List.zipWith Patch.mk offsets values) = values := by
  induction offsets generalizing values with
  | nil =>
      cases values with
      | nil => exact ⟨rfl, rfl⟩
      | cons value rest => cases same
  | cons offset offsets ih =>
      cases values with
      | nil => cases same
      | cons value values =>
          obtain ⟨addresses, words⟩ := ih (Nat.succ.inj same)
          exact ⟨congrArg (offset :: ·) addresses, congrArg (value :: ·) words⟩

/-- Columns make a table exactly if they are the columns of one. -/
theorem ofColumns_eq_ok_iff :
    ofColumns offsets values = .ok table ↔ table.offsets = offsets ∧ table.values = values := by
  unfold ofColumns
  constructor
  · intro built
    split at built
    · rename_i same
      cases built
      exact columns_zipWith same
    · cases built
  · intro ⟨addresses, words⟩
    subst addresses words
    rw [if_pos ((length_offsets table).trans (length_values table).symm), zipWith_columns]

/-! ## Stored tables -/

/-- The whole plaintext are the values of the table, one for each address. -/
theorem ofEncrypted_eq_ok_iff :
    ofEncrypted offsets encrypted key vector = .ok table ↔
      (1 ≤ offsets.length ∧ offsets.length ≤ maxEncrypted) ∧
        CipherKind.aes.decrypt key vector (bytesOfWords encrypted) =
          .ok (bytesOfWords table.values) ∧
        table.offsets = offsets.map (- ·) := by
  have sized : (offsets.isEmpty || decide (maxEncrypted < offsets.length)) = true ↔
      ¬ (1 ≤ offsets.length ∧ offsets.length ≤ maxEncrypted) := by
    rw [Bool.or_eq_true, List.isEmpty_iff_length_eq_zero, decide_eq_true_iff]
    omega
  unfold ofEncrypted
  by_cases fits : 1 ≤ offsets.length ∧ offsets.length ≤ maxEncrypted
  · rw [if_neg (fun refused => sized.mp refused fits)]
    constructor
    · intro built
      obtain ⟨plain, decrypted, built⟩ := Except.bind_eq_ok.mp built
      by_cases whole : plain.length % 4 = 0
      · rw [if_neg (Classical.not_not.mpr whole)] at built
        obtain ⟨addresses, words⟩ := ofColumns_eq_ok_iff.mp built
        rw [words, bytesOfWords_wordsOfBytes whole]
        exact ⟨fits, decrypted, addresses⟩
      · rw [if_pos whole] at built
        cases built
    · intro ⟨_, decrypted, addresses⟩
      refine Except.bind_eq_ok.mpr ⟨_, decrypted, ?_⟩
      have whole : (bytesOfWords table.values).length % 4 = 0 := by
        rw [length_bytesOfWords, Nat.mul_mod_right]
      rw [if_neg (Classical.not_not.mpr whole)]
      exact ofColumns_eq_ok_iff.mpr ⟨addresses, (wordsOfBytes_bytesOfWords _).symm⟩
  · rw [if_pos (sized.mpr fits)]
    constructor
    · intro built
      cases built
    · intro ⟨fits', _⟩
      exact absurd fits' fits

theorem negated_negated (offsets : List Int32) : (offsets.map (- ·)).map (- ·) = offsets := by
  simp [Function.comp_def]

theorem acceptsKeySize_aes {size : Nat} :
    CipherKind.aes.acceptsKeySize size ↔ size = 16 ∨ size = 24 ∨ size = 32 := by
  simp [CipherKind.acceptsKeySize, or_assoc]

theorem ofEncrypted_of_encrypt {stored : Bytes}
    (few : 1 ≤ table.length ∧ table.length ≤ maxEncrypted)
    (succeeded : CipherKind.aes.encrypt key vector (bytesOfWords table.values) = .ok stored) :
    ofEncrypted (table.offsets.map (- ·)) (wordsOfBytes stored) key vector = .ok table := by
  have whole : stored.length % 4 = 0 := by
    have blocks := CipherKind.length_of_encrypt succeeded
    simp only [CipherKind.blockSize] at blocks
    omega
  refine ofEncrypted_eq_ok_iff.mpr ⟨?_, ?_, (negated_negated _).symm⟩
  · rwa [List.length_map, length_offsets]
  · rw [bytesOfWords_wordsOfBytes whole]
    exact CipherKind.decrypt_of_encrypt succeeded

/-- A table with up to 35 patches is decoded to itself from its negated addresses and the words of
its encrypted values, with every key and vector that the cipher takes. Whatever is decoded has the
negated addresses and as many values, which are the words of the whole plaintext. -/
theorem ofEncrypted_stored :
    (∀ (table : PatchTable) (key vector : Bytes),
      1 ≤ table.length → table.length ≤ 35 →
      (key.length = 16 ∨ key.length = 24 ∨ key.length = 32) → 16 ≤ vector.length →
      ∃ stored, CipherKind.aes.encrypt key vector (bytesOfWords table.values) = .ok stored ∧
        ofEncrypted (table.offsets.map (- ·)) (wordsOfBytes stored) key vector = .ok table) ∧
    ∀ (offsets : List Int32) (encrypted : List UInt32) (key vector : Bytes) (table : PatchTable),
      ofEncrypted offsets encrypted key vector = .ok table →
      table.offsets = offsets.map (- ·) ∧ table.values.length = table.offsets.length ∧
        ∃ plain, CipherKind.aes.decrypt key vector (bytesOfWords encrypted) = .ok plain ∧
          plain.length = 4 * offsets.length ∧ table.values = wordsOfBytes plain := by
  constructor
  · intro table key vector nonempty few keySize long
    have succeeded : CipherKind.aes.encrypt key vector (bytesOfWords table.values) = .ok _ :=
      CipherKind.encrypt_eq_ok_iff.mpr ⟨acceptsKeySize_aes.mpr keySize, long, rfl⟩
    exact ⟨_, succeeded, ofEncrypted_of_encrypt ⟨nonempty, few⟩ succeeded⟩
  · intro offsets encrypted key vector table decoded
    obtain ⟨_, decrypted, addresses⟩ := ofEncrypted_eq_ok_iff.mp decoded
    have paired : table.values.length = table.offsets.length := by
      rw [length_values, length_offsets]
    refine ⟨addresses, paired, _, decrypted, ?_, (wordsOfBytes_bytesOfWords _).symm⟩
    rw [length_bytesOfWords, paired, addresses, List.length_map]

/-- Four patches, whose values fill a block of the cipher. The least address is its own negation. -/
private def fullBlock : PatchTable :=
  [⟨Int32.minValue, 0x11111111⟩, ⟨-0x20, 0xFFFFFFFF⟩, ⟨0, 0⟩, ⟨0x30, 0x80000000⟩]

private def shortKey : Bytes := List.replicate 16 0x5C

private def longVector : Bytes := List.replicate 17 0x30

theorem ofEncrypted_stored_block :
    fullBlock.offsets.map (- ·) = [Int32.minValue, 0x20, 0, -0x30] ∧
      ∃ stored, CipherKind.aes.encrypt shortKey longVector (bytesOfWords fullBlock.values) =
          .ok stored ∧
        stored.length = 32 ∧
        ofEncrypted [Int32.minValue, 0x20, 0, -0x30] (wordsOfBytes stored) shortKey longVector =
          .ok fullBlock ∧
        fullBlock.values.length = fullBlock.offsets.length := by
  have negated : fullBlock.offsets.map (- ·) = [Int32.minValue, 0x20, 0, -0x30] := by decide
  obtain ⟨stored, succeeded, decoded⟩ :=
    ofEncrypted_stored.1 fullBlock shortKey longVector (by decide) (by decide) (.inl rfl)
      (by decide)
  rw [negated] at decoded
  have blocks := CipherKind.length_of_encrypt succeeded
  exact ⟨negated, stored, succeeded, blocks, decoded,
    (ofEncrypted_stored.2 _ _ _ _ _ decoded).2.1⟩

end CilRecovery.PatchTable
