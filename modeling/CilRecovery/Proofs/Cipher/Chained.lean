import CilRecovery.Cipher
import CilRecovery.Proofs.Bytes
import CilRecovery.Proofs.Cipher.Aes
import CilRecovery.Proofs.Cipher.Des

/-!
# Chained blocks decrypt to what was encrypted

For every cipher whose directions undo each other, and therefore for every kind of payload
encryption with every key and vector that it takes.
-/

set_option autoImplicit false

namespace CilRecovery

namespace Chained

variable {cipher : BlockCipher}

/-! ## Blocks -/

@[simp] theorem length_encryptBlocks (cipher : BlockCipher) (previous : Bytes)
    (blocks : List Bytes) : (encryptBlocks cipher previous blocks).length = blocks.length := by
  induction blocks generalizing previous with
  | nil => rfl
  | cons block rest ih => simp [encryptBlocks, ih]

theorem encryptBlocks_sized (lawful : cipher.Lawful) {previous : Bytes} {blocks : List Bytes}
    (start : previous.length = cipher.blockSize)
    (sized : ∀ block ∈ blocks, block.length = cipher.blockSize) :
    ∀ block ∈ encryptBlocks cipher previous blocks, block.length = cipher.blockSize := by
  induction blocks generalizing previous with
  | nil =>
      intro block member
      cases member
  | cons block rest ih =>
      have size := sized block List.mem_cons_self
      have combined : (block.xor previous).length = cipher.blockSize := by
        rw [Bytes.length_xor (by omega), size]
      have encrypted := lawful.length_encrypt _ combined
      intro other member
      rcases List.mem_cons.mp member with rfl | later
      · exact encrypted
      · exact ih encrypted (fun block inside => sized block (List.mem_cons_of_mem _ inside)) other
          later

/-- The chain of the decryption follows the ciphertext, so each block undoes its own sum. -/
theorem decryptBlocks_encryptBlocks (lawful : cipher.Lawful) {previous : Bytes}
    {blocks : List Bytes} (start : previous.length = cipher.blockSize)
    (sized : ∀ block ∈ blocks, block.length = cipher.blockSize) :
    decryptBlocks cipher previous (encryptBlocks cipher previous blocks) = blocks := by
  induction blocks generalizing previous with
  | nil => rfl
  | cons block rest ih =>
      have size := sized block List.mem_cons_self
      have covered : block.length ≤ previous.length := by omega
      have combined : (block.xor previous).length = cipher.blockSize := by
        rw [Bytes.length_xor covered, size]
      have others := ih (lawful.length_encrypt _ combined)
        fun block inside => sized block (List.mem_cons_of_mem _ inside)
      rw [encryptBlocks, decryptBlocks, others, lawful.decrypt_encrypt _ combined,
        Bytes.xor_xor covered]

/-! ## Padding -/

theorem length_pad {blockSize : Nat} (positive : 0 < blockSize) (data : Bytes) :
    (pad blockSize data).length = (data.length / blockSize + 1) * blockSize := by
  have whole := Nat.div_add_mod' data.length blockSize
  have short := Nat.mod_lt data.length positive
  rw [pad, List.length_append, List.length_replicate, Nat.succ_mul]
  omega

/-- Padding is taken off again as long as a byte can say how much of it there is. -/
theorem unpad?_pad {blockSize : Nat} (positive : 0 < blockSize) (small : blockSize < 256)
    (data : Bytes) : unpad? blockSize (pad blockSize data) = some data := by
  have short := Nat.mod_lt data.length positive
  obtain ⟨count, counted⟩ : ∃ count, blockSize - data.length % blockSize = count + 1 :=
    ⟨blockSize - data.length % blockSize - 1, by omega⟩
  have last : (pad blockSize data).getLast? = some (UInt8.ofNat (count + 1)) := by
    rw [pad, counted, List.replicate_succ', ← List.append_assoc, List.getLast?_concat]
  have value : (UInt8.ofNat (count + 1)).toNat = count + 1 :=
    UInt8.toNat_ofNat_of_lt' (by change count + 1 < 256; omega)
  have kept : (pad blockSize data).length - (count + 1) = data.length := by
    rw [pad, counted, List.length_append, List.length_replicate, Nat.add_sub_cancel]
  have filled : (pad blockSize data).drop data.length =
      List.replicate (count + 1) (UInt8.ofNat (count + 1)) := by
    rw [pad, counted, List.drop_left]
  have front : (pad blockSize data).take data.length = data := List.take_left
  have fits : count + 1 ≤ blockSize := by omega
  simp only [unpad?, last, value, kept, filled, front]
  simp [fits]

/-! ## Data -/

theorem length_encrypt (lawful : cipher.Lawful) (positive : 0 < cipher.blockSize)
    {vector : Bytes} (start : vector.length = cipher.blockSize) (data : Bytes) :
    (encrypt cipher vector data).length =
      (data.length / cipher.blockSize + 1) * cipher.blockSize := by
  have padded := length_pad positive data
  have count : (pad cipher.blockSize data).length / cipher.blockSize =
      data.length / cipher.blockSize + 1 := by
    rw [padded, Nat.mul_div_cancel _ positive]
  rw [encrypt, Bytes.length_flatten (encryptBlocks_sized lawful start fun _ member =>
    Bytes.length_of_mem_chunks member), length_encryptBlocks, Bytes.chunks, Bytes.length_pieces,
    count]

/-- Chaining undoes itself over any lawful cipher. -/
theorem decrypt?_encrypt (lawful : cipher.Lawful) (positive : 0 < cipher.blockSize)
    (small : cipher.blockSize < 256) {vector : Bytes}
    (start : vector.length = cipher.blockSize) (data : Bytes) :
    decrypt? cipher vector (encrypt cipher vector data) = some data := by
  have sized : ∀ block ∈ (pad cipher.blockSize data).chunks cipher.blockSize,
      block.length = cipher.blockSize := fun _ member => Bytes.length_of_mem_chunks member
  have cut := @Bytes.chunks_flatten _ _ [] (encryptBlocks_sized lawful start sized) positive
  rw [List.append_nil] at cut
  have whole : (pad cipher.blockSize data).length % cipher.blockSize = 0 := by
    rw [length_pad positive, Nat.mul_mod_left]
  rw [decrypt?, encrypt, cut, decryptBlocks_encryptBlocks lawful start sized,
    Bytes.flatten_chunks_of_dvd whole, unpad?_pad positive small]

end Chained

namespace CipherKind

/-- Every kind of cipher is lawful under every key, those of a wrong size included. -/
theorem keyed_lawful (kind : CipherKind) (key : Bytes) : (kind.keyed key).Lawful := by
  cases kind with
  | aes => exact Aes.cipher_lawful key
  | tripleDes => exact Des.tripleCipher_lawful key
  | des => exact Des.cipher_lawful key

theorem blockSize_keyed (kind : CipherKind) (key : Bytes) :
    (kind.keyed key).blockSize = kind.blockSize := by
  cases kind <;> rfl

theorem blockSize_bounds (kind : CipherKind) : 0 < kind.blockSize ∧ kind.blockSize < 256 := by
  cases kind <;> decide

/-- Encryption is refused for the sizes of its parameters only, never for the data. -/
theorem encrypt_eq_ok_iff {kind : CipherKind} {key vector data encrypted : Bytes} :
    kind.encrypt key vector data = .ok encrypted ↔
      kind.acceptsKeySize key.length ∧ kind.blockSize ≤ vector.length ∧
        encrypted = Chained.encrypt (kind.keyed key) (vector.take kind.blockSize) data := by
  unfold encrypt
  by_cases keySize : kind.acceptsKeySize key.length
  · by_cases short : vector.length < kind.blockSize
    · simp [keySize, short, Nat.not_le.mpr short]
    · simp [keySize, short, Nat.le_of_not_lt short, eq_comm]
  · simp [keySize]

/-- Decryption is refused for the sizes of its input, or because no padding is at the end. -/
theorem decrypt_eq_ok_iff {kind : CipherKind} {key vector data encrypted : Bytes} :
    kind.decrypt key vector encrypted = .ok data ↔
      kind.acceptsKeySize key.length ∧ encrypted ≠ [] ∧
        encrypted.length % kind.blockSize = 0 ∧ kind.blockSize ≤ vector.length ∧
        Chained.decrypt? (kind.keyed key) (vector.take kind.blockSize) encrypted = some data := by
  unfold decrypt
  by_cases keySize : kind.acceptsKeySize key.length
  · by_cases nonempty : encrypted = []
    · simp [keySize, nonempty]
    · by_cases whole : encrypted.length % kind.blockSize = 0
      · by_cases short : vector.length < kind.blockSize
        · simp [keySize, nonempty, whole, short, Nat.not_le.mpr short]
        · cases found : Chained.decrypt? (kind.keyed key) (vector.take kind.blockSize)
            encrypted with
          | none => simp [keySize, nonempty, whole, short]
          | some plain => simp [keySize, nonempty, whole, short, Nat.le_of_not_lt short]
      · simp [keySize, nonempty, whole]
  · simp [keySize]

theorem length_vector {kind : CipherKind} {key vector : Bytes}
    (long : kind.blockSize ≤ vector.length) :
    (vector.take kind.blockSize).length = (kind.keyed key).blockSize := by
  rw [kind.blockSize_keyed]
  exact List.length_take_of_le long

theorem length_of_encrypt {kind : CipherKind} {key vector data encrypted : Bytes}
    (succeeded : kind.encrypt key vector data = .ok encrypted) :
    encrypted.length = (data.length / kind.blockSize + 1) * kind.blockSize := by
  obtain ⟨_, long, rfl⟩ := encrypt_eq_ok_iff.mp succeeded
  have size := kind.blockSize_keyed key
  have positive := kind.blockSize_bounds.1
  rw [Chained.length_encrypt (kind.keyed_lawful key) (size ▸ positive) (length_vector long), size]

/-- Whatever is encrypted is decrypted again. -/
theorem decrypt_of_encrypt {kind : CipherKind} {key vector data encrypted : Bytes}
    (succeeded : kind.encrypt key vector data = .ok encrypted) :
    kind.decrypt key vector encrypted = .ok data := by
  have length := length_of_encrypt succeeded
  obtain ⟨keySize, long, same⟩ := encrypt_eq_ok_iff.mp succeeded
  have size := kind.blockSize_keyed key
  obtain ⟨positive, small⟩ := kind.blockSize_bounds
  have nonempty : encrypted ≠ [] := by
    rw [← List.length_pos_iff, length]
    exact Nat.mul_pos (Nat.succ_pos _) positive
  have whole : encrypted.length % kind.blockSize = 0 := by
    rw [length, Nat.mul_mod_left]
  rw [← size] at positive small
  have decrypted := Chained.decrypt?_encrypt (kind.keyed_lawful key) positive small
    (length_vector long) data
  rw [← same] at decrypted
  exact decrypt_eq_ok_iff.mpr ⟨keySize, nonempty, whole, long, decrypted⟩

end CipherKind

end CilRecovery
