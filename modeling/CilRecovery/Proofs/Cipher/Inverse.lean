import CilRecovery.Proofs.Cipher.Chained

/-!
# Chained blocks are encrypted to what was decrypted

The other direction: decryption accepts nothing that encryption does not produce. The padding that
is taken off is exactly the padding that would have been added, so both directions together are
inverses for every kind of payload encryption.
-/

set_option autoImplicit false

namespace CilRecovery

namespace Chained

variable {cipher : BlockCipher} {previous : Bytes} {blocks : List Bytes}

/-! ## Blocks -/

theorem decryptBlocks_sized (lawful : cipher.Lawful)
    (start : previous.length = cipher.blockSize)
    (sized : ∀ block ∈ blocks, block.length = cipher.blockSize) :
    ∀ block ∈ decryptBlocks cipher previous blocks, block.length = cipher.blockSize := by
  induction blocks generalizing previous with
  | nil =>
      intro block member
      cases member
  | cons block rest ih =>
      have size := sized block List.mem_cons_self
      have decrypted := lawful.length_decrypt block size
      have combined : ((cipher.decrypt block).xor previous).length = cipher.blockSize := by
        rw [Bytes.length_xor (by omega), decrypted]
      intro other member
      cases member with
      | head => exact combined
      | tail _ later =>
          exact ih size (fun block inside => sized block (List.mem_cons_of_mem _ inside)) other
            later

/-- Both chains follow the ciphertext, so each block meets the same sum in either direction. -/
theorem encryptBlocks_decryptBlocks (lawful : cipher.Lawful)
    (start : previous.length = cipher.blockSize)
    (sized : ∀ block ∈ blocks, block.length = cipher.blockSize) :
    encryptBlocks cipher previous (decryptBlocks cipher previous blocks) = blocks := by
  induction blocks generalizing previous with
  | nil => rfl
  | cons block rest ih =>
      have size := sized block List.mem_cons_self
      have decrypted := lawful.length_decrypt block size
      have covered : (cipher.decrypt block).length ≤ previous.length := by omega
      have others := ih size fun block inside => sized block (List.mem_cons_of_mem _ inside)
      have first : cipher.encrypt (((cipher.decrypt block).xor previous).xor previous) = block := by
        rw [Bytes.xor_xor covered, lawful.encrypt_decrypt block size]
      simp only [decryptBlocks, encryptBlocks, first, others]

/-! ## Padding -/

/-- What is taken off are as many equal bytes as each of them says, all of them there. -/
theorem eq_append_of_unpad? {blockSize : Nat} {data plain : Bytes}
    (enough : data ≠ [] → blockSize ≤ data.length)
    (found : unpad? blockSize data = some plain) :
    ∃ last : UInt8, 1 ≤ last.toNat ∧ last.toNat ≤ blockSize ∧
      data = plain ++ List.replicate last.toNat last := by
  unfold unpad? at found
  cases ends : data.getLast? with
  | none => simp [ends] at found
  | some last =>
      simp only [ends] at found
      split at found
      · rename_i fits
        cases found
        simp only [Bool.and_eq_true, decide_eq_true_eq, List.all_eq_true, beq_iff_eq] at fits
        obtain ⟨⟨positive, most⟩, filled⟩ := fits
        have covered := enough (List.ne_nil_of_mem (List.mem_of_getLast? ends))
        have padding : data.drop (data.length - last.toNat) = List.replicate last.toNat last := by
          rw [List.eq_replicate_iff]
          refine ⟨?_, filled⟩
          rw [List.length_drop]
          omega
        refine ⟨last, positive, most, ?_⟩
        rw [← padding, List.take_append_drop]
      · cases found

/-- The number of bytes that fill whole blocks up again, of which `count` were cut off. -/
private theorem padding_of_cut {blockSize kept count : Nat} (whole : (kept + count) % blockSize = 0)
    (positive : 1 ≤ count) (most : count ≤ blockSize) : blockSize - kept % blockSize = count := by
  obtain ⟨blocks, length⟩ := Nat.dvd_of_mod_eq_zero whole
  cases blocks with
  | zero => omega
  | succ blocks =>
      have cut : kept = blockSize * blocks + (blockSize - count) := by
        rw [Nat.mul_succ] at length
        omega
      rw [cut, Nat.mul_add_mod, Nat.mod_eq_of_lt (by omega)]
      omega

/-- The padding that was taken off is the one that padding adds: of whole blocks there is one way to
pad. -/
theorem pad_of_unpad? {blockSize : Nat} {data plain : Bytes}
    (whole : data.length % blockSize = 0) (found : unpad? blockSize data = some plain) :
    pad blockSize plain = data := by
  have enough : data ≠ [] → blockSize ≤ data.length := fun nonempty =>
    Nat.le_of_dvd (List.length_pos_iff.mpr nonempty) (Nat.dvd_of_mod_eq_zero whole)
  obtain ⟨last, positive, most, rfl⟩ := eq_append_of_unpad? enough found
  rw [List.length_append, List.length_replicate] at whole
  rw [pad, padding_of_cut whole positive most, UInt8.ofNat_toNat]

/-! ## Data -/

/-- With `decrypt?_encrypt`, encryption is a bijection from all data to the whole blocks that end in
padding. -/
theorem encrypt_of_decrypt? (lawful : cipher.Lawful) (positive : 0 < cipher.blockSize)
    {vector data plain : Bytes} (start : vector.length = cipher.blockSize)
    (whole : data.length % cipher.blockSize = 0)
    (found : decrypt? cipher vector data = some plain) : encrypt cipher vector plain = data := by
  have sized : ∀ block ∈ data.chunks cipher.blockSize, block.length = cipher.blockSize :=
    fun _ member => Bytes.length_of_mem_chunks member
  have decrypted := decryptBlocks_sized lawful start sized
  have whole' : (decryptBlocks cipher vector (data.chunks cipher.blockSize)).flatten.length %
      cipher.blockSize = 0 := by
    rw [Bytes.length_flatten decrypted, Nat.mul_mod_left]
  have cut := @Bytes.chunks_flatten _ _ [] decrypted positive
  rw [List.append_nil] at cut
  rw [encrypt, pad_of_unpad? whole' found, cut, encryptBlocks_decryptBlocks lawful start sized,
    Bytes.flatten_chunks_of_dvd whole]

end Chained

namespace CipherKind

variable {kind : CipherKind} {key vector data encrypted : Bytes}

/-- Whatever is decrypted is what its plaintext is encrypted to. -/
theorem encrypt_of_decrypt (succeeded : kind.decrypt key vector encrypted = .ok data) :
    kind.encrypt key vector data = .ok encrypted := by
  obtain ⟨keySize, _, whole, long, found⟩ := decrypt_eq_ok_iff.mp succeeded
  have size := kind.blockSize_keyed key
  have positive := kind.blockSize_bounds.1
  rw [← size] at positive whole
  have same := Chained.encrypt_of_decrypt? (kind.keyed_lawful key) positive
    (length_vector long) whole found
  exact encrypt_eq_ok_iff.mpr ⟨keySize, long, same.symm⟩

/-- With a key and a vector that the cipher takes, everything can be encrypted, to the next whole
block, and decryption is the exact inverse on both sides. -/
theorem encrypt_decrypt_inverse (kind : CipherKind) (key vector : Bytes)
    (keySize : kind.acceptsKeySize key.length) (long : kind.blockSize ≤ vector.length) :
    (∀ data, ∃ encrypted, kind.encrypt key vector data = .ok encrypted ∧
      encrypted.length = (data.length / kind.blockSize + 1) * kind.blockSize ∧
      kind.decrypt key vector encrypted = .ok data) ∧
    ∀ encrypted data, kind.decrypt key vector encrypted = .ok data →
      kind.encrypt key vector data = .ok encrypted := by
  constructor
  · intro data
    obtain ⟨encrypted, succeeded⟩ : ∃ encrypted, kind.encrypt key vector data = .ok encrypted :=
      ⟨_, encrypt_eq_ok_iff.mpr ⟨keySize, long, rfl⟩⟩
    exact ⟨encrypted, succeeded, length_of_encrypt succeeded, decrypt_of_encrypt succeeded⟩
  · intro encrypted data decrypted
    exact encrypt_of_decrypt decrypted

private def eightBytes : Bytes := [1, 2, 3, 4, 5, 6, 7, 8]

private def nineBytes : Bytes := [8, 7, 6, 5, 4, 3, 2, 1, 0]

private def oneBlock : Bytes := [240, 129, 161, 162, 170, 116, 29, 199]

/-- A full block gets a block of padding, a vector may be longer than it has to be, and a block
that is decrypted to two bytes is what they are encrypted to. -/
theorem encrypt_decrypt_inverse_des :
    (∃ encrypted, CipherKind.des.encrypt eightBytes nineBytes eightBytes = .ok encrypted ∧
      encrypted.length = 16 ∧
      CipherKind.des.decrypt eightBytes nineBytes encrypted = .ok eightBytes) ∧
    CipherKind.des.decrypt eightBytes nineBytes oneBlock = .ok [0x17, 0x2A] ∧
    CipherKind.des.encrypt eightBytes nineBytes [0x17, 0x2A] = .ok oneBlock := by
  obtain ⟨everything, reversed⟩ :=
    encrypt_decrypt_inverse .des eightBytes nineBytes (by decide) (by decide)
  have decrypted : CipherKind.des.decrypt eightBytes nineBytes oneBlock = .ok [0x17, 0x2A] :=
    decrypt_eq_ok_iff.mpr ⟨by decide, nofun, by decide, by decide, by decide +kernel⟩
  exact ⟨everything eightBytes, decrypted, reversed _ _ decrypted⟩

end CipherKind

end CilRecovery
