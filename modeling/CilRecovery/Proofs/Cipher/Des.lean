import CilRecovery.Cipher.Des

/-!
# DES decrypts what it encrypts

A round changes one half by a function of the other half, so running the rounds with the round
keys backwards on the swapped halves undoes them. This does not depend on the key schedule or on
what the substitutions hold.
-/

set_option autoImplicit false

namespace CilRecovery.Des

/-! ## Bits and bytes -/

private theorem number_bits : ∀ byte : UInt8,
    UInt8.ofNat (numberOf (bitsOf 8 byte.toNat)) = byte := by
  decide

private theorem bits_number : ∀ b7 b6 b5 b4 b3 b2 b1 b0 : Bool,
    bitsOf 8 (UInt8.ofNat (numberOf [b7, b6, b5, b4, b3, b2, b1, b0])).toNat =
      [b7, b6, b5, b4, b3, b2, b1, b0] := by
  decide

theorem bytesOfBits_bitsOfBytes (bytes : Bytes) : bytesOfBits (bitsOfBytes bytes) = bytes := by
  induction bytes with
  | nil => rfl
  | cons byte rest ih =>
      change UInt8.ofNat (numberOf (bitsOf 8 byte.toNat)) :: bytesOfBits (bitsOfBytes rest) = _
      rw [number_bits, ih]

theorem length_bitsOfBytes (bytes : Bytes) : (bitsOfBytes bytes).length = 8 * bytes.length := by
  induction bytes with
  | nil => rfl
  | cons byte rest ih =>
      change (bitsOfBytes rest).length + 8 = _
      rw [ih, List.length_cons]
      omega

theorem length_bytesOfBits (bits : Bits) : (bytesOfBits bits).length = bits.length / 8 := by
  fun_induction bytesOfBits bits with
  | case1 b7 b6 b5 b4 b3 b2 b1 b0 rest ih =>
      simp only [List.length_cons, ih]
      omega
  | case2 bits few =>
      have short : bits.length < 8 := by
        match bits, few with
        | [], _ | [_], _ | [_, _], _ | [_, _, _], _ | [_, _, _, _], _ | [_, _, _, _, _], _
        | [_, _, _, _, _, _], _ | [_, _, _, _, _, _, _], _ => simp
        | b7 :: b6 :: b5 :: b4 :: b3 :: b2 :: b1 :: b0 :: rest, few =>
            exact (few b7 b6 b5 b4 b3 b2 b1 b0 rest rfl).elim
      rw [Nat.div_eq_of_lt short]
      rfl

theorem bitsOfBytes_bytesOfBits {bits : Bits} {count : Nat} (length : bits.length = 8 * count) :
    bitsOfBytes (bytesOfBits bits) = bits := by
  induction count generalizing bits with
  | zero => rw [List.length_eq_zero_iff.mp length]; rfl
  | succ count ih =>
      match bits, length with
      | b7 :: b6 :: b5 :: b4 :: b3 :: b2 :: b1 :: b0 :: rest, length =>
          have shorter : rest.length = 8 * count := by
            simp only [List.length_cons] at length
            omega
          change bitsOf 8 (UInt8.ofNat (numberOf [b7, b6, b5, b4, b3, b2, b1, b0])).toNat ++
            bitsOfBytes (bytesOfBits rest) = _
          rw [bits_number, ih shorter]
          rfl

/-! ## Reordering -/

@[simp] theorem length_select (places : List Nat) (bits : Bits) :
    (select places bits).length = places.length := List.length_map _

theorem select_select {outer inner : List Nat} (bits : Bits)
    (inside : ∀ place ∈ outer, place - 1 < inner.length) :
    select outer (select inner bits) =
      select (outer.map fun place => inner.getD (place - 1) 0) bits := by
  simp only [select, List.map_map]
  refine List.map_congr_left fun place member => ?_
  have bound := inside place member
  simp [List.getD_eq_getElem?_getD, bound]

private theorem select_all {bits : Bits} (length : bits.length = 64) :
    select ((List.range 64).map (· + 1)) bits = bits := by
  refine List.ext_getElem (by simp [length]) fun place inside inside' => ?_
  simp [select, inside']

/-- Both orders are permutations of the 64 places, and each undoes the other. -/
theorem select_finalOrder {bits : Bits} (length : bits.length = 64) :
    select finalOrder (select initialOrder bits) = bits := by
  rw [select_select bits (by decide)]
  exact select_all length

theorem select_initialOrder {bits : Bits} (length : bits.length = 64) :
    select initialOrder (select finalOrder bits) = bits := by
  rw [select_select bits (by decide)]
  exact select_all length

/-! ## Rounds -/

theorem add_add {left other : Bits} (length : left.length ≤ other.length) :
    add (add left other) other = left := by
  induction left generalizing other with
  | nil => rfl
  | cons bit rest ih =>
      match other, length with
      | bit' :: rest', length =>
          have shorter := ih (Nat.le_of_succ_le_succ length)
          simpa [add] using shorter

@[simp] theorem length_mixing (key half : Bits) : (mixing key half).length = 32 :=
  length_select _ _

theorem length_rounds (keys : List Bits) {halves : Bits × Bits}
    (left : halves.1.length = 32) (right : halves.2.length = 32) :
    (rounds keys halves).1.length = 32 ∧ (rounds keys halves).2.length = 32 := by
  induction keys generalizing halves with
  | nil => exact ⟨left, right⟩
  | cons key rest ih => exact ih right (by simp [add, left])

theorem rounds_append (keys more : List Bits) (halves : Bits × Bits) :
    rounds (keys ++ more) halves = rounds more (rounds keys halves) := by
  induction keys generalizing halves with
  | nil => rfl
  | cons key rest ih => exact ih _

/-- The rounds backwards undo the rounds, with the halves swapped before and after. -/
theorem rounds_reverse (keys : List Bits) {halves : Bits × Bits}
    (left : halves.1.length = 32) (right : halves.2.length = 32) :
    rounds keys.reverse (rounds keys halves).swap = halves.swap := by
  induction keys generalizing halves with
  | nil => rfl
  | cons key rest ih =>
      have undone := @ih (halves.2, add halves.1 (mixing key halves.2)) right (by simp [add, left])
      rw [List.reverse_cons, rounds_append]
      change rounds [key] (rounds rest.reverse
        (rounds rest (halves.2, add halves.1 (mixing key halves.2))).swap) = _
      rw [undone]
      change (halves.2, add (add halves.1 (mixing key halves.2)) (mixing key halves.2)) = _
      rw [add_add (by simp [left])]
      rfl

/-- The halves of a block in the order of the rounds. -/
private def ordered (block : Bytes) : Bits := select initialOrder (bitsOfBytes block)

private theorem crypt_eq (keys : List Bits) (block : Bytes) :
    crypt keys block =
      bytesOfBits (select finalOrder
        ((rounds keys ((ordered block).take 32, (ordered block).drop 32)).2 ++
          (rounds keys ((ordered block).take 32, (ordered block).drop 32)).1)) := rfl

theorem length_crypt (keys : List Bits) (block : Bytes) : (crypt keys block).length = 8 := by
  rw [crypt_eq, length_bytesOfBits, length_select]
  rfl

/-- Encryption with the round keys backwards undoes encryption. -/
theorem crypt_reverse (keys : List Bits) {block : Bytes} (length : block.length = 8) :
    crypt keys.reverse (crypt keys block) = block := by
  have size : (ordered block).length = 64 := length_select _ _
  have left : ((ordered block).take 32).length = 32 := by simp [size]
  have right : ((ordered block).drop 32).length = 32 := by simp [size]
  have undone := @rounds_reverse keys ((ordered block).take 32, (ordered block).drop 32) left right
  have lengths := @length_rounds keys ((ordered block).take 32, (ordered block).drop 32) left right
  rw [crypt_eq keys block]
  generalize rounds keys ((ordered block).take 32, (ordered block).drop 32) = halves
    at undone lengths ⊢
  have stored : ordered (bytesOfBits (select finalOrder (halves.2 ++ halves.1))) =
      halves.2 ++ halves.1 := by
    rw [ordered, @bitsOfBytes_bytesOfBits _ 8 (length_select _ _),
      select_initialOrder (by simp [lengths])]
  rw [crypt_eq, stored, List.take_left' lengths.2, List.drop_left' lengths.2]
  change bytesOfBits (select finalOrder
    ((rounds keys.reverse halves.swap).2 ++ (rounds keys.reverse halves.swap).1)) = block
  rw [undone]
  change bytesOfBits (select finalOrder ((ordered block).take 32 ++ (ordered block).drop 32)) = _
  rw [List.take_append_drop, ordered, select_finalOrder (by rw [length_bitsOfBytes, length]),
    bytesOfBits_bitsOfBytes]

/-! ## Ciphers -/

theorem encrypt_cipher (key : Bytes) : (cipher key).encrypt = crypt (schedule key) := rfl

theorem decrypt_cipher (key : Bytes) : (cipher key).decrypt = crypt (schedule key).reverse := rfl

/-- With any key, both directions keep the block size and undo each other. -/
theorem cipher_lawful (key : Bytes) : (cipher key).Lawful where
  length_encrypt block _ := by
    rw [encrypt_cipher]
    exact length_crypt _ block
  length_decrypt block _ := by
    rw [decrypt_cipher]
    exact length_crypt _ block
  decrypt_encrypt block length := by
    rw [encrypt_cipher, decrypt_cipher]
    exact crypt_reverse (schedule key) length
  encrypt_decrypt block length := by
    have undone := crypt_reverse (schedule key).reverse length
    rw [encrypt_cipher, decrypt_cipher]
    rwa [List.reverse_reverse] at undone

private theorem encrypt_tripleCipher (key : Bytes) :
    (tripleCipher key).encrypt = fun block =>
      (cipher (key.drop 16)).encrypt ((cipher ((key.drop 8).take 8)).decrypt
        ((cipher (key.take 8)).encrypt block)) := rfl

private theorem decrypt_tripleCipher (key : Bytes) :
    (tripleCipher key).decrypt = fun block =>
      (cipher (key.take 8)).decrypt ((cipher ((key.drop 8).take 8)).encrypt
        ((cipher (key.drop 16)).decrypt block)) := rfl

theorem tripleCipher_lawful (key : Bytes) : (tripleCipher key).Lawful := by
  have first := cipher_lawful (key.take 8)
  have second := cipher_lawful ((key.drop 8).take 8)
  have third := cipher_lawful (key.drop 16)
  constructor
  all_goals
    intro block length
    simp only [encrypt_tripleCipher, decrypt_tripleCipher]
  · exact third.length_encrypt _ (second.length_decrypt _ (first.length_encrypt block length))
  · exact first.length_decrypt _ (second.length_encrypt _ (third.length_decrypt block length))
  · rw [third.decrypt_encrypt, second.encrypt_decrypt, first.decrypt_encrypt block length]
    · exact first.length_encrypt block length
    · exact second.length_decrypt _ (first.length_encrypt block length)
  · rw [first.encrypt_decrypt, second.decrypt_encrypt, third.encrypt_decrypt block length]
    · exact third.length_decrypt block length
    · exact second.length_encrypt _ (third.length_decrypt block length)

end CilRecovery.Des
