import CilRecovery.Proofs.Cipher.Field

/-!
# AES decrypts what it encrypts

Each step of a round has an inverse, and the rounds of the decryption undo those of the encryption
one by one. This does not depend on the key schedule.
-/

set_option autoImplicit false

namespace CilRecovery.Aes

/-! ## Columns -/

namespace Column

@[simp] theorem add_add (column other : Column) : (column.add other).add other = column := by
  simp only [add, UInt8.xor_assoc, UInt8.xor_self, UInt8.xor_zero]

theorem map_map {change undo : UInt8 → UInt8} (undone : ∀ byte, undo (change byte) = byte)
    (column : Column) : (column.map change).map undo = column := by
  simp [map, undone]

theorem circulant_circulant (first second third fourth first' second' third' fourth' : UInt8)
    (column : Column) :
    circulant first' second' third' fourth' (circulant first second third fourth column) =
      circulant
        (multiply first first' ^^^ multiply fourth second' ^^^ multiply third third' ^^^
          multiply second fourth')
        (multiply second first' ^^^ multiply first second' ^^^ multiply fourth third' ^^^
          multiply third fourth')
        (multiply third first' ^^^ multiply second second' ^^^ multiply first third' ^^^
          multiply fourth fourth')
        (multiply fourth first' ^^^ multiply third second' ^^^ multiply second third' ^^^
          multiply first fourth')
        column := by
  simp only [circulant, xor_multiply, multiply_xor, multiply_assoc, Column.mk.injEq]
  refine ⟨?_, ?_, ?_, ?_⟩ <;> ac_rfl

theorem circulant_identity (column : Column) : circulant 1 0 0 0 column = column := by
  simp [circulant]

/-- The two circulants are inverse to each other, so mixing the columns is undone. -/
@[simp] theorem unmix_mix (column : Column) : column.mix.unmix = column := by
  rw [mix, unmix, circulant_circulant]
  exact circulant_identity column

@[simp] theorem mix_unmix (column : Column) : column.unmix.mix = column := by
  rw [mix, unmix, circulant_circulant]
  exact circulant_identity column

end Column

/-! ## States -/

namespace State

@[simp] theorem add_add (state other : State) : (state.add other).add other = state := by
  simp [add]

theorem map_map {change undo : Column → Column} (undone : ∀ column, undo (change column) = column)
    (state : State) : (state.map change).map undo = state := by
  simp [map, undone]

@[simp] theorem unshiftRows_shiftRows (state : State) : state.shiftRows.unshiftRows = state := rfl

@[simp] theorem shiftRows_unshiftRows (state : State) : state.unshiftRows.shiftRows = state := rfl

@[simp] theorem length_toBytes (state : State) : state.toBytes.length = 16 := rfl

@[simp] theorem ofBytes_toBytes (state : State) : ofBytes state.toBytes = state := rfl

theorem toBytes_ofBytes {bytes : Bytes} (length : bytes.length = 16) :
    (ofBytes bytes).toBytes = bytes := by
  match bytes, length with
  | [_, _, _, _, _, _, _, _, _, _, _, _, _, _, _, _], _ => rfl

end State

/-! ## Rounds -/

private theorem unsubstituted (state : State) :
    (state.map (Column.map substitute)).map (Column.map unsubstitute) = state :=
  State.map_map (Column.map_map unsubstitute_substitute) state

private theorem substituted (state : State) :
    (state.map (Column.map unsubstitute)).map (Column.map substitute) = state :=
  State.map_map (Column.map_map substitute_unsubstitute) state

-- The steps are stated one by one: unfolding the recursion would unfold the tables with it.

private theorem encryptRounds_last (last state : State) :
    encryptRounds [last] state = ((state.map (Column.map substitute)).shiftRows).add last := rfl

private theorem encryptRounds_more (key next state : State) (rest : List State) :
    encryptRounds (key :: next :: rest) state =
      encryptRounds (next :: rest)
        ((((state.map (Column.map substitute)).shiftRows).map Column.mix).add key) := rfl

private theorem decryptRounds_last (last state : State) :
    decryptRounds [last] state =
      ((state.add last).unshiftRows).map (Column.map unsubstitute) := rfl

private theorem decryptRounds_more (key next state : State) (rest : List State) :
    decryptRounds (key :: next :: rest) state =
      ((((decryptRounds (next :: rest) state).add key).map Column.unmix).unshiftRows).map
        (Column.map unsubstitute) := rfl

/-- The induction is on the round keys. Only the last round does not mix columns. -/
theorem decryptRounds_encryptRounds (keys : List State) (state : State) :
    decryptRounds keys (encryptRounds keys state) = state := by
  induction keys generalizing state with
  | nil => rfl
  | cons key rest ih =>
      cases rest with
      | nil =>
          rw [encryptRounds_last, decryptRounds_last, State.add_add,
            State.unshiftRows_shiftRows, unsubstituted]
      | cons next rest =>
          rw [encryptRounds_more, decryptRounds_more, ih, State.add_add,
            State.map_map Column.unmix_mix, State.unshiftRows_shiftRows, unsubstituted]

theorem encryptRounds_decryptRounds (keys : List State) (state : State) :
    encryptRounds keys (decryptRounds keys state) = state := by
  induction keys generalizing state with
  | nil => rfl
  | cons key rest ih =>
      cases rest with
      | nil =>
          rw [decryptRounds_last, encryptRounds_last, substituted,
            State.shiftRows_unshiftRows, State.add_add]
      | cons next rest =>
          rw [decryptRounds_more, encryptRounds_more, substituted,
            State.shiftRows_unshiftRows, State.map_map Column.mix_unmix, State.add_add, ih]

/-- No law of the key schedule is needed: any round keys undo themselves in reverse. -/
theorem decryptState_encryptState (keys : List State) (state : State) :
    decryptState keys (encryptState keys state) = state := by
  cases keys with
  | nil => rfl
  | cons first rest =>
      rw [encryptState, decryptState, decryptRounds_encryptRounds, State.add_add]

theorem encryptState_decryptState (keys : List State) (state : State) :
    encryptState keys (decryptState keys state) = state := by
  cases keys with
  | nil => rfl
  | cons first rest =>
      rw [decryptState, encryptState, State.add_add, encryptRounds_decryptRounds]

/-- With any key, both directions keep the block size and undo each other. -/
theorem cipher_lawful (key : Bytes) : (cipher key).Lawful where
  length_encrypt _ _ := State.length_toBytes _
  length_decrypt _ _ := State.length_toBytes _
  decrypt_encrypt block length := by
    simp only [cipher, State.ofBytes_toBytes, decryptState_encryptState]
    exact State.toBytes_ofBytes length
  encrypt_decrypt block length := by
    simp only [cipher, State.ofBytes_toBytes, encryptState_decryptState]
    exact State.toBytes_ofBytes length

end CilRecovery.Aes
