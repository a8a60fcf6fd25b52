import CilRecovery.StringDecrypters

/-!
# Rolling keys

Encryption combines the bytes of a unit with the two keys that decryption uses for them, after
they have changed places. So each direction undoes the other on any list of units, and the only
thing that either takes from the constant and the argument is the low byte of their sum.
-/

set_option autoImplicit false

namespace CilRecovery

namespace RollingKey

/-! ## Units -/

theorem toNat_unitOf (high low : UInt8) :
    (unitOf high low).toNat = 256 * high.toNat + low.toNat := by
  have highSmall := high.toNat_lt
  have lowSmall := low.toNat_lt
  have shifted : (high.toUInt16 <<< 8).toNat = high.toNat <<< 8 := by
    rw [UInt16.toNat_shiftLeft, UInt8.toNat_toUInt16, Nat.shiftLeft_eq, Nat.shiftLeft_eq]
    exact Nat.mod_eq_of_lt (by simp; omega)
  rw [unitOf, UInt16.toNat_or, shifted, UInt8.toNat_toUInt16,
    ← Nat.shiftLeft_add_eq_or_of_lt lowSmall, Nat.shiftLeft_eq, Nat.mul_comm]

@[simp] theorem low_unitOf (high low : UInt8) : (unitOf high low).toUInt8 = low := by
  have small := low.toNat_lt
  apply UInt8.toNat_inj.mp
  rw [UInt16.toNat_toUInt8, toNat_unitOf]
  omega

@[simp] theorem high_unitOf (high low : UInt8) : (unitOf high low >>> 8).toUInt8 = high := by
  have highSmall := high.toNat_lt
  have lowSmall := low.toNat_lt
  apply UInt8.toNat_inj.mp
  rw [UInt16.toNat_toUInt8, UInt16.toNat_shiftRight, toNat_unitOf, Nat.shiftRight_eq_div_pow]
  simp
  omega

theorem unitOf_bytes (unit : UInt16) : unitOf (unit >>> 8).toUInt8 unit.toUInt8 = unit := by
  have small := unit.toNat_lt
  apply UInt16.toNat_inj.mp
  rw [toNat_unitOf, UInt16.toNat_toUInt8, UInt16.toNat_toUInt8, UInt16.toNat_shiftRight,
    Nat.shiftRight_eq_div_pow]
  simp
  omega

/-- The low byte with the first key becomes the high byte, the high byte with the second key the
low byte. -/
def exchange (first second : UInt8) (unit : UInt16) : UInt16 :=
  unitOf (unit.toUInt8 ^^^ first) ((unit >>> 8).toUInt8 ^^^ second)

/-- The bytes of a unit change places, so the keys do as well on the way back. -/
theorem exchange_exchange (first second : UInt8) (unit : UInt16) :
    exchange first second (exchange second first unit) = unit := by
  simp only [exchange, low_unitOf, high_unitOf, UInt8.xor_assoc, UInt8.xor_self, UInt8.xor_zero]
  exact unitOf_bytes unit

/-! ## Lists of units -/

variable {key : UInt8} {units : List UInt16}

theorem decryptFrom_cons (key : UInt8) (unit : UInt16) (rest : List UInt16) :
    decryptFrom key (unit :: rest) =
      exchange key (key + 1) unit :: decryptFrom (key + 2) rest := rfl

theorem encryptFrom_cons (key : UInt8) (unit : UInt16) (rest : List UInt16) :
    encryptFrom key (unit :: rest) =
      exchange (key + 1) key unit :: encryptFrom (key + 2) rest := rfl

/-- Any first key and any units, unpaired surrogates included. -/
theorem decryptFrom_encryptFrom (key : UInt8) (units : List UInt16) :
    decryptFrom key (encryptFrom key units) = units := by
  induction units generalizing key with
  | nil => rfl
  | cons unit rest ih =>
      rw [encryptFrom_cons, decryptFrom_cons, exchange_exchange, ih]

theorem encryptFrom_decryptFrom (key : UInt8) (units : List UInt16) :
    encryptFrom key (decryptFrom key units) = units := by
  induction units generalizing key with
  | nil => rfl
  | cons unit rest ih =>
      rw [decryptFrom_cons, encryptFrom_cons, exchange_exchange, ih]

/-- Two keys are used up for each unit in front, modulo the number of keys. -/
theorem getElem?_decryptFrom (key : UInt8) (units : List UInt16) (index : Nat) :
    (decryptFrom key units)[index]? =
      units[index]?.map
        (exchange (key + UInt8.ofNat (2 * index)) (key + UInt8.ofNat (2 * index + 1))) := by
  induction units generalizing key index with
  | nil => rfl
  | cons unit rest ih =>
      cases index with
      | zero => simp [decryptFrom_cons]
      | succ index =>
          have later (count : Nat) :
              key + 2 + UInt8.ofNat count = key + UInt8.ofNat (count + 2) := by
            rw [UInt8.ofNat_add, UInt8.add_assoc, UInt8.add_comm 2]
            rfl
          rw [decryptFrom_cons, List.getElem?_cons_succ, List.getElem?_cons_succ, ih, later, later]
          rfl

theorem length_decryptFrom (key : UInt8) (units : List UInt16) :
    (decryptFrom key units).length = units.length := by
  induction units generalizing key with
  | nil => rfl
  | cons unit rest ih => exact congrArg (· + 1) (ih (key + 2))

/-! ## Keys -/

/-- The key of the byte at a place of the text. -/
def keyAt (magic value : Int32) (place : Nat) : UInt8 :=
  UInt8.ofNat ((magic.toInt + value.toInt + place) % 256).toNat

private theorem toNat_emod (word : Int32) :
    (word.toUInt32.toNat : Int) % 256 = word.toInt % 256 := by
  have value : word.toInt = _ := BitVec.toInt_eq_toNat_cond word.toBitVec
  rw [Int32.toNat_toBitVec] at value
  split at value <;> omega

theorem toNat_start (magic value : Int32) :
    ((start magic value).toNat : Int) = (magic.toInt + value.toInt) % 256 := by
  have first := toNat_emod magic
  have second := toNat_emod value
  rw [start, UInt32.toNat_toUInt8, Int32.toUInt32_add, UInt32.toNat_add]
  omega

/-- The key runs modulo 256. Only the sum of the two parameters counts. -/
theorem start_add_ofNat (magic value : Int32) (place : Nat) :
    start magic value + UInt8.ofNat place = keyAt magic value place := by
  have first := toNat_start magic value
  have bounded : ((magic.toInt + value.toInt + place) % 256).toNat < 256 := by omega
  apply UInt8.toNat_inj.mp
  rw [UInt8.toNat_add, UInt8.toNat_ofNat', keyAt, UInt8.toNat_ofNat_of_lt' bounded]
  omega

/-- On any list of units, unpaired surrogates included, each direction undoes the other and keeps
the number of units. Only the sum of the constant and the argument modulo 256 counts: the key of
each byte is that sum and its place, modulo 256. -/
theorem decrypt_encrypt_inverse (magic value : Int32) (units : List UInt16) :
    (decrypt magic value (encrypt magic value units) = units ∧
      encrypt magic value (decrypt magic value units) = units) ∧
    ((decrypt magic value units).length = units.length ∧
      (encrypt magic value units).length = units.length) ∧
    (∀ magic' value' : Int32,
      (magic'.toInt + value'.toInt) % 256 = (magic.toInt + value.toInt) % 256 →
        decrypt magic' value' units = decrypt magic value units ∧
          encrypt magic' value' units = encrypt magic value units) ∧
    ∀ index, (decrypt magic value units)[index]? =
      units[index]?.map
        (exchange (keyAt magic value (2 * index)) (keyAt magic value (2 * index + 1))) := by
  refine ⟨⟨decryptFrom_encryptFrom _ _, encryptFrom_decryptFrom _ _⟩,
    ⟨length_decryptFrom _ _, ?_⟩, fun magic' value' same => ?_, fun index => ?_⟩
  · have undone := decryptFrom_encryptFrom (start magic value) units
    have kept := length_decryptFrom (start magic value) (encrypt magic value units)
    rw [encrypt, undone] at kept
    exact kept.symm
  · have keys : start magic' value' = start magic value := by
      apply UInt8.toNat_inj.mp
      have first := toNat_start magic value
      have second := toNat_start magic' value'
      omega
    simp only [decrypt, encrypt, keys, and_self]
  · rw [decrypt, getElem?_decryptFrom, start_add_ofNat, start_add_ofNat]

/-- Two sums that are the same modulo 256, one of which passes the largest integer, and two halves
of surrogate pairs that have lost their partners. -/
theorem decrypt_encrypt_inverse_unpaired :
    (((-2 : Int32).toInt + (0 : Int32).toInt) % 256 =
        ((0xFF : Int32).toInt + (0x7FFFFFFF : Int32).toInt) % 256) ∧
      decrypt 0xFF 0x7FFFFFFF (encrypt 0xFF 0x7FFFFFFF [0xD800, 0x0041, 0xDFFF]) =
        [0xD800, 0x0041, 0xDFFF] ∧
      decrypt (-2) 0 (encrypt 0xFF 0x7FFFFFFF [0xD800, 0x0041, 0xDFFF]) =
        [0xD800, 0x0041, 0xDFFF] := by
  have same : ((-2 : Int32).toInt + (0 : Int32).toInt) % 256 =
      ((0xFF : Int32).toInt + (0x7FFFFFFF : Int32).toInt) % 256 := by decide
  have undone := (decrypt_encrypt_inverse 0xFF 0x7FFFFFFF [0xD800, 0x0041, 0xDFFF]).1.1
  refine ⟨same, undone, ?_⟩
  rw [((decrypt_encrypt_inverse 0xFF 0x7FFFFFFF _).2.2.1 (-2) 0 same).1, undone]

end RollingKey

end CilRecovery
