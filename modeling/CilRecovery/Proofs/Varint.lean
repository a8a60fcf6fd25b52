import CilRecovery.Proofs.Reader.Accepts
import CilRecovery.Proofs.Text
import CilRecovery.Varint

/-!
# Reading back variable-length encodings

Each encoding says where it ends, so a reader takes exactly the bytes that were written, whatever
stands before and behind them.
-/

set_option autoImplicit false

namespace CilRecovery.Varint

open Reader (Reads)

/-! ## Compressed integers -/

section

variable {number : Nat} {lead high middle low : UInt8}

private theorem reads_one (leadValue : lead.toNat = number) (few : number < 0x80) :
    Reads readCompressed [lead] (UInt32.ofNat number) := by
  have one : lead < 0x80 := by
    rw [UInt8.lt_iff_toNat_lt, leadValue]
    exact few
  refine Reads.atomically ((Reads.byte lead).last ?_)
  rw [if_pos one, leadValue]

private theorem reads_two (leadValue : lead.toNat = 0x80 + number / 0x100)
    (lowValue : low.toNat = number % 0x100) (few : number < 0x4000) :
    Reads readCompressed [lead, low] (UInt32.ofNat number) := by
  have notOne : ¬ lead < 0x80 := by simp [UInt8.lt_iff_toNat_lt, leadValue]
  have two : lead < 0xC0 := by
    simp only [UInt8.lt_iff_toNat_lt, leadValue, UInt8.reduceToNat]
    omega
  have sum : (lead.toNat - 0x80) * 0x100 + low.toNat = number := by omega
  refine Reads.atomically (Reads.byte_bind lead ?_)
  rw [if_neg notOne, if_pos two]
  exact (Reads.byte low).last (by rw [sum])

private theorem reads_four (leadValue : lead.toNat = 0xC0 + number / 0x1000000)
    (highValue : high.toNat = number / 0x10000 % 0x100)
    (middleValue : middle.toNat = number / 0x100 % 0x100) (lowValue : low.toNat = number % 0x100)
    (few : number ≤ maxCompressed) :
    Reads readCompressed [lead, high, middle, low] (UInt32.ofNat number) := by
  unfold maxCompressed at few
  have notOne : ¬ lead < 0x80 := by
    simp only [UInt8.lt_iff_toNat_lt, leadValue, UInt8.reduceToNat]
    omega
  have notTwo : ¬ lead < 0xC0 := by simp [UInt8.lt_iff_toNat_lt, leadValue]
  have four : lead < 0xE0 := by
    simp only [UInt8.lt_iff_toNat_lt, leadValue, UInt8.reduceToNat]
    omega
  have sum : (((lead.toNat - 0xC0) * 0x100 + high.toNat) * 0x100 + middle.toNat) * 0x100 +
      low.toNat = number := by omega
  refine Reads.atomically (Reads.byte_bind lead ?_)
  rw [if_neg notOne, if_neg notTwo, if_pos four]
  exact Reads.byte_bind high (Reads.byte_bind middle ((Reads.byte low).last (by rw [sum])))

end

/-- The width that the encoder picks is the one that the lead byte announces. -/
theorem reads_compressed {value : UInt32} {bytes : Bytes} (encoded : compressed value = .ok bytes) :
    Reads readCompressed bytes value := by
  unfold compressed at encoded
  dsimp only at encoded
  rw [← @UInt32.ofNat_toNat value]
  split at encoded
  · next one =>
      cases encoded
      exact reads_one (toNat_byte (by omega)) one
  · split at encoded
    · next two =>
        cases encoded
        exact reads_two (toNat_byte (by omega)) UInt8.toNat_ofNat' two
    · split at encoded
      · next four =>
          have limit : maxCompressed = 0x1FFFFFFF := rfl
          cases encoded
          exact reads_four (toNat_byte (by omega)) UInt8.toNat_ofNat' UInt8.toNat_ofNat'
            UInt8.toNat_ofNat' four
      · cases encoded

/-- Every value up to the limit has a compressed form. -/
theorem exists_compressed {value : UInt32} (few : value.toNat ≤ maxCompressed) :
    ∃ bytes, compressed value = .ok bytes := by
  unfold compressed
  dsimp only
  rw [if_pos few]
  split
  · exact ⟨_, rfl⟩
  · split
    · exact ⟨_, rfl⟩
    · exact ⟨_, rfl⟩

/-- No value above the limit has one, and the error names the value. -/
theorem compressed_eq_error {value : UInt32} (many : maxCompressed < value.toNat) :
    compressed value = .error (.malformed (.compressedRange value)) := by
  have limit : maxCompressed = 0x1FFFFFFF := rfl
  unfold compressed
  dsimp only
  rw [if_neg (by omega), if_neg (by omega), if_neg (by omega)]

/-! ## Seven-bit integers -/

private theorem reads_last (groups : Nat) {number : Nat} (few : number < 0x80) :
    Reads (readGroups (groups + 1)) [UInt8.ofNat number] (UInt32.ofNat number) := by
  have value : (UInt8.ofNat number).toNat = number := toNat_byte (by omega)
  have last : UInt8.ofNat number < 0x80 := by
    rw [UInt8.lt_iff_toNat_lt, value]
    exact few
  refine (Reads.byte _).last ?_
  rw [if_pos last, value]

private theorem reads_more {groups number : Nat} {others : Bytes}
    (reads : Reads (readGroups groups) others (UInt32.ofNat (number / 0x80))) :
    Reads (readGroups (groups + 1)) (UInt8.ofNat (0x80 + number % 0x80) :: others)
      (UInt32.ofNat number) := by
  have value : (UInt8.ofNat (0x80 + number % 0x80)).toNat = 0x80 + number % 0x80 :=
    toNat_byte (by omega)
  have more : ¬ UInt8.ofNat (0x80 + number % 0x80) < 0x80 := by
    rw [UInt8.lt_iff_toNat_lt, value]
    exact Nat.not_lt.mpr (Nat.le_add_right 0x80 _)
  have sum : UInt32.ofNat (number % 0x80) + 0x80 * UInt32.ofNat (number / 0x80) =
      UInt32.ofNat number := by
    have parts := congrArg UInt32.ofNat (Nat.mod_add_div number 0x80)
    rwa [UInt32.ofNat_add, UInt32.ofNat_mul] at parts
  refine Reads.byte_bind _ ?_
  rw [if_neg more, value, Nat.add_sub_cancel_left]
  exact reads.last (by rw [sum])

/-- Every group but the last says that another one follows. -/
theorem reads_groupsOf (groups : Nat) {number : Nat} (few : number < Nat.pow 128 (groups + 1)) :
    Reads (readGroups (groups + 1)) (groupsOf (groups + 1) number) (UInt32.ofNat number) := by
  induction groups generalizing number with
  | zero =>
      have last : number < 0x80 := few
      rw [groupsOf, if_pos last]
      exact reads_last 0 last
  | succ groups ih =>
      rw [groupsOf]
      by_cases last : number < 0x80
      · rw [if_pos last]
        exact reads_last (groups + 1) last
      · have fewer : number / 0x80 < Nat.pow 128 (groups + 1) :=
          Nat.div_lt_of_lt_mul (Nat.mul_comm _ 128 ▸ few)
        rw [if_neg last]
        exact reads_more (ih fewer)

/-- Every 32-bit value is read back from its shortest form, the ones with five groups included. -/
theorem reads_sevenBit (value : UInt32) : Reads readSevenBit (sevenBit value) value := by
  have few : value.toNat < Nat.pow 128 5 := Nat.lt_trans value.toNat_lt (by decide)
  have reads := (reads_groupsOf 4 few).atomically
  rwa [UInt32.ofNat_toNat] at reads

/-! ## Strings -/

theorem reads_prefixedBytes {bytes : Bytes} (short : bytes.length < UInt32.size) :
    Reads readPrefixedBytes (prefixedBytes bytes) bytes := by
  have length : (UInt32.ofNat bytes.length).toNat = bytes.length :=
    UInt32.toNat_ofNat_of_lt' short
  refine Reads.atomically ((reads_sevenBit _).bind ?_)
  rw [length]
  exact .take bytes

theorem reads_prefixedText {text : String} (short : (Utf8.encode text).length < UInt32.size) :
    Reads readPrefixedText (prefixedText text) text := by
  refine Reads.atomically (Reads.position fun start => (reads_prefixedBytes short).last ?_)
  rw [Utf8.decode_encode]

end CilRecovery.Varint
