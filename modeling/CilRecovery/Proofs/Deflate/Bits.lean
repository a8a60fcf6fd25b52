import CilRecovery.Deflate.Bits

/-!
# The bits of a byte string

Bytes as the sequence of bits that a stream delivers, and streams as places in that sequence.
-/

set_option autoImplicit false

namespace CilRecovery.Deflate

/-! ## Bits -/

def bitsOfByte (byte : UInt8) : List Bool := (List.range 8).map byte.toNat.testBit

def bitsOf (data : Bytes) : List Bool := data.flatMap bitsOfByte

def numberOf : List Bool → Nat
  | [] => 0
  | bit :: bits => bit.toNat + 2 * numberOf bits

@[simp] theorem length_bitsOfByte (byte : UInt8) : (bitsOfByte byte).length = 8 := by
  simp [bitsOfByte]

@[simp] theorem bitsOf_nil : bitsOf [] = [] := rfl

@[simp] theorem bitsOf_cons (byte : UInt8) (data : Bytes) :
    bitsOf (byte :: data) = bitsOfByte byte ++ bitsOf data := rfl

@[simp] theorem bitsOf_append (front back : Bytes) :
    bitsOf (front ++ back) = bitsOf front ++ bitsOf back := List.flatMap_append

@[simp] theorem length_bitsOf (data : Bytes) : (bitsOf data).length = 8 * data.length := by
  induction data with
  | nil => rfl
  | cons byte rest ih =>
      simp only [bitsOf_cons, List.length_append, length_bitsOfByte, ih, List.length_cons]
      omega

theorem numberOf_bitsOfByte : ∀ byte : UInt8, numberOf (bitsOfByte byte) = byte.toNat := by
  decide +kernel

theorem bitsOfByte_injective {left right : UInt8} (same : bitsOfByte left = bitsOfByte right) :
    left = right := by
  rw [← UInt8.toNat_inj, ← numberOf_bitsOfByte, ← numberOf_bitsOfByte, same]

/-- The place of a bit in its byte. -/
theorem getElem?_bitsOf (data : Bytes) (position : Nat) :
    (bitsOf data)[position]? =
      data[position / 8]?.map fun byte => byte.toNat.testBit (position % 8) := by
  induction data generalizing position with
  | nil => simp
  | cons byte rest ih =>
      by_cases early : position < 8
      · rw [bitsOf_cons, List.getElem?_append_left (by simpa using early),
          Nat.div_eq_of_lt early, Nat.mod_eq_of_lt early]
        simp [bitsOfByte, early]
      · have later : position / 8 = (position - 8) / 8 + 1 := by omega
        have place : position % 8 = (position - 8) % 8 := by omega
        rw [bitsOf_cons, List.getElem?_append_right (by simpa using early), length_bitsOfByte, ih,
          later, place, List.getElem?_cons_succ]

theorem drop_bitsOf (data : Bytes) (count : Nat) :
    (bitsOf data).drop (8 * count) = bitsOf (data.drop count) := by
  induction count generalizing data with
  | zero => rfl
  | succ count ih =>
      cases data with
      | nil => simp
      | cons byte rest =>
          rw [List.drop_succ_cons, ← ih, bitsOf_cons, Nat.mul_succ, Nat.add_comm, ← List.drop_drop,
            List.drop_left' (length_bitsOfByte byte)]

/-- Bytes whose bits begin with those of a piece begin with the piece. -/
theorem exists_append_of_bitsOf {data piece : Bytes} {after : List Bool}
    (split : bitsOf data = bitsOf piece ++ after) : ∃ behind, data = piece ++ behind := by
  induction piece generalizing data with
  | nil => exact ⟨data, rfl⟩
  | cons byte rest ih =>
      cases data with
      | nil =>
          have impossible := congrArg List.length split
          simp only [bitsOf_nil, bitsOf_cons, List.length_append, length_bitsOfByte] at impossible
          exact absurd impossible (by simp only [List.length_nil]; omega)
      | cons first others =>
          rw [bitsOf_cons, bitsOf_cons, List.append_assoc] at split
          obtain ⟨same, split⟩ := List.append_inj split (by simp)
          obtain ⟨behind, rfl⟩ := ih split
          exact ⟨behind, by rw [bitsOfByte_injective same, List.cons_append]⟩

/-- Some bits at the start of bytes, with the bytes behind the one that holds the last bit. -/
theorem prefix_bitsOf_iff {data rest : Bytes} {bits : List Bool} :
    bits <+: bitsOf data ∧ rest = data.drop ((bits.length + 7) / 8) ↔
      ∃ stream padding, data = stream ++ rest ∧ bitsOf stream = bits ++ padding ∧
        padding.length < 8 := by
  constructor
  · rintro ⟨found, rfl⟩
    have inside := found.length_le
    rw [length_bitsOf] at inside
    have whole := congrArg bitsOf (List.take_append_drop ((bits.length + 7) / 8) data)
    rw [bitsOf_append] at whole
    rw [← whole] at found
    have size : (bitsOf (data.take ((bits.length + 7) / 8))).length =
        8 * ((bits.length + 7) / 8) := by
      rw [length_bitsOf, List.length_take_of_le (by omega)]
    obtain ⟨padding, split⟩ := List.prefix_of_prefix_length_le found (List.prefix_append _ _)
      (by omega)
    refine ⟨_, padding, (List.take_append_drop ..).symm, split.symm, ?_⟩
    have total := congrArg List.length split
    rw [List.length_append] at total
    omega
  · rintro ⟨stream, padding, rfl, split, short⟩
    have total := congrArg List.length split
    rw [length_bitsOf, List.length_append] at total
    have size : (bits.length + 7) / 8 = stream.length := by omega
    rw [bitsOf_append, split, List.append_assoc, size, List.drop_left]
    exact ⟨List.prefix_append _ _, rfl⟩

/-! ## Streams -/

namespace BitStream

/-- The stream of all bits from a position on. -/
def seek (data : Bytes) (position : Nat) : BitStream :=
  ⟨data.drop (position / 8), ⟨position % 8, Nat.mod_lt position (by decide)⟩⟩

theorem ofBytes_eq (data : Bytes) : ofBytes data = seek data 0 := rfl

theorem seek_eq_ofBytes {data : Bytes} {position : Nat} (aligned : position % 8 = 0) :
    seek data position = ofBytes (data.drop (position / 8)) := by
  simp only [seek, ofBytes, aligned]
  rfl

/-- Reading a bit is looking at a list of bits, whatever byte the bit is in. -/
theorem next?_seek (data : Bytes) (position : Nat) :
    (seek data position).next? =
      (bitsOf data)[position]?.map fun bit => (bit, seek data (position + 1)) := by
  rw [getElem?_bitsOf]
  by_cases inside : position / 8 < data.length
  · have place : (⟨position % 8, Nat.mod_lt _ (by decide)⟩ : Fin 8) + 1 =
        ⟨(position + 1) % 8, Nat.mod_lt _ (by decide)⟩ := by
      refine Fin.ext ?_
      simp only [Fin.val_add, Fin.val_one]
      omega
    simp only [List.getElem?_eq_getElem inside, Option.map_some, next?, seek,
      List.drop_eq_getElem_cons inside, place, Option.some.injEq, Prod.mk.injEq, mk.injEq, true_and,
      and_true]
    by_cases last : position % 8 = 7
    · have next : (position + 1) / 8 = position / 8 + 1 := by omega
      rw [if_pos (Fin.ext last), next]
    · have next : (position + 1) / 8 = position / 8 := by omega
      rw [if_neg fun same => last (congrArg Fin.val same), next,
        ← List.drop_eq_getElem_cons inside]
  · have outside := Nat.le_of_not_lt inside
    simp [next?, seek, List.getElem?_eq_none outside, List.drop_eq_nil_of_le outside]

/-- Bytes that have been begun are skipped. -/
theorem untouched_seek (data : Bytes) (position : Nat) :
    (seek data position).untouched = data.drop ((position + 7) / 8) := by
  unfold untouched seek
  by_cases aligned : position % 8 = 0
  · have place : (position + 7) / 8 = position / 8 := by omega
    rw [if_pos (Fin.ext aligned), place]
  · have place : (position + 7) / 8 = position / 8 + 1 := by omega
    rw [if_neg fun same => aligned (congrArg Fin.val same), List.tail_drop, place]

end BitStream

end CilRecovery.Deflate
