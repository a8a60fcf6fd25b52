/-!
# Byte strings

Byte strings as lists, with the checked slices and the in-place replacement that every reader
and every patch of an image is described by.
-/

set_option autoImplicit false

namespace CilRecovery

/-- Statements about every byte are decided by trying every value, one half of it at a time. -/
instance decidableForallByte (property : UInt8 → Prop) [DecidablePred property] :
    Decidable (∀ byte, property byte) :=
  decidable_of_iff (∀ high low : Fin 16, property (UInt8.ofNat (16 * high.val + low.val)))
    ⟨fun all byte => by
      have small := byte.toNat_lt
      have found := all ⟨byte.toNat / 16, by omega⟩ ⟨byte.toNat % 16, by omega⟩
      rwa [Nat.div_add_mod, UInt8.ofNat_toNat] at found,
    fun all high low => all (UInt8.ofNat (16 * high.val + low.val))⟩

abbrev Bytes := List UInt8

theorem toNat_byte {number : Nat} (small : number < 256) : (UInt8.ofNat number).toNat = number :=
  UInt8.toNat_ofNat_of_lt' small

theorem between_iff {low high byte : UInt8} :
    (decide (low ≤ byte) && decide (byte ≤ high)) = true ↔
      low.toNat ≤ byte.toNat ∧ byte.toNat ≤ high.toNat := by
  rw [Bool.and_eq_true_iff, decide_eq_true_iff, decide_eq_true_iff, UInt8.le_iff_toNat_le,
    UInt8.le_iff_toNat_le]

namespace Bytes

def slice? (data : Bytes) (offset length : Nat) : Option Bytes :=
  if offset + length ≤ data.length then some ((data.drop offset).take length) else none

/-- All bytes from `offset` on. The offset just past the last byte gives the empty string. -/
def from? (data : Bytes) (offset : Nat) : Option Bytes :=
  if offset ≤ data.length then some (data.drop offset) else none

/-- `data` with the bytes from `offset` on replaced by `patch`. The length is kept whenever the
patch ends inside the data. -/
def overwrite (data : Bytes) (offset : Nat) (patch : Bytes) : Bytes :=
  data.take offset ++ patch ++ data.drop (offset + patch.length)

def zeros (count : Nat) : Bytes := List.replicate count 0

def xor (left right : Bytes) : Bytes := List.zipWith (· ^^^ ·) left right

/-- The first `count` pieces of `size` bytes. With `count = data.length / size` this is every
complete piece; what is left over does not fill one. -/
def pieces (size : Nat) : (count : Nat) → (data : Bytes) → List Bytes
  | 0, _ => []
  | count + 1, data => data.take size :: pieces size count (data.drop size)

def chunks (size : Nat) (data : Bytes) : List Bytes := pieces size (data.length / size) data

@[simp] theorem length_zeros (count : Nat) : (zeros count).length = count := by
  simp [zeros]

/-- A slice that exists lies inside the data, an empty one included. -/
theorem slice?_eq_some {data piece : Bytes} {offset length : Nat}
    (found : slice? data offset length = some piece) :
    piece = (data.drop offset).take length ∧ offset + length ≤ data.length := by
  unfold slice? at found
  split at found
  · exact ⟨(Option.some.inj found).symm, by assumption⟩
  · simp at found

theorem length_overwrite {data patch : Bytes} {offset : Nat}
    (fits : offset + patch.length ≤ data.length) :
    (overwrite data offset patch).length = data.length := by
  simp only [overwrite, List.length_append, List.length_take, List.length_drop]
  omega

end Bytes

def paddingTo (alignment position : Nat) : Nat := (alignment - position % alignment) % alignment

theorem paddingTo_mod (position : Nat) {alignment : Nat} (positive : 0 < alignment) :
    (position + paddingTo alignment position) % alignment = 0 := by
  have below : position % alignment ≤ alignment := Nat.le_of_lt (Nat.mod_lt position positive)
  rw [paddingTo, Nat.add_mod_mod, ← Nat.mod_add_mod, Nat.add_sub_cancel' below, Nat.mod_self]

def alignFour (position : Nat) : Nat := position + paddingTo 4 position

end CilRecovery
