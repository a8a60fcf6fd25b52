import CilRecovery.Proofs.Reader.Accepts
import CilRecovery.Proofs.Varint
import CilRecovery.Varint

/-!
# Sequences of primitive encodings

Items of any kinds written one after the other are read back as they were, from wherever the first
of them begins, and the reader stops where the last of them ends.
-/

set_option autoImplicit false

namespace CilRecovery

open Reader (Reads)
open Writer (Writes)

/-! ## Fixed-width integers -/

namespace WordKind

def least (kind : WordKind) : Int := if kind.isSigned then -(kind.range / 2) else 0

/-- A type has as many values as its width has bytes for, from the least one on. -/
def Holds (kind : WordKind) (value : Int) : Prop :=
  kind.least ≤ value ∧ value < kind.least + kind.range

instance (kind : WordKind) (value : Int) : Decidable (kind.Holds value) :=
  inferInstanceAs (Decidable (kind.least ≤ value ∧ value < kind.least + kind.range))

theorem range_pos (kind : WordKind) : (0 : Int) < kind.range := by cases kind <;> decide

theorem range_even (kind : WordKind) : (kind.range : Int) % 2 = 0 := by cases kind <;> decide

/-- Two's complement loses nothing within the range of a type. -/
theorem interpret_residue {kind : WordKind} {value : Int} (holds : kind.Holds value) :
    kind.interpret (value % kind.range).toNat = value := by
  have positive := kind.range_pos
  have even := kind.range_even
  obtain ⟨lower, upper⟩ := holds
  unfold least at lower upper
  unfold interpret
  by_cases signed : kind.isSigned
  · rw [if_pos signed] at lower upper
    by_cases negative : value < 0
    · have residue : value % kind.range = value + kind.range := by
        rw [← Int.add_emod_right, Int.emod_eq_of_lt (by omega) (by omega)]
      rw [residue, if_pos (by simp [signed]; omega)]
      omega
    · rw [Int.emod_eq_of_lt (by omega) (by omega), if_neg (by simp [signed]; omega)]
      omega
  · rw [if_neg signed] at lower upper
    rw [Int.emod_eq_of_lt (by omega) (by omega), if_neg (by simp [signed])]
    omega

theorem decode_encode {kind : WordKind} {value : Int} (holds : kind.Holds value) :
    kind.decode (kind.encode value) = value := by
  have positive := kind.range_pos
  have below := Int.emod_lt_of_pos value positive
  have small : (value % kind.range).toNat < LittleEndian.capacity kind.width := by
    change _ < kind.range
    omega
  rw [decode, encode, LittleEndian.decode_encode, Nat.mod_eq_of_lt small, interpret_residue holds]

theorem reads {kind : WordKind} {value : Int} (holds : kind.Holds value) :
    Reads (Reader.word kind) (kind.encode value) value := by
  have read := Reads.word kind (LittleEndian.length_encode kind.width (value % kind.range).toNat)
  rwa [← encode, decode_encode holds] at read

end WordKind

/-! ## Items -/

namespace Primitive

def Fits : Primitive → Prop
  | .word kind value => kind.Holds value
  | .compressed value => value.toNat ≤ Varint.maxCompressed
  | .sevenBit _ => True
  | .text value => (Utf8.encode value).length < UInt32.size

instance : DecidablePred Fits
  | .word kind value => inferInstanceAs (Decidable (kind.Holds value))
  | .compressed value => inferInstanceAs (Decidable (value.toNat ≤ Varint.maxCompressed))
  | .sevenBit _ => inferInstanceAs (Decidable True)
  | .text value => inferInstanceAs (Decidable ((Utf8.encode value).length < UInt32.size))

/-- An item that fits is written, and what was written is read back as the item. -/
theorem exists_encoding {item : Primitive} (fits : item.Fits) :
    ∃ bytes, Writes item.write bytes ∧ Reads item.kind.read bytes item := by
  cases item with
  | word kind value => exact ⟨_, .put _, (WordKind.reads fits).map _⟩
  | compressed value =>
      obtain ⟨bytes, encoded⟩ := Varint.exists_compressed fits
      refine ⟨bytes, ?_, (Varint.reads_compressed encoded).map _⟩
      rw [write, encoded]
      exact .putChecked bytes
  | sevenBit value => exact ⟨_, .put _, (Varint.reads_sevenBit value).map _⟩
  | text value => exact ⟨_, .put _, (Varint.reads_prefixedText fits).map _⟩

/-! ## Sequences -/

/-- Items that fit are written and read back as the same bytes, one item after the other. -/
theorem exists_encodings {items : List Primitive} (fits : ∀ item ∈ items, item.Fits) :
    ∃ bytes, Writes (items.forM write) bytes ∧
      Reads ((items.map kind).mapM PrimitiveKind.read) bytes items := by
  induction items with
  | nil => exact ⟨[], fun buffer => congrArg _ (List.append_nil buffer).symm, .pure []⟩
  | cons item rest ih =>
      obtain ⟨front, written, read⟩ := exists_encoding (fits item List.mem_cons_self)
      obtain ⟨back, written', read'⟩ :=
        ih fun other member => fits other (List.mem_cons_of_mem _ member)
      refine ⟨front ++ back, written.bind written', ?_⟩
      rw [List.map_cons, List.mapM_cons]
      exact read.bind (read'.last rfl)

/-- Items that fit are written behind what a buffer holds and read back from there, whatever
follows them. A compressed integer that does not fit is not written, and the buffer is kept. -/
theorem readAll_writeAll {items : List Primitive} (fits : ∀ item ∈ items, item.Fits)
    (before after : Bytes) :
    (∃ written, items.forM write before = .ok () (before ++ written) ∧
      (items.map kind).mapM PrimitiveKind.read ⟨before ++ (written ++ after), before.length⟩ =
        .ok items ⟨before ++ (written ++ after), (before ++ written).length⟩) ∧
    ∀ (value : UInt32) (buffer : Bytes), Varint.maxCompressed < value.toNat →
      (Primitive.compressed value).write buffer =
        .error (.malformed (.compressedRange value)) buffer := by
  constructor
  · obtain ⟨written, writes, reads⟩ := exists_encodings fits
    exact ⟨written, writes before, List.length_append ▸ reads before after⟩
  · intro value buffer large
    rw [write, Varint.compressed_eq_error large]
    rfl

private def mixedItems : List Primitive :=
  [.word .i16 (-2), .compressed 0x3FFF, .sevenBit 0xFFFFFFFF, .text "Grüße", .word .u8 255,
    .compressed 0x4000]

private def mixedBytes : Bytes :=
  [0xFE, 0xFF, 0xBF, 0xFF, 0xFF, 0xFF, 0xFF, 0xFF, 0x0F, 7, 0x47, 0x72, 0xC3, 0xBC, 0xC3, 0x9F,
    0x65, 0xFF, 0xC0, 0, 0x40, 0]

/-- Items of every kind, with values at the ends of their widths, behind and in front of stray
bytes. -/
theorem readAll_writeAll_mixed :
    (∀ item ∈ mixedItems, item.Fits) ∧
      mixedItems.forM write [0xEE] = .ok () ([0xEE] ++ mixedBytes) ∧
      (mixedItems.map kind).mapM PrimitiveKind.read ⟨[0xEE] ++ (mixedBytes ++ [0x80]), 1⟩ =
        .ok mixedItems ⟨[0xEE] ++ (mixedBytes ++ [0x80]), 23⟩ := by
  have fits : ∀ item ∈ mixedItems, item.Fits := by decide +kernel
  have written : mixedItems.forM write [0xEE] = .ok () ([0xEE] ++ mixedBytes) := by rfl
  obtain ⟨⟨bytes, wrote, read⟩, -⟩ := readAll_writeAll fits [0xEE] [0x80]
  obtain rfl : bytes = mixedBytes := by
    rw [written] at wrote
    exact (List.append_cancel_left (EStateM.Result.ok.inj wrote).2).symm
  exact ⟨fits, written, read⟩

end Primitive

end CilRecovery
