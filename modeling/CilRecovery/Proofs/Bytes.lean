import CilRecovery.Bytes.LittleEndian

/-!
# Pieces and words

Byte strings cut into pieces of one size, and the words that stand in them.
-/

set_option autoImplicit false

namespace CilRecovery.Bytes

/-!
## Pieces of byte strings

Cutting into pieces of one size and putting pieces together undo each other, and so does adding
the same bytes twice.
-/

/-! ### Slices -/

theorem slice?_middle (front piece back : Bytes) :
    (front ++ (piece ++ back)).slice? front.length piece.length = some piece := by
  rw [slice?, if_pos (by simp), List.drop_left, List.take_left]

/-! ### Sums -/

theorem length_xor {left right : Bytes} (covered : left.length ≤ right.length) :
    (left.xor right).length = left.length := by
  rw [xor, List.length_zipWith, Nat.min_eq_left covered]

theorem xor_xor {left right : Bytes} (covered : left.length ≤ right.length) :
    (left.xor right).xor right = left := by
  induction left generalizing right with
  | nil => rfl
  | cons byte rest ih =>
      cases right with
      | nil => cases covered
      | cons byte' rest' =>
          have others := ih (Nat.le_of_succ_le_succ covered)
          simp only [xor, List.zipWith_cons_cons] at others ⊢
          rw [others, UInt8.xor_assoc, UInt8.xor_self, UInt8.xor_zero]

/-! ### Pieces -/

@[simp] theorem length_pieces (size count : Nat) (data : Bytes) :
    (pieces size count data).length = count := by
  induction count generalizing data with
  | zero => rfl
  | succ count ih => simp [pieces, ih]

theorem flatten_pieces (size count : Nat) (data : Bytes) :
    (pieces size count data).flatten = data.take (count * size) := by
  induction count generalizing data with
  | zero => simp [pieces]
  | succ count ih =>
      rw [pieces, List.flatten_cons, ih, Nat.succ_mul, Nat.add_comm, List.take_add]

theorem length_of_mem_pieces {size count : Nat} {data piece : Bytes}
    (enough : count * size ≤ data.length) (member : piece ∈ pieces size count data) :
    piece.length = size := by
  induction count generalizing data with
  | zero => cases member
  | succ count ih =>
      rw [Nat.succ_mul] at enough
      rcases List.mem_cons.mp member with rfl | later
      · rw [List.length_take]
        omega
      · refine ih ?_ later
        rw [List.length_drop]
        omega

theorem length_flatten {size : Nat} {blocks : List Bytes}
    (sized : ∀ block ∈ blocks, block.length = size) :
    blocks.flatten.length = blocks.length * size := by
  induction blocks with
  | nil => simp
  | cons block rest ih =>
      rw [List.flatten_cons, List.length_append, sized block List.mem_cons_self,
        ih fun other member => sized other (List.mem_cons_of_mem _ member), List.length_cons,
        Nat.succ_mul, Nat.add_comm]

/-- Cutting undoes joining. What comes behind the last block plays no part. -/
theorem pieces_flatten {size : Nat} {blocks : List Bytes} (rest : Bytes)
    (sized : ∀ block ∈ blocks, block.length = size) :
    pieces size blocks.length (blocks.flatten ++ rest) = blocks := by
  induction blocks with
  | nil => rfl
  | cons block blocks ih =>
      have first := sized block List.mem_cons_self
      have others := ih fun other member => sized other (List.mem_cons_of_mem _ member)
      rw [List.length_cons, List.flatten_cons, List.append_assoc, pieces,
        List.take_left' first, List.drop_left' first, others]

/-- Whole blocks with less than a block behind them are cut where they were put together. -/
theorem chunks_flatten {size : Nat} {blocks : List Bytes} {rest : Bytes}
    (sized : ∀ block ∈ blocks, block.length = size) (short : rest.length < size) :
    chunks size (blocks.flatten ++ rest) = blocks := by
  have count : (blocks.flatten ++ rest).length / size = blocks.length := by
    rw [List.length_append, length_flatten sized, Nat.mul_comm,
      Nat.mul_add_div (Nat.zero_lt_of_lt short), Nat.div_eq_of_lt short, Nat.add_zero]
  rw [chunks, count, pieces_flatten rest sized]

theorem length_of_mem_chunks {size : Nat} {data piece : Bytes}
    (member : piece ∈ chunks size data) : piece.length = size :=
  length_of_mem_pieces (Nat.div_mul_le_self _ _) member

/-- Joining undoes cutting, up to the bytes that do not fill a chunk. -/
theorem flatten_chunks (size : Nat) (data : Bytes) :
    (chunks size data).flatten = data.take (data.length / size * size) :=
  flatten_pieces size _ data

theorem flatten_chunks_of_dvd {size : Nat} {data : Bytes} (whole : data.length % size = 0) :
    (chunks size data).flatten = data := by
  rw [flatten_chunks, Nat.div_mul_cancel (Nat.dvd_of_mod_eq_zero whole), List.take_length]

end CilRecovery.Bytes

namespace CilRecovery

/-!
## Words and their bytes

Words are stored as the bytes of each, one after the other. Cutting the bytes into groups of four
finds the words again, and storing those gives whole groups back.
-/

@[simp] theorem uint32OfBytes_bytesOfUInt32 (value : UInt32) :
    uint32OfBytes (bytesOfUInt32 value) = value := by
  simp [uint32OfBytes]

theorem bytesOfWords_eq_flatten (words : List UInt32) :
    bytesOfWords words = (words.map bytesOfUInt32).flatten :=
  List.flatMap_def

private theorem length_of_mem_words {words : List UInt32} :
    ∀ word ∈ words.map bytesOfUInt32, word.length = 4 := by
  intro word member
  obtain ⟨value, _, same⟩ := List.mem_map.mp member
  exact same ▸ length_bytesOfUInt32 value

@[simp] theorem length_bytesOfWords (words : List UInt32) :
    (bytesOfWords words).length = 4 * words.length := by
  rw [bytesOfWords_eq_flatten, Bytes.length_flatten length_of_mem_words, List.length_map,
    Nat.mul_comm]

@[simp] theorem wordsOfBytes_bytesOfWords (words : List UInt32) :
    wordsOfBytes (bytesOfWords words) = words := by
  have cut : (bytesOfWords words).chunks 4 = words.map bytesOfUInt32 := by
    have whole := @Bytes.chunks_flatten 4 (words.map bytesOfUInt32) [] length_of_mem_words
      (by decide)
    rwa [List.append_nil, ← bytesOfWords_eq_flatten] at whole
  simp [wordsOfBytes, cut, Function.comp_def]

theorem bytesOfWords_wordsOfBytes {data : Bytes} (whole : data.length % 4 = 0) :
    bytesOfWords (wordsOfBytes data) = data := by
  have same : ((data.chunks 4).map uint32OfBytes).map bytesOfUInt32 = data.chunks 4 := by
    have each : ∀ piece ∈ data.chunks 4, bytesOfUInt32 (uint32OfBytes piece) = piece :=
      fun _ member => bytesOfUInt32_ofNat_decode (Bytes.length_of_mem_chunks member)
    rw [List.map_map]
    exact (List.map_congr_left each).trans (List.map_id _)
  rw [bytesOfWords_eq_flatten, wordsOfBytes, same, Bytes.flatten_chunks_of_dvd whole]

end CilRecovery
