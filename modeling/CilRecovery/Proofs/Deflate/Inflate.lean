import CilRecovery.Proofs.Deflate.Blocks

/-!
# Inflating whole streams

Inflating gives the text of each complete stream for which there is space, and nothing else.
-/

set_option autoImplicit false

namespace CilRecovery.Deflate

variable {data stream text rest history : Bytes} {space : Option Nat}

/-- The inflater produces the texts of the grammar and no others. -/
theorem realizes_inflate (data history : Bytes) :
    Inflater.Realizes data 0 history
      (Inflater.blocks (8 * data.length + 1) (8 * data.length + 1))
      fun _ bits piece => IsStream 0 history bits piece := by
  have enough : (ahead data 0).length < 8 * data.length + 1 := by
    rw [ahead, List.drop_zero, length_bitsOf]
    exact Nat.lt_succ_self _
  exact Inflater.realizes_blocks (Nat.zero_le _) enough enough

theorem inflate_of_ok {position : Nat} {left : Option Nat}
    (finished : Inflater.blocks (8 * data.length + 1) (8 * data.length + 1)
        (.reached data 0 space history) = .ok () (.reached data position left (history ++ text))) :
    inflate data space history = ⟨none, text, data.drop ((position + 7) / 8)⟩ := by
  have size : (history ++ text).length - history.length = text.reverse.length := by simp
  rw [Progress.reached, ← BitStream.ofBytes_eq] at finished
  simp only [inflate, finished, Progress.reached, BitStream.untouched_seek, List.length_reverse]
  rw [size, List.reverse_append, List.take_left, List.reverse_reverse]

theorem inflate_of_error {stop : Stop} {progress : Progress}
    (stopped : Inflater.blocks (8 * data.length + 1) (8 * data.length + 1)
        (.reached data 0 space history) = .error stop progress) :
    (inflate data space history).stop = some stop := by
  rw [Progress.reached, ← BitStream.ofBytes_eq] at stopped
  simp only [inflate, stopped]

/-- Inflating comes to an end exactly on complete streams of a text that fits. -/
theorem inflate_eq_iff :
    inflate data space history = ⟨none, text, rest⟩ ↔
      ∃ stream, data = stream ++ rest ∧ Encodes history stream text ∧ Fits space text.length := by
  have realizes := realizes_inflate data history
  constructor
  · intro inflated
    cases finished : Inflater.blocks (8 * data.length + 1) (8 * data.length + 1)
        (.reached data 0 space history) with
    | error stop progress =>
        have stopped := inflate_of_error finished
        rw [inflated] at stopped
        cases stopped
    | ok value progress =>
        obtain ⟨bits, piece, found, blocks, fits, rfl⟩ := (realizes.ok_iff ..).mp finished
        cases (inflate_of_ok finished).symm.trans inflated
        rw [Nat.zero_add]
        obtain ⟨stream, padding, split, spelled, short⟩ := prefix_bitsOf_iff.mp ⟨found, rfl⟩
        exact ⟨stream, split, ⟨bits, padding, spelled, short, blocks⟩, fits⟩
  · rintro ⟨stream, split, ⟨bits, padding, spelled, short, blocks⟩, fits⟩
    obtain ⟨found, rfl⟩ := prefix_bitsOf_iff.mpr ⟨stream, padding, split, spelled, short⟩
    have finished := (realizes.ok_iff space () _).mpr ⟨bits, text, found, blocks, fits, rfl⟩
    rw [Nat.zero_add] at finished
    exact inflate_of_ok finished

/-- What follows a stream is left over as whole bytes. -/
theorem inflate_append (encodes : Encodes history stream text) (fits : Fits space text.length)
    (rest : Bytes) : inflate (stream ++ rest) space history = ⟨none, text, rest⟩ :=
  inflate_eq_iff.mpr ⟨stream, rfl, encodes, fits⟩

/-- A text that does not fit is not inflated, however well formed its stream is. -/
theorem inflate_full (encodes : Encodes history stream text) (overflows : ¬ Fits space text.length)
    (rest : Bytes) : (inflate (stream ++ rest) space history).stop = some .full := by
  obtain ⟨bits, padding, spelled, short, blocks⟩ := encodes
  obtain ⟨found, -⟩ := prefix_bitsOf_iff.mpr ⟨stream, padding, rfl, spelled, short⟩
  obtain ⟨progress, stopped⟩ :=
    (realizes_inflate (stream ++ rest) history).full space () bits text found blocks overflows
  exact inflate_of_error stopped

/-- The bytes of a complete stream are what inflates without a limit and leaves nothing. -/
theorem encodes_iff :
    Encodes history stream text ↔ inflate stream none history = ⟨none, text, []⟩ := by
  constructor
  · intro encodes
    exact List.append_nil stream ▸ inflate_append encodes (fits_none _) []
  · intro inflated
    obtain ⟨_, rfl, encodes, _⟩ := inflate_eq_iff.mp inflated
    exact (List.append_nil _).symm ▸ encodes

end CilRecovery.Deflate
