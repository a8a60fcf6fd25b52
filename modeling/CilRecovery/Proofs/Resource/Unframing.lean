import CilRecovery.Proofs.Resource.Framing
import CilRecovery.Proofs.Varint.SevenBit

/-!
# Frames that are read back and frames that are cut

Unframing gives back what was framed. A frame that is cut anywhere in front of the end of its
payload is refused because the data end: neither a name nor a length is taken for another.
-/

set_option autoImplicit false

namespace CilRecovery

open Reader (Reads RunsOut)

namespace Varint

theorem runsOut_readPrefixedBytes {bytes : Bytes} (short : bytes.length < UInt32.size) :
    RunsOut readPrefixedBytes (prefixedBytes bytes) := by
  obtain ⟨grouped, few⟩ := isGroups_sevenBit (UInt32.ofNat bytes.length)
  have length : (UInt32.ofNat bytes.length).toNat = bytes.length :=
    UInt32.toNat_ofNat_of_lt' short
  refine (RunsOut.bind (reads_sevenBit _) (runsOut_readSevenBit grouped few) ?_).atomically
  rw [length]
  exact .take bytes

end Varint

namespace Resource

theorem runsOut_saltedCount (counter : Counter) {salt : UInt32} {number : Nat} {word : Bytes}
    (salted : IsSalted salt number word) : RunsOut (saltedCount counter salt) word := by
  obtain @⟨stored, -⟩ := salted
  exact (RunsOut.uint32 (stored ^^^ salt)).first _

/-- Names run out wherever they are cut, also between two of them. -/
theorem runsOut_names {names : List Bytes} (short : ∀ name ∈ names, name.length < UInt32.size) :
    RunsOut (Reader.times Varint.readPrefixedBytes names.length)
      (names.flatMap Varint.prefixedBytes) :=
  .times (fun name member => Varint.reads_prefixedBytes (short name member))
    fun name member => Varint.runsOut_readPrefixedBytes (short name member)

/-! ## Frames -/

section

variable (countSalt : Option UInt32) {names : List Bytes} (few : names.length < 0x80000000)
  (short : ∀ name ∈ names, name.length < UInt32.size)

include few short

/-- A frame with the length of its payload runs out up to its end. -/
theorem runsOut_sized (salt : UInt32) {payload : Bytes} (small : payload.length < 0x80000000) :
    RunsOut (readFrame countSalt (some salt)) (frame countSalt (some salt) names payload) := by
  have counted := isSalted_ofNat (countSalt.getD 0) few
  have measured := isSalted_ofNat salt small
  simp only [frame, List.append_assoc]
  refine RunsOut.bind (reads_saltedCount _ counted) (runsOut_saltedCount _ counted) ?_
  refine RunsOut.bind (reads_names short) (runsOut_names short) ?_
  exact RunsOut.bind (reads_saltedCount _ measured) (runsOut_saltedCount _ measured) (.take payload)

/-- A frame without a length runs out up to the end of its names. -/
theorem runsOut_unsized :
    RunsOut (readFrame countSalt none) (frame countSalt none names []) := by
  have counted := isSalted_ofNat (countSalt.getD 0) few
  simp only [frame, List.append_nil]
  refine RunsOut.bind (reads_saltedCount _ counted) (runsOut_saltedCount _ counted) ?_
  exact (runsOut_names short).first _

/-- Unframing inverts framing. With a salt for its length the payload comes back, whatever is
behind it, and without one everything behind the names. A frame that is cut in front of the end of
its payload, or of its names, is refused because the data end. Without a salt for the count the
frame begins with the number of names. -/
theorem unframe_frame :
    (∀ (salt : UInt32) (payload trailing : Bytes), payload.length < 0x80000000 →
      unframe countSalt (some salt) (frame countSalt (some salt) names payload ++ trailing) =
          .ok payload ∧
        ∀ count < (frame countSalt (some salt) names payload).length,
          unframe countSalt (some salt)
              ((frame countSalt (some salt) names payload ++ trailing).take count) =
            .error .outOfBounds) ∧
    (∀ payload : Bytes,
      unframe countSalt none (frame countSalt none names payload) = .ok payload ∧
        ∀ count < (frame countSalt none names []).length,
          unframe countSalt none ((frame countSalt none names payload).take count) =
            .error .outOfBounds) ∧
    ∀ (lengthSalt : Option UInt32) (payload : Bytes),
      (frame none lengthSalt names payload).take 4 =
        bytesOfUInt32 (UInt32.ofNat names.length) := by
  refine ⟨?_, ?_, ?_⟩
  · intro salt payload trailing small
    have framed := @isFrame_frame countSalt (some salt) names payload trailing few small nofun
    refine ⟨unframe_of_isFrame short framed, fun count cut => ?_⟩
    rw [List.take_append_of_le_length (Nat.le_of_lt cut)]
    exact (runsOut_sized countSalt few short salt small).decode cut
  · intro payload
    have behind : frame countSalt none names payload = frame countSalt none names [] ++ payload := by
      simp only [frame, List.append_nil]
    have framed : IsFrame countSalt names payload none (frame countSalt none names payload) := by
      simp only [frame, List.append_assoc]
      exact .unsized (isSalted_ofNat _ few)
    refine ⟨unframe_of_isFrame short framed, fun count cut => ?_⟩
    rw [behind, List.take_append_of_le_length (Nat.le_of_lt cut)]
    exact (runsOut_unsized countSalt few short).decode cut
  · intro lengthSalt payload
    have clear : bytesOfUInt32 (UInt32.ofNat names.length ^^^ 0) =
        bytesOfUInt32 (UInt32.ofNat names.length) := by
      rw [UInt32.xor_zero]
    have size : 4 = (bytesOfUInt32 (UInt32.ofNat names.length)).length :=
      (length_bytesOfUInt32 _).symm
    cases lengthSalt <;>
    · simp only [frame, Option.getD_none, clear, List.append_assoc]
      exact List.take_left' size.symm

end

/-- One name is no text and longer than one byte of its length can say, the other one is empty. -/
private def twoNames : List Bytes := [List.replicate 200 0xFF, []]

/-- A frame with three bytes behind it, the same cut inside the length of the first name, and a
frame without a length. -/
theorem unframe_frame_two :
    unframe (some 0x12345678) (some 0xFFFFFFF9)
        (frame (some 0x12345678) (some 0xFFFFFFF9) twoNames [1, 2] ++ [7, 8, 9]) = .ok [1, 2] ∧
      unframe (some 0x12345678) (some 0xFFFFFFF9)
          ((frame (some 0x12345678) (some 0xFFFFFFF9) twoNames [1, 2] ++ [7, 8, 9]).take 5) =
        .error .outOfBounds ∧
      unframe (some 0x12345678) none (frame (some 0x12345678) none twoNames [1, 2]) =
        .ok [1, 2] := by
  obtain ⟨sized, unsized, -⟩ :=
    @unframe_frame (some 0x12345678) twoNames (by decide) (by decide +kernel)
  obtain ⟨whole, cut⟩ := sized 0xFFFFFFF9 [1, 2] [7, 8, 9] (by decide)
  exact ⟨whole, cut 5 (by decide +kernel), (unsized [1, 2]).1⟩

end Resource

end CilRecovery
