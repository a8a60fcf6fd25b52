import CilRecovery.Proofs.Varint
import CilRecovery.Resource

/-!
# Frames around payloads

What a frame consists of, stated by its parts, and what reading makes of it: the payload and
nothing else, however the names in front of it look.
-/

set_option autoImplicit false

namespace CilRecovery.Resource

open Reader (Reads ReadsToEnd)

/-! ## Parts of a frame -/

inductive IsSalted (salt : UInt32) (number : Nat) : Bytes → Prop
  | word {stored : UInt32} (signed : WordKind.i32.interpret stored.toNat = number) :
      IsSalted salt number (bytesOfUInt32 (stored ^^^ salt))

/-- The bytes of a frame: the number of names, each name behind its length, and the payload. With
a salt for it the payload's length stands in front of it, and anything may follow. -/
inductive IsFrame (countSalt : Option UInt32) (names : List Bytes) (payload : Bytes) :
    (lengthSalt : Option UInt32) → Bytes → Prop
  | sized {salt : UInt32} {count length trailing : Bytes}
      (counted : IsSalted (countSalt.getD 0) names.length count)
      (measured : IsSalted salt payload.length length) :
      IsFrame countSalt names payload (some salt)
        (count ++ (names.flatMap Varint.prefixedBytes ++ (length ++ (payload ++ trailing))))
  | unsized {count : Bytes} (counted : IsSalted (countSalt.getD 0) names.length count) :
      IsFrame countSalt names payload none
        (count ++ (names.flatMap Varint.prefixedBytes ++ payload))

theorem reads_saltedCount (counter : Counter) {salt : UInt32} {number : Nat} {word : Bytes}
    (salted : IsSalted salt number word) : Reads (saltedCount counter salt) word number := by
  obtain @⟨stored, signed⟩ := salted
  have unsalted : stored ^^^ salt ^^^ salt = stored := by
    rw [UInt32.xor_assoc, UInt32.xor_self, UInt32.xor_zero]
  refine (Reads.uint32 (stored ^^^ salt)).last ?_
  simp only [unsalted, signed]
  rfl

/-- Names are any byte strings with a length that 32 bits can say. -/
theorem reads_names {names : List Bytes} (short : ∀ name ∈ names, name.length < UInt32.size) :
    Reads (Reader.times Varint.readPrefixedBytes names.length)
      (names.flatMap Varint.prefixedBytes) (names.map id) :=
  .times fun name member => Varint.reads_prefixedBytes (short name member)

/-! ## Payloads -/

theorem unframe_of_isFrame {countSalt lengthSalt : Option UInt32} {names : List Bytes}
    {payload data : Bytes} (short : ∀ name ∈ names, name.length < UInt32.size)
    (framed : IsFrame countSalt names payload lengthSalt data) :
    unframe countSalt lengthSalt data = .ok payload := by
  have skipped := reads_names short
  cases framed with
  | sized counted measured =>
      refine Reader.ReadsToEnd.decode ((reads_saltedCount _ counted).toEnd (skipped.toEnd ?_))
      exact (reads_saltedCount _ measured).toEnd ((Reads.take payload).readsToEnd _)
  | unsized counted =>
      refine Reader.ReadsToEnd.decode ((reads_saltedCount _ counted).toEnd (skipped.toEnd ?_))
      exact .rest payload

/-! ## Writing -/

theorem isSalted_ofNat (salt : UInt32) {number : Nat} (small : number < 0x80000000) :
    IsSalted salt number (bytesOfUInt32 (UInt32.ofNat number ^^^ salt)) := by
  have stored : (UInt32.ofNat number).toNat = number :=
    UInt32.toNat_ofNat_of_lt' (Nat.lt_trans small (by decide))
  have positive : ¬ WordKind.range .i32 ≤ 2 * number := by
    have range : WordKind.range .i32 = 0x100000000 := rfl
    omega
  refine .word ?_
  rw [stored, WordKind.interpret, if_neg (by simp [positive])]

/-- What the encoder makes of names and a payload is a frame, also with bytes behind it where the
length of the payload is stored. -/
theorem isFrame_frame (countSalt lengthSalt : Option UInt32) {names : List Bytes}
    {payload trailing : Bytes} (few : names.length < 0x80000000)
    (small : payload.length < 0x80000000) (closed : lengthSalt = none → trailing = []) :
    IsFrame countSalt names payload lengthSalt
      (frame countSalt lengthSalt names payload ++ trailing) := by
  cases lengthSalt with
  | none =>
      rw [closed rfl, frame, List.append_nil, List.append_assoc]
      exact .unsized (isSalted_ofNat _ few)
  | some salt =>
      simp only [frame, List.append_assoc]
      exact .sized (isSalted_ofNat _ few) (isSalted_ofNat salt small)

end CilRecovery.Resource
