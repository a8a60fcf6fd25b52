import CilRecovery.Method.Body
import CilRecovery.Proofs.Reader.Refuses

/-!
# Errors of the method codec

Data that is no method record is refused in one of two ways: it ends early, or its parts are not
those of a record.
-/

set_option autoImplicit false

namespace CilRecovery.Method

open Reader (Refuses)

/-- An error with which the codec refuses data. -/
def IsBodyError (error : Error) : Prop :=
  error = .outOfBounds ∨ ∃ fault, error = .invalidBody fault

private theorem bounds : IsBodyError .outOfBounds := .inl rfl

theorem Header.validate_error {header : Header} {error : Error}
    (refused : header.validate = .error error) : IsBodyError error := by
  refine .inr ?_
  unfold validate at refused
  split at refused
  · split at refused
    · cases refused
    · exact ⟨_, (Except.error.inj refused).symm⟩
  · split at refused
    · exact ⟨_, (Except.error.inj refused).symm⟩
    · split at refused
      · exact ⟨_, (Except.error.inj refused).symm⟩
      · split at refused
        · exact ⟨_, (Except.error.inj refused).symm⟩
        · split at refused
          · exact ⟨_, (Except.error.inj refused).symm⟩
          · cases refused

theorem Header.tiny_error {codeSize : Nat} {error : Error}
    (refused : tiny codeSize = .error error) : IsBodyError error := by
  unfold tiny at refused
  split at refused
  · cases refused
  · exact .inr ⟨_, (Except.error.inj refused).symm⟩

theorem Header.refuses_read : Refuses read IsBodyError := by
  refine (Refuses.peekByte bounds).bind fun first => ?_
  refine .ite ((Refuses.skip bounds 1).bind fun _ => .check fun _ => tiny_error) (.ite ?_ ?_)
  · refine (Refuses.uint16 bounds).bind fun flags => ?_
    refine (Refuses.uint16 bounds).bind fun maxStack => ?_
    refine (Refuses.uint32 bounds).bind fun codeSize => ?_
    refine (Refuses.uint32 bounds).bind fun localSignature => ?_
    exact (Refuses.check fun _ => validate_error).bind fun _ => .pure _
  · exact .throw (.inr ⟨_, rfl⟩)

theorem Section.checkKind_error {kind : UInt8} {error : Error}
    (refused : checkKind kind = .error error) : IsBodyError error := by
  refine .inr ?_
  unfold checkKind at refused
  split at refused
  · exact ⟨_, (Except.error.inj refused).symm⟩
  · split at refused
    · exact ⟨_, (Except.error.inj refused).symm⟩
    · cases refused

theorem Section.refuses_skipOne : Refuses skipOne IsBodyError := by
  refine (Refuses.align bounds 4 (by decide)).bind fun _ => ?_
  refine Refuses.position.bind fun start => ?_
  refine (Refuses.byte bounds).bind fun kind => ?_
  refine (Refuses.check fun _ => checkKind_error).bind fun _ => .ite ?_ ?_
  · refine (Refuses.seek bounds start).bind fun _ => ?_
    refine (Refuses.uint32 bounds).bind fun word => ?_
    exact (Refuses.skip bounds _).bind fun _ => .pure _
  · refine (Refuses.byte bounds).bind fun size => ?_
    exact (Refuses.skip bounds _).bind fun _ => .pure _

theorem Section.refuses_skipAll (fuel : Nat) : Refuses (skipAll fuel) IsBodyError := by
  induction fuel with
  | zero => exact .throw bounds
  | succ fuel ih => exact Section.refuses_skipOne.bind fun more => .ite ih (.pure _)

theorem Section.refuses_skipChain : Refuses skipChain IsBodyError := by
  refine (Refuses.align bounds 4 (by decide)).bind fun _ => ?_
  refine Refuses.position.bind fun start => ?_
  refine Refuses.left.bind fun left => ?_
  refine (Section.refuses_skipAll _).bind fun _ => ?_
  refine Refuses.position.bind fun stop => ?_
  exact (Refuses.seek bounds start).bind fun _ => .take bounds _

theorem Body.refuses_read : Refuses read IsBodyError := by
  refine .atomically (Header.refuses_read.bind fun header => ?_)
  refine (Refuses.take bounds _).bind fun code => ?_
  exact .ite (Section.refuses_skipChain.bind fun span => .pure _) (.pure _)

/-- Data is refused for running out or for being no method body, and for nothing else. -/
theorem Body.parse_error {data : Bytes} {error : Error} (refused : parse data = .error error) :
    IsBodyError error := refuses_read.decode refused

end CilRecovery.Method
