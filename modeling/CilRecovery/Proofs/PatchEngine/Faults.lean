import CilRecovery.Proofs.Method.Faults
import CilRecovery.Proofs.Patch
import CilRecovery.Proofs.PatchEngine.Collection

/-!
# Errors of method streams

Everything that can be wrong with a method stream, or with a table of patches, is a matter of its
form: it does not read as a layout, it reaches outside of the image, or what it patches is no
method.
-/

set_option autoImplicit false

namespace CilRecovery

open Error (isFormat_malformed isFormat_outOfBounds)
open Reader (Refuses)

/-! ## Reading -/

namespace MethodStream

private theorem refuses_readWhileLeft {reader : Reader (List Record)}
    (inner : Refuses reader Error.IsFormat) (fuel : Nat) :
    Refuses (readWhileLeft reader fuel) Error.IsFormat := by
  induction fuel with
  | zero => exact .pure []
  | succ fuel ih =>
      exact Refuses.left.bind fun left =>
        .ite (inner.bind fun first => ih.bind fun others => .pure _) (.pure [])

private theorem refuses_readDword : Refuses readDword Error.IsFormat :=
  (Refuses.uint32 isFormat_outOfBounds).bind fun _ =>
    (Refuses.uint32 isFormat_outOfBounds).bind fun _ => .pure _

private theorem refuses_count (counter : Counter) :
    Refuses (Reader.count counter) Error.IsFormat :=
  .count isFormat_outOfBounds fun _ => isFormat_malformed _

private theorem refuses_readGroup : Refuses readGroup Error.IsFormat :=
  (Refuses.uint32 isFormat_outOfBounds).bind fun _ =>
    (refuses_count _).bind fun _ => refuses_readDword.times _

private theorem refuses_readWrite : Refuses readWrite Error.IsFormat := by
  refine (Refuses.uint32 isFormat_outOfBounds).bind fun address => ?_
  refine (Refuses.uint32 isFormat_outOfBounds).bind fun token => ?_
  refine (Refuses.word isFormat_outOfBounds _).bind fun size => ?_
  exact .ite ((Refuses.take isFormat_outOfBounds _).bind fun _ => .pure _) (.pure [])

private theorem refuses_readMethod : Refuses readMethod Error.IsFormat := by
  refine (Refuses.uint32 isFormat_outOfBounds).bind fun codeAddress => ?_
  refine (Refuses.uint32 isFormat_outOfBounds).bind fun index => ?_
  refine (refuses_count _).bind fun size => ?_
  exact (Refuses.take isFormat_outOfBounds size).bind fun _ => .pure _

private theorem refuses_readRecords (format : Format) :
    Refuses (readRecords format) Error.IsFormat := by
  refine (refuses_count _).bind fun count => ?_
  refine (Refuses.word isFormat_outOfBounds _).bind fun mode => ?_
  cases format with
  | legacyTokenRva =>
      refine (Refuses.skip isFormat_outOfBounds _).bind fun _ => ?_
      refine (refuses_count _).bind fun patches => ?_
      refine (Refuses.word isFormat_outOfBounds _).bind fun secondMode => ?_
      refine (refuses_readDword.times _).bind fun dwords => Refuses.left.bind fun left => ?_
      exact (refuses_readWhileLeft refuses_readGroup left).bind fun _ => .pure _
  | rvaTokenSize =>
      refine (refuses_readDword.times _).bind fun dwords => Refuses.left.bind fun left => ?_
      exact (refuses_readWhileLeft refuses_readWrite left).bind fun _ => .pure _
  | rvaIndexSize =>
      refine (refuses_readDword.times _).bind fun dwords => ?_
      refine (Refuses.word isFormat_outOfBounds _).bind fun methods => Refuses.left.bind ?_
      exact fun left => (refuses_readWhileLeft refuses_readMethod left).bind fun _ => .pure _

theorem records_error {format : Format} {stream : Bytes} {error : Error}
    (refused : records format stream = .error error) : error.IsFormat :=
  (refuses_readRecords format).decode refused

/-- Whatever the stream is, detection fails for the form of the data only. -/
theorem detect_error {stream : Bytes} {hints : Hints} {error : Error}
    (refused : detect stream hints = .error error) : error.IsFormat := by
  rcases Except.bind_eq_error.mp refused with refused | ⟨⟨count, mode⟩, -, refused⟩
  · have header : Refuses readHeader Error.IsFormat :=
      (Refuses.word isFormat_outOfBounds _).bind fun _ =>
        (Refuses.word isFormat_outOfBounds _).bind fun _ => .pure _
    exact header.decode refused
  · dsimp only at refused
    split at refused
    · cases refused
    · cases refused
      exact .inr (.inl rfl)

end MethodStream

/-! ## Patching -/

theorem Addressing.resolve_error {addressing : Addressing} {image : Image} {address : UInt32}
    {length targetLength : Nat} {error : Error}
    (refused : addressing.resolve image address length targetLength = .error error) :
    error = .outOfBounds := by
  unfold resolve at refused
  split at refused
  · split at refused
    · cases refused
    · exact (Except.error.inj refused).symm
  · exact (Except.error.inj refused).symm

theorem PatchTable.apply_error {table : PatchTable} {image : Image} {addressing : Addressing}
    {target : Bytes} {error : Error}
    (refused : table.apply image addressing target = .error error) : error = .outOfBounds := by
  rw [apply_eq] at refused
  rcases Except.bind_eq_error.mp refused with refused | ⟨writes, -, refused⟩
  · obtain ⟨patch, -, refused⟩ := Except.mapM_eq_error refused
    unfold resolve at refused
    split at refused
    · exact (Except.error.inj refused).symm
    · rcases Except.bind_eq_error.mp refused with refused | ⟨start, -, refused⟩
      · exact Addressing.resolve_error refused
      · cases refused
  · cases refused

/-! ## Applying -/

namespace PatchEngine

open MethodStream (Record)

variable {image : Image} {target : Bytes} {error : Error}

private theorem resolveWrites_error {direct : Addressing} {targetLength : Nat}
    {records : List Record}
    (refused : resolveWrites image direct targetLength records = .error error) :
    error.IsFormat := by
  rcases Except.bind_eq_error.mp refused with refused | ⟨writes, -, refused⟩
  · obtain ⟨record, -, refused⟩ := Except.mapM_eq_error refused
    cases record with
    | method codeAddress methodIndex code => cases refused
    | dword address value =>
        rcases Except.bind_eq_error.mp refused with refused | ⟨start, -, refused⟩
        · exact Addressing.resolve_error refused ▸ isFormat_outOfBounds
        · cases refused
    | write address data =>
        rcases Except.bind_eq_error.mp refused with refused | ⟨start, -, refused⟩
        · exact Addressing.resolve_error refused ▸ isFormat_outOfBounds
        · cases refused
  · cases refused

theorem prepare_error {hints : MethodStream.Hints} {stream : Bytes} {targetLength : Nat}
    (refused : prepare hints stream image targetLength = .error error) : error.IsFormat := by
  rcases Except.bind_eq_error.mp refused with refused | ⟨format, -, refused⟩
  · exact MethodStream.detect_error refused
  · rcases Except.bind_eq_error.mp refused with refused | ⟨records, -, refused⟩
    · exact MethodStream.records_error refused
    · rcases Except.bind_eq_error.mp refused with refused | ⟨writes, -, refused⟩
      · exact resolveWrites_error refused
      · cases refused

private theorem patchedBody_error {row : MethodRow}
    (refused : patchedBody image target row = .error error) : error.IsFormat := by
  unfold patchedBody at refused
  split at refused
  · exact (Except.error.inj refused) ▸ isFormat_outOfBounds
  · split at refused
    · exact (Except.error.inj refused) ▸ isFormat_outOfBounds
    · rcases Method.Body.parse_error refused with rfl | ⟨fault, rfl⟩
      · exact isFormat_outOfBounds
      · exact .inl rfl

private theorem withCode_error {token : Token} {address : UInt32} {prior : Method.Body}
    {code : Bytes} (refused : RecoveredMethod.withCode token address prior code = .error error) :
    error.IsFormat := by
  unfold RecoveredMethod.withCode at refused
  split at refused
  · exact (Except.error.inj refused) ▸ .inl rfl
  · cases refused

theorem recoverMethod_error {row : MethodRow} {methodIndex : UInt32} {code : Bytes}
    (refused : recoverMethod image target row methodIndex code = .error error) :
    error.IsFormat := by
  rcases Except.bind_eq_error.mp refused with refused | ⟨prior, -, refused⟩
  · exact patchedBody_error refused
  · exact withCode_error refused

/-- No method stream can make the engine fail in another way. -/
theorem apply_error {engine : PatchEngine} {stream : Bytes}
    (refused : (engine.apply stream image target).result = .error error) : error.IsFormat := by
  cases prepared : prepare engine.hints stream image target.length with
  | error error' =>
      rw [apply, prepared] at refused
      cases refused
      exact prepare_error prepared
  | ok plan =>
      obtain ⟨format, records, writes⟩ := plan
      rw [apply, prepared] at refused
      dsimp only at refused
      split at refused
      · cases refused
      · rename_i error' seen failed
        cases refused
        obtain ⟨row, methodIndex, code, refused⟩ := forM_collect_error failed
        exact recoverMethod_error refused

end PatchEngine

end CilRecovery
