import CilRecovery.Proofs.Except
import CilRecovery.Proofs.Method.Recoding
import CilRecovery.Proofs.MethodStream.Sizes
import CilRecovery.Proofs.Oracle.Calls
import CilRecovery.Proofs.PatchEngine.Remapping

/-!
# Recovered methods can be written

Every method of a table that a recovery returns can be written and is read back as it is, whether
the table came from a method stream or from a helper.
-/

set_option autoImplicit false

namespace CilRecovery

/-! ## Tables -/

def MethodTable.AllWritable (table : MethodTable) : Prop :=
  ∀ method ∈ table.values, method.body.Writable

namespace MethodTable.AllWritable

theorem empty : MethodTable.AllWritable .empty := fun _ member => nomatch member

theorem add {table : MethodTable} {method : RecoveredMethod} (hold : table.AllWritable)
    (writable : method.body.Writable) : (table.add method).AllWritable := by
  intro held member
  obtain ⟨entry, placed, rfl⟩ := List.mem_map.mp member
  rcases WordMap.mem_place placed with rfl | earlier
  · exact writable
  · exact hold entry.2 (List.mem_map_of_mem earlier)

theorem foldl_add {table : MethodTable} {methods : List RecoveredMethod}
    (hold : table.AllWritable) (writable : ∀ method ∈ methods, method.body.Writable) :
    MethodTable.AllWritable (methods.foldl MethodTable.add table) := by
  induction methods generalizing table with
  | nil => exact hold
  | cons first rest ih =>
      rw [List.forall_mem_cons] at writable
      exact ih (hold.add writable.1) writable.2

end MethodTable.AllWritable

/-! ## Method streams -/

namespace PatchEngine

open MethodStream (Record countLimit)

variable {index : AddressIndex} {image : Image} {target : Bytes}

/-- Recovery replaces the code and resizes the header, and nothing else. -/
theorem body_of_withCode {token : Token} {address : UInt32} {prior : Method.Body} {code : Bytes}
    {method : RecoveredMethod}
    (built : RecoveredMethod.withCode token address prior code = .ok method) :
    method.body = prior.recoded code := by
  obtain ⟨short, rfl⟩ := withCode_eq_ok_iff.mp built
  rw [Method.Body.recoded, Method.Header.resized, UInt32.toNat_ofNat_of_lt' short]

theorem length_managedCode_le {methodIndex : UInt32} {code : Bytes}
    (sized : code.length < countLimit) :
    (managedCode methodIndex code).length ≤ Method.Header.fatMaxCode := by
  have limit : countLimit = Method.Header.fatMaxCode + 1 := rfl
  unfold managedCode
  split
  · cases NativeStub.classify code with
    | returnConstant value => simp [NativeStub.managedCode, Method.Header.fatMaxCode]
    | returnZero => decide
    | opaqueCode => decide
  · omega

/-- Whatever record lies at the address of the method, and whatever the sizes of its old and its
new code, the recovered method can be written. -/
theorem writable_of_recover {row : MethodRow} {methodIndex : UInt32} {code : Bytes}
    {method : RecoveredMethod} (sized : code.length < countLimit)
    (recovered : recoverMethod image target row methodIndex code = .ok method) :
    method.body.Writable := by
  obtain ⟨prior, found, built⟩ := recoverMethod_eq_ok_iff.mp recovered
  obtain ⟨start, _, _, parsed⟩ := patchedBody_eq_ok_iff.mp found
  rw [body_of_withCode built]
  exact Method.Body.recoded_writable parsed (length_managedCode_le sized)

/-- One record adds at most one body. A size that a stream can hold keeps its code below what a fat
header describes. -/
theorem Collects.allWritable {record : Record} {seen final : Collection}
    (collects : Collects index image target record seen final) (sized : record.Sized)
    (hold : seen.methods.AllWritable) : final.methods.AllWritable := by
  cases collects with
  | dword => exact hold
  | write => exact hold
  | miss _ => exact hold
  | hit _ recovered => exact hold.add (writable_of_recover sized recovered)

theorem CollectsAll.allWritable {records : List Record} {seen final : Collection}
    (chain : CollectsAll index image target records seen final)
    (sized : ∀ record ∈ records, record.Sized) (hold : seen.methods.AllWritable) :
    final.methods.AllWritable := by
  induction chain with
  | nil => exact hold
  | cons first _ ih =>
      rw [List.forall_mem_cons] at sized
      exact ih sized.2 (first.allWritable sized.1 hold)

/-- The size bound on the code comes from the stream itself, so nothing is assumed about it. -/
theorem allWritable_of_apply {engine : PatchEngine} {stream : Bytes} {outcome : Outcome}
    (accepted : (engine.apply stream image target).result = .ok outcome) :
    outcome.methods.AllWritable := by
  obtain ⟨records, writes, _, prepared, -, -⟩ := collectsAll_of_apply accepted
  obtain ⟨plans, rfl⟩ := prepare_eq_ok_iff.mp prepared
  obtain ⟨seen, chain, same⟩ := outcome_of_apply prepared accepted
  rw [same]
  exact chain.allWritable (MethodStream.records_sized plans.read) .empty

end PatchEngine

/-! ## Helpers -/

namespace Oracle

variable {state : Type}

/-- A helper is not trusted: what it sent has been parsed, and what is parsed can be written. -/
theorem CapturedMethod.writable_of_check {captured : CapturedMethod} {method : RecoveredMethod}
    (checked : captured.check = .ok method) : method.body.Writable := by
  obtain ⟨_, body, parsed, rfl⟩ := CapturedMethod.check_eq_ok_iff.mp checked
  exact Method.Body.writable_of_parse parsed

namespace Session

/-- Methods are harvested from one kind of response only, of which each one was checked. -/
theorem harvested_eq_ok {host : Channel state} {response : Response} {before after : Session state}
    {table : MethodTable} (succeeded : harvested host response before = .ok table after) :
    ∃ captured methods, response = .decryptedMethods captured ∧
      captured.mapM CapturedMethod.check = .ok methods ∧
      table = methods.foldl MethodTable.add .empty := by
  cases response with
  | decryptedMethods captured =>
      cases checked : captured.mapM CapturedMethod.check with
      | ok methods =>
          rw [harvested_checked _ checked] at succeeded
          cases succeeded
          exact ⟨captured, methods, rfl, checked, rfl⟩
      | error error =>
          rw [harvested_refused checked] at succeeded
          cases succeeded
  | ready runtime => cases succeeded
  | ack => cases succeeded
  | failed message => cases succeeded

/-- Whatever the channel does, a table that comes out of a session can be written. -/
theorem allWritable_of_decryptMethods {host : Channel state} {before after : Session state}
    {table : MethodTable} (succeeded : decryptMethods host before = .ok table after) :
    table.AllWritable := by
  rw [decryptMethods_eq] at succeeded
  obtain ⟨response, middle, _, harvest⟩ := EState.bind_eq_ok.mp succeeded
  obtain ⟨captured, methods, rfl, checked, rfl⟩ := harvested_eq_ok harvest
  refine MethodTable.AllWritable.empty.foldl_add fun method member => ?_
  obtain ⟨observed, _, valid⟩ := Except.exists_of_mem_mapM checked member
  exact CapturedMethod.writable_of_check valid

end Session

end Oracle

/-! ## Recoveries -/

/-- Whatever a recovery hands to the writer can be written: the header of each method has the size
of its code, the body is encoded, and what was encoded is parsed back as the same body. -/
theorem MethodTable.allWritable_of_recovered {state : Type} (host : Oracle.Channel state) :
    (∀ (engine : PatchEngine) (stream : Bytes) (image : Image) (target : Bytes)
        (outcome : PatchEngine.Outcome),
      (engine.apply stream image target).result = .ok outcome → outcome.methods.AllWritable) ∧
    (∀ (before after : Oracle.Session state) (table : MethodTable),
      Oracle.Session.decryptMethods host before = .ok table after → table.AllWritable) :=
  ⟨fun _ _ _ _ _ => PatchEngine.allWritable_of_apply,
    fun _ _ _ => Oracle.Session.allWritable_of_decryptMethods⟩

/-- A method with a tiny header at address 1, and one with a fat header and a section whose record
starts at address 4. -/
private def recodedImage : Image where
  data := [0x00, 0x0A, 0x17, 0x2A,
    0x1B, 0x30, 1, 0, 1, 0, 0, 0, 0, 0, 0, 0, 0x2A, 7, 8, 9, 0x01, 4, 0, 0]
  sections := []
  methodAddresses := [1, 4]
  resources := []
  generation := 0

/-- Code that is too long for a tiny header, and code that shortens the gap before a section. -/
private def recodedStream : Bytes :=
  MethodStream.mask 0
    (MethodStream.encodeMethods 0 []
      [⟨2, 0, List.replicate 64 0x00⟩, ⟨16, 0, [0x17, 0x26, 0x2A]⟩])

private abbrev recodedRun : PatchEngine.Application :=
  (PatchEngine.ofHints ⟨true, false, 0⟩).apply recodedStream recodedImage recodedImage.data

/-- A session whose helper observed one method, with a byte behind its record. -/
private def observedSession : Oracle.Session Oracle.Channel.Script where
  config := .default
  channel := ⟨[.ok (.decryptedMethods [⟨0x06000001, 1, [0x0A, 0x17, 0x2A, 0xCC]⟩])], []⟩
  attached := true
  phase := .ready
  next := .decryptMethods
  runtime := some .clr40

theorem MethodTable.allWritable_of_recovered_recoded :
    (∃ outcome, recodedRun.result = .ok outcome ∧
      outcome.methods.values.map RecoveredMethod.body =
        [⟨⟨0x3003, 8, 64, 0⟩, List.replicate 64 0x00, none⟩,
          ⟨⟨0x301B, 1, 3, 0⟩, [0x17, 0x26, 0x2A], some [0x01, 4, 0, 0]⟩] ∧
      outcome.methods.AllWritable) ∧
    ∃ table after, Oracle.Session.decryptMethods Oracle.Channel.scripted observedSession =
        .ok table after ∧
      table.values.map RecoveredMethod.body = [⟨⟨2, 8, 2, 0⟩, [0x17, 0x2A], none⟩] ∧
      table.AllWritable := by
  obtain ⟨streams, helpers⟩ := MethodTable.allWritable_of_recovered Oracle.Channel.scripted
  constructor
  · have accepted : recodedRun.result.toOption.map (fun outcome =>
        outcome.methods.values.map RecoveredMethod.body) =
        some [⟨⟨0x3003, 8, 64, 0⟩, List.replicate 64 0x00, none⟩,
          ⟨⟨0x301B, 1, 3, 0⟩, [0x17, 0x26, 0x2A], some [0x01, 4, 0, 0]⟩] := by decide +kernel
    cases result : recodedRun.result with
    | error error =>
        rw [result] at accepted
        cases accepted
    | ok outcome =>
        rw [result] at accepted
        exact ⟨outcome, rfl, Option.some.inj accepted, streams _ _ _ _ outcome result⟩
  · have decrypted : Oracle.Session.decryptMethods Oracle.Channel.scripted observedSession =
        .ok (MethodTable.add .empty ⟨⟨0x06000001⟩, 1, ⟨⟨2, 8, 2, 0⟩, [0x17, 0x2A], none⟩⟩)
          { observedSession with channel := ⟨[], []⟩, next := .finished } := by
      rfl
    exact ⟨_, _, decrypted, rfl, helpers _ _ _ decrypted⟩

end CilRecovery
