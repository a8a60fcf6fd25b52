import CilRecovery.Proofs.Patch
import CilRecovery.Proofs.PatchEngine.Collection

/-!
# The writes of a method stream

Either every write of a stream is carried out, or none is. They all are as soon as the stream
reads as a layout and each write lies inside the target, whatever becomes of the methods.
-/

set_option autoImplicit false

namespace CilRecovery

def MethodStream.Record.isDword : Record → Bool
  | .dword _ _ => true
  | _ => false

def MethodStream.Record.isWrite : Record → Bool
  | .dword _ _ | .write _ _ => true
  | .method _ _ _ => false

namespace PatchEngine

open MethodStream (Hints Format Record)

variable {hints : Hints} {image : Image} {stream target : Bytes}

/-! ## Records that write -/

def directAddressing (hints : Hints) : Addressing :=
  if hints.fileOffsets then .fileOffset else .virtualAddress

def writeOf? (direct : Addressing) (image : Image) : Record → Option Overwrite
  | .dword address value => Addressing.virtualAddress.place? image address (bytesOfUInt32 value)
  | .write address data => direct.place? image address data
  | .method _ _ _ => none

/-- A record has its write, if it asks for one, inside a target. -/
def Lands (direct : Addressing) (image : Image) (targetLength : Nat) (record : Record) : Prop :=
  record.isWrite → ∃ write, writeOf? direct image record = some write ∧ write.FitsIn targetLength

theorem lands_iff_of_isWrite {direct : Addressing} {targetLength : Nat} {record : Record}
    (writes : record.isWrite) :
    Lands direct image targetLength record ↔
      ∃ write, writeOf? direct image record = some write ∧ write.FitsIn targetLength :=
  forall_prop_of_true writes

theorem resolve_place_eq_ok_iff {addressing : Addressing} {address : UInt32} (bytes : Bytes)
    {targetLength : Nat} {write? : Option Overwrite} :
    (addressing.resolve image address bytes.length targetLength >>= fun start =>
        (pure (some ⟨start, bytes⟩) : Except Error (Option Overwrite))) = .ok write? ↔
      (∃ write, addressing.place? image address bytes = some write ∧
        write.FitsIn targetLength) ∧ addressing.place? image address bytes = write? := by
  simp only [Except.bind_eq_ok, Addressing.resolve_eq_ok_iff]
  constructor
  · rintro ⟨start, ⟨located, fits⟩, same⟩
    cases same
    rw [Addressing.place?, located]
    exact ⟨⟨_, rfl, fits⟩, rfl⟩
  · rintro ⟨⟨write, placed, fits⟩, rfl⟩
    obtain ⟨start, located, rfl⟩ := Option.map_eq_some_iff.mp placed
    exact ⟨start, ⟨located, fits⟩, congrArg Except.ok placed.symm⟩

/-- Resolution refuses a record for its place alone. -/
theorem resolveWrite?_eq_ok_iff {direct : Addressing} {targetLength : Nat} {record : Record}
    {write? : Option Overwrite} :
    resolveWrite? image direct targetLength record = .ok write? ↔
      Lands direct image targetLength record ∧ writeOf? direct image record = write? := by
  cases record with
  | dword address value =>
      rw [lands_iff_of_isWrite rfl]
      exact resolve_place_eq_ok_iff (bytesOfUInt32 value)
  | write address data =>
      rw [lands_iff_of_isWrite rfl]
      exact resolve_place_eq_ok_iff data
  | method codeAddress methodIndex code =>
      exact ⟨fun resolved => ⟨nofun, Except.ok.inj resolved⟩,
        fun ⟨_, same⟩ => congrArg Except.ok same⟩

/-- All writes can be resolved exactly if all of them land. -/
theorem resolveWrites_eq_ok_iff {direct : Addressing} {targetLength : Nat}
    {records : List Record} {writes : List Overwrite} :
    resolveWrites image direct targetLength records = .ok writes ↔
      (∀ record ∈ records, Lands direct image targetLength record) ∧
        records.filterMap (writeOf? direct image) = writes := by
  have resolved : ∀ found : List (Option Overwrite),
      records.mapM (resolveWrite? image direct targetLength) = .ok found ↔
        (∀ record ∈ records, Lands direct image targetLength record) ∧
          records.map (writeOf? direct image) = found := by
    intro found
    simp only [Except.mapM_eq_ok, resolveWrite?_eq_ok_iff, List.forall₂_and_left]
    rw [← List.forall₂_map_left_iff, List.forall₂_eq_eq_eq]
  simp only [resolveWrites, Except.bind_eq_ok, resolved]
  constructor
  · rintro ⟨found, ⟨land, rfl⟩, same⟩
    cases same
    exact ⟨land, by rw [List.filterMap_map]; rfl⟩
  · rintro ⟨land, rfl⟩
    exact ⟨_, ⟨land, rfl⟩, by rw [List.filterMap_map]; rfl⟩

/-! ## Streams -/

/-- A masked stream reads as a layout with records whose writes all land in a target. -/
structure Plans (hints : Hints) (stream : Bytes) (image : Image) (targetLength : Nat)
    (format : Format) (records : List Record) : Prop where
  detected : MethodStream.detect (MethodStream.mask hints.maskKey stream) hints = .ok format
  read : MethodStream.records format (MethodStream.mask hints.maskKey stream) = .ok records
  lands : ∀ record ∈ records, Lands (directAddressing hints) image targetLength record

/-- The second target is the first one after the writes of all records, in order. -/
structure Written (hints : Hints) (image : Image) (records : List Record)
    (before after : Bytes) : Prop where
  length : after.length = before.length
  bytes : ∀ index, after[index]? =
    Overwrite.byte? (records.filterMap (writeOf? (directAddressing hints) image)) before index

/-- A stream is prepared exactly if it reads as a layout and every record lands. -/
theorem prepare_eq_ok_iff {targetLength : Nat} {format : Format} {records : List Record}
    {writes : List Overwrite} :
    prepare hints stream image targetLength = .ok (format, records, writes) ↔
      Plans hints stream image targetLength format records ∧
        records.filterMap (writeOf? (directAddressing hints) image) = writes := by
  constructor
  · intro prepared
    obtain ⟨suggested, detected, prepared⟩ := Except.bind_eq_ok.mp prepared
    obtain ⟨stored, read, prepared⟩ := Except.bind_eq_ok.mp prepared
    obtain ⟨resolved, found, prepared⟩ := Except.bind_eq_ok.mp prepared
    cases prepared
    obtain ⟨land, same⟩ := resolveWrites_eq_ok_iff.mp found
    exact ⟨⟨detected, read, land⟩, same⟩
  · rintro ⟨⟨detected, read, land⟩, same⟩
    exact Except.bind_eq_ok.mpr ⟨format, detected, Except.bind_eq_ok.mpr ⟨records, read,
      Except.bind_eq_ok.mpr ⟨writes, resolveWrites_eq_ok_iff.mpr ⟨land, same⟩, rfl⟩⟩⟩

variable {format : Format} {records : List Record}

theorem Plans.fit {targetLength : Nat}
    (plans : Plans hints stream image targetLength format records) :
    ∀ write ∈ records.filterMap (writeOf? (directAddressing hints) image),
      write.FitsIn targetLength := by
  intro write member
  obtain ⟨record, stored, found⟩ := List.mem_filterMap.mp member
  have writes : record.isWrite := by
    cases record with
    | method codeAddress methodIndex code => cases found
    | _ => rfl
  obtain ⟨other, found', fits⟩ := plans.lands record stored writes
  rw [found] at found'
  cases found'
  exact fits

theorem Plans.length_writes {targetLength : Nat}
    (plans : Plans hints stream image targetLength format records) :
    (records.filterMap (writeOf? (directAddressing hints) image)).length =
      records.countP Record.isWrite := by
  rw [List.length_filterMap_eq_countP]
  refine List.countP_congr fun record member => ?_
  constructor
  · intro found
    cases record with
    | method codeAddress methodIndex code => cases found
    | _ => rfl
  · intro writes
    obtain ⟨write, found, -⟩ := plans.lands record member writes
    rw [found]
    rfl

/-- Carrying out the writes of a plan relates the target before them to the one after. -/
theorem Plans.written (plans : Plans hints stream image target.length format records) :
    Written hints image records target
      (Overwrite.applyAll (records.filterMap (writeOf? (directAddressing hints) image)) target) :=
  ⟨Overwrite.length_applyAll plans.fit, Overwrite.getElem?_applyAll plans.fit⟩

/-- Whatever becomes of the methods, the copy is that after all writes. -/
theorem apply_target {engine : PatchEngine} {writes : List Overwrite}
    (prepared : prepare engine.hints stream image target.length = .ok (format, records, writes)) :
    (engine.apply stream image target).target = Overwrite.applyAll writes target := by
  rw [apply, prepared]
  dsimp only
  split <;> rfl

/-- A stream that cannot be prepared leaves the copy and the engine alone. -/
theorem apply_unprepared {engine : PatchEngine} {error : Error}
    (failed : prepare engine.hints stream image target.length = .error error) :
    engine.apply stream image target = ⟨.error error, target, engine⟩ := by
  rw [apply, failed]

/-- The writes of a stream are carried out all together or not at all: all of them as soon as each
has its place in the target, and none otherwise. -/
theorem apply_writes_all_or_none (engine : PatchEngine) (stream : Bytes) (image : Image)
    (target : Bytes) :
    let applied := engine.apply stream image target
    applied.target.length = target.length ∧
      (applied.target = target ∨
        ∃ format records, Plans engine.hints stream image target.length format records ∧
          Written engine.hints image records target applied.target) ∧
      (∀ outcome, applied.result = .ok outcome →
        ∃ records, Plans engine.hints stream image target.length outcome.format records ∧
          Written engine.hints image records target applied.target ∧
          outcome.writes = records.countP Record.isWrite) ∧
      (∀ format records, Plans engine.hints stream image target.length format records →
        Written engine.hints image records target applied.target) ∧
      ((¬ ∃ format records, Plans engine.hints stream image target.length format records) →
        applied.target = target ∧ ∃ error, applied.result = .error error) := by
  intro applied
  cases prepared : prepare engine.hints stream image target.length with
  | error error =>
      have failed : applied = ⟨.error error, target, engine⟩ := apply_unprepared prepared
      rw [failed]
      refine ⟨rfl, .inl rfl, nofun, fun format records plans => ?_, fun _ => ⟨rfl, error, rfl⟩⟩
      exact absurd (prepared.symm.trans (prepare_eq_ok_iff.mpr ⟨plans, rfl⟩)) nofun
  | ok plan =>
      obtain ⟨format, records, writes⟩ := plan
      obtain ⟨plans, rfl⟩ := prepare_eq_ok_iff.mp prepared
      have written {format : Format} {records : List Record}
          (plans : Plans engine.hints stream image target.length format records) :
          Written engine.hints image records target applied.target :=
        apply_target (prepare_eq_ok_iff.mpr ⟨plans, rfl⟩) ▸ plans.written
      refine ⟨(written plans).length, .inr ⟨format, records, plans, written plans⟩, ?_,
        fun _ _ => written, fun none => absurd ⟨format, records, plans⟩ none⟩
      intro outcome accepted
      obtain ⟨seen, -, rfl⟩ := outcome_of_apply prepared accepted
      exact ⟨records, plans, written plans, plans.length_writes⟩

end PatchEngine

end CilRecovery
