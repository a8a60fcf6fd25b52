import CilRecovery.Proofs.PatchEngine.KeptCode
import CilRecovery.Proofs.WordMap

/-!
# Rejected streams

A stream that is rejected for one of its methods was run through up to that method. The native code
that it kept on the way stays in the engine, where no other stream takes notice of it.
-/

set_option autoImplicit false

namespace CilRecovery

theorem OpaqueTable.eq_iff_get? {left right : OpaqueTable} :
    left = right ↔ ∀ token, left.get? token = right.get? token :=
  ⟨fun same _ => same ▸ rfl, fun same => WordMap.ext_find? fun key => same ⟨key⟩⟩

namespace PatchEngine

open MethodStream (Record)

variable {index : AddressIndex} {engine : PatchEngine} {image : Image} {stream target : Bytes}
  {error : Error}

/-! ## The two ways to reject a stream -/

/-- A stream is rejected before any of its methods is looked at, or for a method whose body cannot
be recovered. The history lists the method records that were resolved until then, that of the
failing method included. -/
inductive Rejection (engine : PatchEngine) (stream : Bytes) (image : Image) (target : Bytes)
    (error : Error) : List Resolved → Prop
  | unprepared (failed : prepare engine.hints stream image target.length = .error error) :
      Rejection engine stream image target error []
  | unrecovered {format : MethodStream.Format} {earlier later : List Record} {failing : Record}
      {writes : List Overwrite} {middle left : Collection}
      (prepared : prepare engine.hints stream image target.length =
        .ok (format, earlier ++ failing :: later, writes))
      (chain : CollectsAll (engine.index image) image (Overwrite.applyAll writes target) earlier
        ⟨engine.kept, .empty, []⟩ middle)
      (fails : Fails (engine.index image) image (Overwrite.applyAll writes target) error failing
        middle left) :
      Rejection engine stream image target error
        (resolvedEntries (engine.index image) (earlier ++ [failing]))

theorem Rejection.apply_eq {history : List Resolved}
    (rejection : Rejection engine stream image target error history) :
    (engine.apply stream image target).result = .error error ∧
      (engine.apply stream image target).engine.kept = history.foldl keepEntry engine.kept := by
  cases rejection with
  | unprepared failed =>
      rw [apply_unprepared failed]
      exact ⟨rfl, rfl⟩
  | unrecovered prepared chain fails =>
      rw [apply_of_fails prepared chain fails]
      exact ⟨rfl, chain.kept_of_fails fails⟩

/-- Every failing application is a rejection with some history. -/
theorem rejection_of_apply
    (rejected : (engine.apply stream image target).result = .error error) :
    ∃ history, Rejection engine stream image target error history := by
  cases prepared : prepare engine.hints stream image target.length with
  | error error' =>
      rw [apply_unprepared prepared] at rejected
      cases rejected
      exact ⟨[], .unprepared prepared⟩
  | ok plan =>
      obtain ⟨format, records, writes⟩ := plan
      cases looped : records.forM
          (collect (engine.index image) image (Overwrite.applyAll writes target))
          ⟨engine.kept, .empty, []⟩ with
      | ok _ seen =>
          rw [apply_of_collectsAll prepared (forM_collect_eq_ok_iff.mp looped)] at rejected
          cases rejected
      | error error' left =>
          obtain ⟨earlier, failing, later, middle, rfl, chain, fails⟩ :=
            forM_collect_eq_error_iff.mp looped
          rw [apply_of_fails prepared chain fails] at rejected
          cases rejected
          exact ⟨_, .unrecovered prepared chain fails⟩

/-! ## The next stream -/

/-- What is kept does not decide how a stream is collected. -/
theorem CollectsAll.with_kept {records : List Record} {seen final : Collection}
    (chain : CollectsAll index image target records seen final) (table : OpaqueTable) :
    ∃ table', CollectsAll index image target records { seen with kept := table }
      { final with kept := table' } := by
  induction chain generalizing table with
  | nil => exact ⟨table, .nil⟩
  | cons first others ih =>
      cases first with
      | dword => exact (ih table).imp fun _ => .cons .dword
      | write => exact (ih table).imp fun _ => .cons .write
      | miss unowned => exact (ih table).imp fun _ => .cons (.miss unowned)
      | hit owned recovered => exact (ih _).imp fun _ => .cons (.hit owned recovered)

theorem Fails.with_kept {record : Record} {seen left : Collection}
    (fails : Fails index image target error record seen left) (table : OpaqueTable) :
    ∃ left', Fails index image target error record { seen with kept := table } left' := by
  cases fails with
  | method owned refused => exact ⟨_, .method owned refused⟩

/-- What a stream comes to is settled by the hints and the index alone. Which code is kept has no
influence on it. -/
theorem apply_congr {other : PatchEngine} (hints : other.hints = engine.hints)
    (sameIndex : other.index image = engine.index image) :
    (other.apply stream image target).result = (engine.apply stream image target).result ∧
      (other.apply stream image target).target = (engine.apply stream image target).target := by
  cases result : (engine.apply stream image target).result with
  | error error =>
      obtain ⟨history, rejection⟩ := rejection_of_apply result
      cases rejection with
      | unprepared failed =>
          have failed' : prepare other.hints stream image target.length = .error error :=
            hints ▸ failed
          rw [apply_unprepared failed, apply_unprepared failed']
          exact ⟨rfl, rfl⟩
      | unrecovered prepared chain fails =>
          rw [apply_target prepared]
          rw [← hints] at prepared
          rw [← sameIndex] at chain fails
          obtain ⟨table, chain⟩ := chain.with_kept other.kept
          obtain ⟨_, fails⟩ := fails.with_kept table
          rw [apply_of_fails prepared chain fails]
          exact ⟨rfl, rfl⟩
  | ok outcome =>
      obtain ⟨records, writes, _, prepared, -, -⟩ := collectsAll_of_apply result
      obtain ⟨seen, chain, same⟩ := outcome_of_apply prepared result
      rw [apply_target prepared]
      rw [← hints] at prepared
      rw [← sameIndex] at chain
      obtain ⟨table, chain⟩ := chain.with_kept other.kept
      rw [apply_of_collectsAll prepared chain]
      exact ⟨congrArg Except.ok same.symm, rfl⟩

/-! ## What a rejected stream leaves -/

/-- A stream that is rejected before any of its methods is looked at leaves the kept code as it
was. One that is rejected for a method has kept the opaque code of the records up to that method,
so it leaves no trace exactly if the engine held all of that code before. The next stream for the
same image comes to the same in either case. -/
theorem kept_apply_of_rejected
    (rejected : (engine.apply stream image target).result = .error error) :
    ∃ history, Rejection engine stream image target error history ∧
      (∀ token, (engine.apply stream image target).engine.kept.get? token =
        ((latestKept? history token).map Resolved.code).or (engine.kept.get? token)) ∧
      ((engine.apply stream image target).engine.kept = engine.kept ↔
        ∀ token latest, latestKept? history token = some latest →
          engine.kept.get? token = some latest.code) ∧
      ∀ next copy,
        ((engine.apply stream image target).engine.apply next image copy).result =
            (engine.apply next image copy).result ∧
          ((engine.apply stream image target).engine.apply next image copy).target =
            (engine.apply next image copy).target := by
  obtain ⟨history, rejection⟩ := rejection_of_apply rejected
  have kept : ∀ token, (engine.apply stream image target).engine.kept.get? token =
      ((latestKept? history token).map Resolved.code).or (engine.kept.get? token) := by
    intro token
    rw [rejection.apply_eq.2, get?_foldl_keepEntry]
  refine ⟨history, rejection, kept, ?_, fun next copy =>
    apply_congr (hints_apply engine stream image target)
      (index_apply engine stream image target)⟩
  rw [OpaqueTable.eq_iff_get?]
  refine forall_congr' fun token => ?_
  rw [kept token]
  cases latestKept? history token with
  | none => simp
  | some latest => simp [eq_comm]

/-- Two methods, at addresses 1 and 3. The header of the second one is the last byte of the file and
promises two bytes of code. -/
private def truncatedImage : Image := ⟨[0x00, 0x06, 0x2A, 0x0A], [], [1, 3], [], 0⟩

/-- Native code for the first method that has to be kept, then managed code for the second. -/
private def truncatedStream : Bytes :=
  MethodStream.encodeMethods 0 [] [⟨2, nativeIndexBase, [0x90, 0xC3]⟩, ⟨4, 0, [0x2A]⟩]

private def truncatedEngine : PatchEngine := ofHints ⟨true, false, 0⟩

theorem kept_apply_of_rejected_truncated :
    (truncatedEngine.apply truncatedStream truncatedImage truncatedImage.data).result =
        .error .outOfBounds ∧
      ∃ history, Rejection truncatedEngine truncatedStream truncatedImage truncatedImage.data
          .outOfBounds history ∧
        (latestKept? history ⟨0x06000001⟩).map Resolved.code = some [0x90, 0xC3] := by
  have rejected : (truncatedEngine.apply truncatedStream truncatedImage
      truncatedImage.data).result = .error .outOfBounds := rfl
  obtain ⟨history, rejection, kept, -⟩ := kept_apply_of_rejected rejected
  have code := kept ⟨0x06000001⟩
  rw [show truncatedEngine.kept.get? ⟨0x06000001⟩ = none from rfl, Option.or_none] at code
  exact ⟨rejected, history, rejection, code.symm⟩

/-- The stream is rejected, and the engine that held nothing holds code of its first method. -/
theorem kept_by_rejected_stream :
    (truncatedEngine.apply truncatedStream truncatedImage truncatedImage.data).result =
        .error .outOfBounds ∧
      truncatedEngine.kept.get? ⟨0x06000001⟩ = none ∧
      (truncatedEngine.apply truncatedStream truncatedImage truncatedImage.data).engine.kept.get?
        ⟨0x06000001⟩ = some [0x90, 0xC3] :=
  ⟨rfl, rfl, rfl⟩

end PatchEngine

end CilRecovery
