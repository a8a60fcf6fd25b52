import CilRecovery.Proofs.PatchEngine.Writes

/-!
# The native code that an engine keeps

Over any number of streams for one image, the engine holds for each method the code of the last
record that had to be kept. A later record with other code leaves that entry in place.
-/

set_option autoImplicit false

namespace CilRecovery

theorem OpaqueTable.get?_keep (table : OpaqueTable) (token other : Token) (code : Bytes) :
    (table.keep token code).get? other = if token = other then some code else table.get? other := by
  cases token
  cases other
  simp [OpaqueTable.get?, OpaqueTable.keep]

namespace PatchEngine

open MethodStream (Hints Record)

/-! ## Histories -/

def latest? (history : List Resolved) (token : Token) : Option Resolved :=
  history.reverse.find? fun entry => entry.token = token

def latestKept? (history : List Resolved) (token : Token) : Option Resolved :=
  history.reverse.find? fun entry => entry.token = token ∧ entry.isKept

theorem get?_foldl_keepEntry (table : OpaqueTable) (entries : List Resolved) (token : Token) :
    (entries.foldl keepEntry table).get? token =
      ((latestKept? entries token).map Resolved.code).or (table.get? token) := by
  induction entries generalizing table with
  | nil => rfl
  | cons entry entries ih =>
      have split : latestKept? (entry :: entries) token =
          (latestKept? entries token).or (latestKept? [entry] token) := by
        simp only [latestKept?, List.reverse_cons, List.find?_append]
        rfl
      have first : (keepEntry table entry).get? token =
          ((latestKept? [entry] token).map Resolved.code).or (table.get? token) := by
        by_cases native : entry.isKept
        · rw [keepEntry, if_pos native, OpaqueTable.get?_keep]
          by_cases same : entry.token = token <;> simp [latestKept?, native, same]
        · rw [keepEntry, if_neg native]
          simp [latestKept?, native]
      rw [List.foldl_cons, ih, split, first]
      cases latestKept? entries token <;> simp

theorem latestKept?_eq_of_latest? {history : List Resolved} {token : Token} {latest : Resolved}
    (last : latest? history token = some latest) (native : latest.isKept) :
    latestKept? history token = some latest := by
  obtain ⟨same, newer, older, split, others⟩ := List.find?_eq_some_iff_append.mp last
  refine List.find?_eq_some_iff_append.mpr ⟨by simpa [native] using same, newer, older, split, ?_⟩
  intro entry member
  have different := others entry member
  simp only [Bool.not_eq_true', decide_eq_false_iff_not] at different ⊢
  exact fun both => different both.1

theorem latestKept?_eq_none_iff {history : List Resolved} {token : Token} :
    latestKept? history token = none ↔
      ∀ entry ∈ history, entry.token = token → ¬ entry.isKept := by
  simp [latestKept?]

/-! ## Runs -/

/-- The method records of a masked stream that the index of an image resolves, in stream order. A
stream that does not read as a layout has none. -/
def streamEntries (hints : Hints) (stream : Bytes) (image : Image) : List Resolved :=
  let plain := MethodStream.mask hints.maskKey stream
  match MethodStream.detect plain hints >>= fun format => MethodStream.records format plain with
  | .ok records => resolvedEntries (AddressIndex.build image) records
  | .error _ => []

/-- Streams for one image that all succeed take a fresh engine to `engine`. The history lists the
method records that were resolved on the way, the oldest one first. -/
inductive Run (hints : Hints) (image : Image) : PatchEngine → List Resolved → Prop
  | fresh : Run hints image (ofHints hints) []
  | apply {engine : PatchEngine} {history : List Resolved} {stream target : Bytes}
      {outcome : Outcome} (run : Run hints image engine history)
      (applied : (engine.apply stream image target).result = .ok outcome) :
      Run hints image (engine.apply stream image target).engine
        (history ++ streamEntries hints stream image)

variable {hints : Hints} {image : Image} {engine : PatchEngine} {history : List Resolved}

theorem Run.hints_eq (run : Run hints image engine history) : engine.hints = hints := by
  induction run with
  | fresh => rfl
  | apply run applied ih => exact (hints_apply _ _ _ _).trans ih

/-- The cached index is that of the image, so asking for it gives the same as building it. -/
theorem Run.index_eq (run : Run hints image engine history) :
    engine.index image = AddressIndex.build image := by
  induction run with
  | fresh => rfl
  | apply run applied ih => exact (index_apply _ _ _ _).trans ih

/-- Detection is a function of the stream and the hints, so the records are those that were
prepared. -/
theorem streamEntries_eq {stream : Bytes} {targetLength : Nat} {format : MethodStream.Format}
    {records : List Record} {writes : List Overwrite}
    (prepared : prepare hints stream image targetLength = .ok (format, records, writes)) :
    streamEntries hints stream image = resolvedEntries (AddressIndex.build image) records := by
  obtain ⟨⟨detected, read, -⟩, -⟩ := prepare_eq_ok_iff.mp prepared
  simp only [streamEntries, detected, read, bind, Except.bind]

/-- The table is a fold over the resolved records of the whole run, in which recovered managed code
leaves no trace. -/
theorem Run.kept_eq (run : Run hints image engine history) :
    engine.kept = history.foldl keepEntry .empty := by
  induction run with
  | fresh => rfl
  | @apply engine history stream target outcome run applied ih =>
      obtain ⟨records, writes, seen, prepared, chain, next⟩ := collectsAll_of_apply applied
      rw [run.hints_eq] at prepared
      rw [List.foldl_append, ← ih, streamEntries_eq prepared, ← run.index_eq, next]
      exact chain.kept

/-- The kept code of a method is that of the last record that had to be kept. It is what the very
last record of the method asks for exactly if that record had to be kept or none ever had. -/
theorem Run.kept_eq_latest_iff (run : Run hints image engine history) (token : Token) :
    engine.kept.get? token = (latestKept? history token).map Resolved.code ∧
      ∀ latest, latest? history token = some latest →
        (engine.kept.get? token = (if latest.isKept then some latest.code else none) ↔
          latest.isKept ∨ ∀ entry ∈ history, entry.token = token → ¬ entry.isKept) := by
  have kept : engine.kept.get? token = (latestKept? history token).map Resolved.code := by
    rw [run.kept_eq, get?_foldl_keepEntry]
    cases latestKept? history token <;> rfl
  refine ⟨kept, fun latest last => ?_⟩
  by_cases native : latest.isKept
  · rw [kept, latestKept?_eq_of_latest? last native]
    simp [native]
  · rw [kept, if_neg native, Option.map_eq_none_iff, latestKept?_eq_none_iff]
    simp [native]

/-- One method with two bytes of code, at address 1. -/
private def staleImage : Image := ⟨[0x00, 0x0A, 0x17, 0x2A], [], [1], [], 0⟩

/-- The code of that method twice: native code that has to be kept, then managed code. -/
private def staleStream : Bytes :=
  MethodStream.encodeMethods 0 [] [⟨2, nativeIndexBase, [0x90, 0xC3]⟩, ⟨2, 0, [0x2A]⟩]

private def staleHints : Hints := ⟨true, false, 0⟩

private def staleHistory : List Resolved :=
  [⟨⟨0x06000001⟩, nativeIndexBase, [0x90, 0xC3]⟩, ⟨⟨0x06000001⟩, 0, [0x2A]⟩]

private def staleEngine : PatchEngine :=
  ((ofHints staleHints).apply staleStream staleImage staleImage.data).engine

private theorem staleRun : Run staleHints staleImage staleEngine staleHistory := by
  have entries : streamEntries staleHints staleStream staleImage = staleHistory := rfl
  have run : Run staleHints staleImage staleEngine
      ([] ++ streamEntries staleHints staleStream staleImage) := .apply .fresh rfl
  rw [entries] at run
  exact run

theorem kept_eq_latest_iff_stale :
    Run staleHints staleImage staleEngine staleHistory ∧
      latest? staleHistory ⟨0x06000001⟩ = some ⟨⟨0x06000001⟩, 0, [0x2A]⟩ ∧
      staleEngine.kept.get? ⟨0x06000001⟩ = some [0x90, 0xC3] ∧
      ¬ (staleEngine.kept.get? ⟨0x06000001⟩ = none) := by
  have last : latest? staleHistory ⟨0x06000001⟩ = some ⟨⟨0x06000001⟩, 0, [0x2A]⟩ := rfl
  obtain ⟨kept, condition⟩ := staleRun.kept_eq_latest_iff ⟨0x06000001⟩
  refine ⟨staleRun, last, kept, fun removed => ?_⟩
  rcases (condition _ last).mp removed with native | never
  · exact absurd native (by decide)
  · exact never _ List.mem_cons_self rfl (by decide)

/-- The last record of the method is managed code, and the engine still holds native code. -/
theorem kept_after_managed_code :
    Run staleHints staleImage staleEngine staleHistory ∧
      latest? staleHistory ⟨0x06000001⟩ = some ⟨⟨0x06000001⟩, 0, [0x2A]⟩ ∧
      Resolved.isKept ⟨⟨0x06000001⟩, 0, [0x2A]⟩ = false ∧
      staleEngine.kept.get? ⟨0x06000001⟩ = some [0x90, 0xC3] :=
  ⟨staleRun, rfl, by decide, rfl⟩

end PatchEngine

end CilRecovery
