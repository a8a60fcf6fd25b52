import CilRecovery.PatchEngine
import CilRecovery.Proofs.Except

/-!
# What a run over method records collects

One record changes the collection in one of four ways. A run of the record loop is a chain of
such steps.
-/

set_option autoImplicit false

namespace CilRecovery.PatchEngine

open MethodStream (Record)

variable {index : AddressIndex} {image : Image} {target : Bytes}

structure Resolved where
  token : Token
  index : UInt32
  code : Bytes

def Resolved.isKept (entry : Resolved) : Bool := PatchEngine.isKept entry.index entry.code

def resolvedEntries (index : AddressIndex) (records : List Record) : List Resolved :=
  records.filterMap fun
    | .method codeAddress methodIndex code =>
        (index.resolve? codeAddress).map fun token => ⟨token, methodIndex, code⟩
    | _ => none

def keepEntry (table : OpaqueTable) (entry : Resolved) : OpaqueTable :=
  if entry.isKept then table.keep entry.token entry.code else table

def recoverMethod (image : Image) (target : Bytes) (row : MethodRow) (methodIndex : UInt32)
    (code : Bytes) : Except Error RecoveredMethod :=
  patchedBody image target row >>= fun prior =>
    RecoveredMethod.withCode row.token row.address prior (managedCode methodIndex code)

theorem withCode_eq_ok_iff {token : Token} {address : UInt32} {prior : Method.Body}
    {code : Bytes} {method : RecoveredMethod} :
    RecoveredMethod.withCode token address prior code = .ok method ↔
      code.length < UInt32.size ∧
        method = ⟨token, address,
          ⟨if prior.header.isTiny && Method.Header.tinyMaxCode < code.length then
              Method.Header.fat 0 Method.Header.tinyMaxStack (UInt32.ofNat code.length) 0
            else { prior.header with codeSize := UInt32.ofNat code.length }, code,
            prior.sections⟩⟩ := by
  unfold RecoveredMethod.withCode
  by_cases large : UInt32.size ≤ code.length
  · rw [if_pos large]
    constructor
    · intro failed
      cases failed
    · intro ⟨short, _⟩
      exact absurd short (Nat.not_lt.mpr large)
  · rw [if_neg large]
    constructor
    · intro built
      exact ⟨Nat.lt_of_not_le large, (Except.ok.inj built).symm⟩
    · intro ⟨_, same⟩
      rw [same]

/-- The body is read from the patched copy, at the address of the row in the image. -/
theorem recoverMethod_eq_ok_iff {row : MethodRow} {methodIndex : UInt32} {code : Bytes}
    {method : RecoveredMethod} :
    recoverMethod image target row methodIndex code = .ok method ↔
      ∃ prior, patchedBody image target row = .ok prior ∧
        RecoveredMethod.withCode row.token row.address prior (managedCode methodIndex code) =
          .ok method := by
  rw [recoverMethod]
  exact Except.bind_eq_ok

/-- A record takes a collection to another one. -/
inductive Collects (index : AddressIndex) (image : Image) (target : Bytes) :
    Record → Collection → Collection → Prop
  | dword {address value : UInt32} {seen : Collection} :
      Collects index image target (.dword address value) seen seen
  | write {address : UInt32} {data : Bytes} {seen : Collection} :
      Collects index image target (.write address data) seen seen
  | miss {codeAddress methodIndex : UInt32} {code : Bytes} {seen : Collection}
      (unowned : index.row? codeAddress = none) :
      Collects index image target (.method codeAddress methodIndex code) seen
        { seen with misses := seen.misses ++ [codeAddress] }
  | hit {codeAddress methodIndex : UInt32} {code : Bytes} {seen : Collection} {row : MethodRow}
      {method : RecoveredMethod} (owned : index.row? codeAddress = some row)
      (recovered : recoverMethod image target row methodIndex code = .ok method) :
      Collects index image target (.method codeAddress methodIndex code) seen
        ⟨keepEntry seen.kept ⟨row.token, methodIndex, code⟩, seen.methods.add method, seen.misses⟩

inductive CollectsAll (index : AddressIndex) (image : Image) (target : Bytes) :
    List Record → Collection → Collection → Prop
  | nil {seen : Collection} : CollectsAll index image target [] seen seen
  | cons {record : Record} {records : List Record} {seen middle final : Collection}
      (first : Collects index image target record seen middle)
      (others : CollectsAll index image target records middle final) :
      CollectsAll index image target (record :: records) seen final

/-- A record fails when it has code for a known method whose body cannot be recovered. The code is
kept all the same. -/
inductive Fails (index : AddressIndex) (image : Image) (target : Bytes) (error : Error) :
    Record → Collection → Collection → Prop
  | method {codeAddress methodIndex : UInt32} {code : Bytes} {seen : Collection} {row : MethodRow}
      (owned : index.row? codeAddress = some row)
      (refused : recoverMethod image target row methodIndex code = .error error) :
      Fails index image target error (.method codeAddress methodIndex code) seen
        { seen with kept := keepEntry seen.kept ⟨row.token, methodIndex, code⟩ }

private theorem collect_hit {codeAddress methodIndex : UInt32} {code : Bytes} {row : MethodRow}
    (owned : index.row? codeAddress = some row) (seen : Collection) :
    collect index image target (.method codeAddress methodIndex code) seen =
      match recoverMethod image target row methodIndex code with
      | .ok method =>
          .ok () ⟨keepEntry seen.kept ⟨row.token, methodIndex, code⟩, seen.methods.add method,
            seen.misses⟩
      | .error error =>
          .error error ⟨keepEntry seen.kept ⟨row.token, methodIndex, code⟩, seen.methods,
            seen.misses⟩ := by
  simp only [collect, owned]
  by_cases native : PatchEngine.isKept methodIndex code
  · have entry : keepEntry seen.kept ⟨row.token, methodIndex, code⟩ =
        seen.kept.keep row.token code := if_pos native
    rw [entry, if_pos native, recoverMethod]
    cases patchedBody image target row >>= fun prior =>
      RecoveredMethod.withCode row.token row.address prior (managedCode methodIndex code) <;> rfl
  · have entry : keepEntry seen.kept ⟨row.token, methodIndex, code⟩ = seen.kept := if_neg native
    rw [entry, if_neg native, recoverMethod]
    cases patchedBody image target row >>= fun prior =>
      RecoveredMethod.withCode row.token row.address prior (managedCode methodIndex code) <;> rfl

/-- The four ways are all that a record that does not fail can do. -/
theorem collect_eq_ok_iff {record : Record} {seen final : Collection} :
    collect index image target record seen = .ok () final ↔
      Collects index image target record seen final := by
  constructor
  · intro collected
    cases record with
    | dword address value =>
        cases collected
        exact .dword
    | write address data =>
        cases collected
        exact .write
    | method codeAddress methodIndex code =>
        cases owned : index.row? codeAddress with
        | none =>
            simp only [collect, owned] at collected
            cases collected
            exact .miss owned
        | some row =>
            rw [collect_hit owned] at collected
            cases recovered : recoverMethod image target row methodIndex code with
            | ok method =>
                rw [recovered] at collected
                cases collected
                exact .hit owned recovered
            | error error =>
                rw [recovered] at collected
                cases collected
  · intro collects
    cases collects with
    | dword => rfl
    | write => rfl
    | miss unowned =>
        simp only [collect, unowned]
        rfl
    | hit owned recovered => rw [collect_hit owned, recovered]

theorem collect_eq_error_iff {record : Record} {seen left : Collection} {error : Error} :
    collect index image target record seen = .error error left ↔
      Fails index image target error record seen left := by
  constructor
  · intro failed
    cases record with
    | dword address value => cases failed
    | write address data => cases failed
    | method codeAddress methodIndex code =>
        cases owned : index.row? codeAddress with
        | none =>
            simp only [collect, owned] at failed
            cases failed
        | some row =>
            rw [collect_hit owned] at failed
            cases recovered : recoverMethod image target row methodIndex code with
            | ok method =>
                rw [recovered] at failed
                cases failed
            | error error' =>
                rw [recovered] at failed
                cases failed
                exact .method owned recovered
  · intro fails
    cases fails with
    | method owned refused => rw [collect_hit owned, refused]

/-- The record loop succeeds exactly by a chain of such steps. -/
theorem forM_collect_eq_ok_iff {records : List Record} {seen final : Collection} :
    records.forM (collect index image target) seen = .ok () final ↔
      CollectsAll index image target records seen final := by
  induction records generalizing seen with
  | nil =>
      constructor
      · intro done
        cases done
        exact .nil
      · intro done
        cases done
        rfl
  | cons record records ih =>
      change (collect index image target record >>= fun _ =>
        records.forM (collect index image target)) seen = _ ↔ _
      rw [EState.bind_eq_ok]
      constructor
      · intro ⟨_, middle, first, others⟩
        exact .cons (collect_eq_ok_iff.mp first) (ih.mp others)
      · intro chain
        cases chain with
        | cons first others => exact ⟨(), _, collect_eq_ok_iff.mpr first, ih.mpr others⟩

/-- The record loop fails exactly by a chain of such steps and a record that fails after it. -/
theorem forM_collect_eq_error_iff {records : List Record} {seen left : Collection}
    {error : Error} :
    records.forM (collect index image target) seen = .error error left ↔
      ∃ earlier failing later middle, records = earlier ++ failing :: later ∧
        CollectsAll index image target earlier seen middle ∧
        Fails index image target error failing middle left := by
  induction records generalizing seen with
  | nil =>
      constructor
      · intro failed
        cases failed
      · intro ⟨earlier, failing, later, _, split, _⟩
        cases earlier <;> cases split
  | cons record records ih =>
      change (collect index image target record >>= fun _ =>
        records.forM (collect index image target)) seen = _ ↔ _
      rw [EState.bind_eq_error]
      constructor
      · rintro (failed | ⟨_, middle, first, failed⟩)
        · exact ⟨[], record, records, seen, rfl, .nil, collect_eq_error_iff.mp failed⟩
        · obtain ⟨earlier, failing, later, last, split, chain, fails⟩ := ih.mp failed
          exact ⟨record :: earlier, failing, later, last, congrArg _ split,
            .cons (collect_eq_ok_iff.mp first) chain, fails⟩
      · intro ⟨earlier, failing, later, last, split, chain, fails⟩
        cases chain with
        | nil =>
            cases split
            exact .inl (collect_eq_error_iff.mpr fails)
        | cons first others =>
            cases split
            exact .inr ⟨(), _, collect_eq_ok_iff.mpr first,
              ih.mpr ⟨_, failing, later, last, rfl, others, fails⟩⟩

theorem forM_collect_error {records : List Record} {seen left : Collection} {error : Error}
    (failed : records.forM (collect index image target) seen = .error error left) :
    ∃ row methodIndex code, recoverMethod image target row methodIndex code = .error error := by
  obtain ⟨_, _, _, _, _, _, fails⟩ := forM_collect_eq_error_iff.mp failed
  cases fails with
  | method _ refused => exact ⟨_, _, _, refused⟩

/-! ## The kept table -/

theorem resolvedEntries_append (index : AddressIndex) (earlier later : List Record) :
    resolvedEntries index (earlier ++ later) =
      resolvedEntries index earlier ++ resolvedEntries index later :=
  List.filterMap_append

theorem resolvedEntries_method {codeAddress : UInt32} {row : MethodRow}
    (owned : index.row? codeAddress = some row) (methodIndex : UInt32) (code : Bytes) :
    resolvedEntries index [.method codeAddress methodIndex code] =
      [⟨row.token, methodIndex, code⟩] := by
  simp [resolvedEntries, AddressIndex.resolve?, owned]

theorem Collects.kept {record : Record} {seen final : Collection}
    (collects : Collects index image target record seen final) :
    final.kept = (resolvedEntries index [record]).foldl keepEntry seen.kept := by
  cases collects with
  | dword => rfl
  | write => rfl
  | miss unowned => simp [resolvedEntries, AddressIndex.resolve?, unowned]
  | hit owned recovered =>
      rw [resolvedEntries_method owned]
      rfl

/-- Native code is kept even if its record then fails. -/
theorem Fails.kept {record : Record} {seen left : Collection} {error : Error}
    (fails : Fails index image target error record seen left) :
    left.kept = (resolvedEntries index [record]).foldl keepEntry seen.kept := by
  cases fails with
  | method owned refused =>
      rw [resolvedEntries_method owned]
      rfl

/-- The record loop keeps the code of the kept records among those that the index resolves. -/
theorem CollectsAll.kept {records : List Record} {seen final : Collection}
    (chain : CollectsAll index image target records seen final) :
    final.kept = (resolvedEntries index records).foldl keepEntry seen.kept := by
  induction chain with
  | nil => rfl
  | @cons record records seen middle final first others ih =>
      rw [← List.singleton_append, resolvedEntries_append, List.foldl_append, ← first.kept]
      exact ih

/-- A chain that a failing record ends keeps the code of that record too. -/
theorem CollectsAll.kept_of_fails {earlier : List Record} {failing : Record}
    {seen middle left : Collection} {error : Error}
    (chain : CollectsAll index image target earlier seen middle)
    (fails : Fails index image target error failing middle left) :
    left.kept = (resolvedEntries index (earlier ++ [failing])).foldl keepEntry seen.kept := by
  rw [resolvedEntries_append, List.foldl_append, ← chain.kept, fails.kept]

def leftBy : EStateM.Result Error Collection Unit → Collection
  | .ok _ seen => seen
  | .error _ seen => seen

/-- A record loop that fails has kept the code of the records up to the failing one. -/
theorem leftBy_forM_kept (records : List Record) (seen : Collection) :
    ∃ done, done <+: records ∧
      (leftBy (records.forM (collect index image target) seen)).kept =
        (resolvedEntries index done).foldl keepEntry seen.kept := by
  cases looped : records.forM (collect index image target) seen with
  | ok _ final =>
      exact ⟨records, List.prefix_refl records, (forM_collect_eq_ok_iff.mp looped).kept⟩
  | error error left =>
      obtain ⟨earlier, failing, later, _, rfl, chain, fails⟩ :=
        forM_collect_eq_error_iff.mp looped
      exact ⟨earlier ++ [failing], ⟨later, by simp⟩, chain.kept_of_fails fails⟩

/-! ## Streams -/

theorem hints_apply (engine : PatchEngine) (stream : Bytes) (image : Image) (target : Bytes) :
    (engine.apply stream image target).engine.hints = engine.hints := by
  unfold apply
  split
  · rfl
  · dsimp only
    split <;> rfl

theorem index_apply (engine : PatchEngine) (stream : Bytes) (image : Image) (target : Bytes) :
    (engine.apply stream image target).engine.index image = engine.index image := by
  unfold apply
  split
  · rfl
  · dsimp only
    split <;> exact AddressIndex.Cache.get_refresh engine.cache image

/-- A stream all of whose records are collected succeeds, with the count of its writes. -/
theorem apply_of_collectsAll {engine : PatchEngine} {stream : Bytes}
    {format : MethodStream.Format} {records : List Record} {writes : List Overwrite}
    {seen : Collection}
    (prepared : prepare engine.hints stream image target.length = .ok (format, records, writes))
    (chain : CollectsAll (engine.index image) image (Overwrite.applyAll writes target) records
      ⟨engine.kept, .empty, []⟩ seen) :
    engine.apply stream image target =
      ⟨.ok ⟨format, seen.methods, writes.length, seen.misses⟩, Overwrite.applyAll writes target,
        { engine.refresh image with kept := seen.kept }⟩ := by
  have looped := forM_collect_eq_ok_iff.mpr chain
  rw [apply, prepared]
  dsimp only [refresh]
  rw [looped]

/-- At the failing record the writes are done and earlier native code is kept; the records behind it
are not looked at. -/
theorem apply_of_fails {engine : PatchEngine} {stream : Bytes} {format : MethodStream.Format}
    {earlier later : List Record} {failing : Record} {writes : List Overwrite}
    {middle left : Collection} {error : Error}
    (prepared : prepare engine.hints stream image target.length =
      .ok (format, earlier ++ failing :: later, writes))
    (chain : CollectsAll (engine.index image) image (Overwrite.applyAll writes target) earlier
      ⟨engine.kept, .empty, []⟩ middle)
    (fails : Fails (engine.index image) image (Overwrite.applyAll writes target) error failing
      middle left) :
    engine.apply stream image target =
      ⟨.error error, Overwrite.applyAll writes target,
        { engine.refresh image with kept := left.kept }⟩ := by
  have looped := forM_collect_eq_error_iff.mpr ⟨earlier, failing, later, middle, rfl, chain, fails⟩
  rw [apply, prepared]
  dsimp only [refresh]
  rw [looped]

/-- A prepared stream that succeeds comes to what its records collect. -/
theorem outcome_of_apply {engine : PatchEngine} {stream : Bytes} {format : MethodStream.Format}
    {records : List Record} {writes : List Overwrite} {outcome : Outcome}
    (prepared : prepare engine.hints stream image target.length = .ok (format, records, writes))
    (applied : (engine.apply stream image target).result = .ok outcome) :
    ∃ seen, CollectsAll (engine.index image) image (Overwrite.applyAll writes target) records
        ⟨engine.kept, .empty, []⟩ seen ∧
      outcome = ⟨format, seen.methods, writes.length, seen.misses⟩ := by
  cases collected : records.forM
      (collect (engine.index image) image (Overwrite.applyAll writes target))
      ⟨engine.kept, .empty, []⟩ with
  | error error seen =>
      rw [apply, prepared] at applied
      dsimp only [refresh] at applied
      rw [collected] at applied
      cases applied
  | ok _ seen =>
      have chain := forM_collect_eq_ok_iff.mp collected
      rw [apply_of_collectsAll prepared chain] at applied
      exact ⟨seen, chain, (Except.ok.inj applied).symm⟩

/-- A stream that succeeds was prepared and then collected. -/
theorem collectsAll_of_apply {engine : PatchEngine} {stream : Bytes} {outcome : Outcome}
    (applied : (engine.apply stream image target).result = .ok outcome) :
    ∃ records writes seen,
      prepare engine.hints stream image target.length = .ok (outcome.format, records, writes) ∧
        CollectsAll (engine.index image) image (Overwrite.applyAll writes target) records
          ⟨engine.kept, .empty, []⟩ seen ∧
        (engine.apply stream image target).engine =
          { engine.refresh image with kept := seen.kept } := by
  cases prepared : prepare engine.hints stream image target.length with
  | error error =>
      simp only [apply, prepared] at applied
      cases applied
  | ok plan =>
      obtain ⟨format, records, writes⟩ := plan
      obtain ⟨seen, chain, rfl⟩ := outcome_of_apply prepared applied
      rw [apply_of_collectsAll prepared chain]
      exact ⟨records, writes, seen, rfl, chain, rfl⟩

end CilRecovery.PatchEngine
