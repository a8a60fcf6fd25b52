import CilRecovery.Proofs.Method.Grammar
import CilRecovery.Proofs.MethodStream.Sizes
import CilRecovery.Proofs.PatchEngine.Writes

/-!
# The methods of an indexed stream

Every method record of an indexed stream is either missed or resolved to a row. The table holds
for each resolved token what its last record makes of the record at the row's address.
-/

set_option autoImplicit false

namespace CilRecovery

namespace MethodStream

open Reader (Yields)

def Record.IsIndexed : Record → Prop
  | .write _ _ => False
  | _ => True

theorem records_indexed {stream : Bytes} {found : List Record}
    (read : records .rvaIndexSize stream = .ok found) : ∀ record ∈ found, record.IsIndexed := by
  have dword : Yields readDword Record.IsIndexed :=
    (Yields.trivial _).bind fun _ _ => (Yields.trivial _).bind fun _ _ => .pure True.intro
  have method : Yields readMethod fun records => ∀ record ∈ records, record.IsIndexed := by
    refine (Yields.trivial _).bind fun _ _ => (Yields.trivial _).bind fun _ _ =>
      (Yields.trivial _).bind fun _ _ => (Yields.trivial _).bind fun _ _ =>
      .pure fun record member => ?_
    rw [List.mem_singleton.mp member]
    exact True.intro
  have all : Yields (readRecords .rvaIndexSize) fun records =>
      ∀ record ∈ records, record.IsIndexed :=
    (Yields.trivial _).bind fun count _ => (Yields.trivial _).bind fun _ _ =>
      (dword.times count).bind fun patches indexed => (Yields.trivial _).bind fun _ _ =>
      (Yields.trivial _).bind fun _ _ => (yields_readWhileLeft method _).bind
      fun methods indexed' => .pure (List.forall_mem_append.mpr ⟨indexed, indexed'⟩)
  exact records_of_yields all read

end MethodStream

theorem MethodTable.get?_add (table : MethodTable) (method : RecoveredMethod) (token : Token) :
    (table.add method).get? token =
      if method.token = token then some method else table.get? token := by
  cases token
  cases named : method.token
  simp [MethodTable.get?, MethodTable.add, named]

namespace PatchEngine

open MethodStream (Hints Record)

variable {index : AddressIndex} {image : Image} {target : Bytes}

/-! ## Records and rows -/

def missed? (index : AddressIndex) : Record → Option UInt32
  | .method codeAddress _ _ =>
      if (index.row? codeAddress).isNone then some codeAddress else none
  | _ => none

def Resolves (index : AddressIndex) (token : Token) : Record → Prop
  | .method codeAddress _ _ => ∃ row, index.row? codeAddress = some row ∧ row.token = token
  | _ => False

/-- A body whose code was replaced. A tiny header is widened exactly if it cannot hold the code. -/
structure Recoded (prior : Method.Body) (code : Bytes) (body : Method.Body) : Prop where
  replaced : body.code = code
  size : body.header.codeSize.toNat = code.length
  sections : body.sections = prior.sections
  kept : ¬ (prior.header.isTiny ∧ 63 < code.length) →
    body.header = { prior.header with codeSize := body.header.codeSize }
  widened : prior.header.isTiny ∧ 63 < code.length →
    body.header = ⟨0x3003, 8, body.header.codeSize, 0⟩ ∧ body.sections = none

/-- What a method record makes of the record at the address of its row. -/
structure Remapped (image : Image) (patched : Bytes) (row : MethodRow) (methodIndex : UInt32)
    (code : Bytes) (method : RecoveredMethod) : Prop where
  token : method.token = row.token
  address : method.address = row.address
  body : ∃ start prior, image.offset? row.address = some start ∧ start ≤ patched.length ∧
    Method.Body.parse (patched.drop start) = .ok prior ∧
    Recoded prior
      (if methodIndex < nativeIndexBase then code else (NativeStub.classify code).managedCode)
      method.body

theorem patchedBody_eq_ok_iff {row : MethodRow} {prior : Method.Body} :
    patchedBody image target row = .ok prior ↔
      ∃ start, image.offset? row.address = some start ∧ start ≤ target.length ∧
        Method.Body.parse (target.drop start) = .ok prior := by
  unfold patchedBody Bytes.from?
  cases image.offset? row.address with
  | none => exact ⟨nofun, nofun⟩
  | some start =>
      by_cases inside : start ≤ target.length
      · simp [inside]
      · simp [inside]

theorem managedCode_eq (methodIndex : UInt32) (code : Bytes) :
    managedCode methodIndex code =
      if methodIndex < nativeIndexBase then code
      else (NativeStub.classify code).managedCode := by
  unfold managedCode
  by_cases managed : methodIndex < nativeIndexBase
  · rw [if_pos managed, if_neg (UInt32.not_le.mpr managed)]
  · rw [if_neg managed, if_pos (UInt32.not_lt.mp managed)]

theorem recoded_of_withCode {token : Token} {address : UInt32} {data code : Bytes}
    {prior : Method.Body} {method : RecoveredMethod}
    (parsed : Method.Body.parse data = .ok prior)
    (built : RecoveredMethod.withCode token address prior code = .ok method) :
    Recoded prior code method.body := by
  obtain ⟨short, rfl⟩ := withCode_eq_ok_iff.mp built
  have size : (UInt32.ofNat code.length).toNat = code.length :=
    UInt32.toNat_ofNat_of_lt short
  have limit : Method.Header.tinyMaxCode = 63 := rfl
  by_cases wide : prior.header.isTiny ∧ 63 < code.length
  · have plain := Method.Body.sections_eq_none parsed wide.1
    simp only [wide, limit, decide_true, Bool.and_self, if_true]
    exact ⟨rfl, size, rfl, fun kept => absurd wide kept, fun _ => ⟨rfl, plain⟩⟩
  · have same : (prior.header.isTiny && decide (Method.Header.tinyMaxCode < code.length)) =
        false := by simpa [limit] using wide
    simp only [same, Bool.false_eq_true, if_false]
    exact ⟨rfl, size, rfl, fun _ => rfl, fun wide' => absurd wide' wide⟩

/-- What is recovered agrees with the relational account of the body. -/
theorem remapped_of_recover {row : MethodRow} {methodIndex : UInt32} {code : Bytes}
    {method : RecoveredMethod}
    (recovered : recoverMethod image target row methodIndex code = .ok method) :
    Remapped image target row methodIndex code method := by
  obtain ⟨prior, found, built⟩ := recoverMethod_eq_ok_iff.mp recovered
  obtain ⟨start, located, inside, parsed⟩ := patchedBody_eq_ok_iff.mp found
  have recoded := recoded_of_withCode parsed built
  rw [managedCode_eq] at recoded
  obtain ⟨_, rfl⟩ := withCode_eq_ok_iff.mp built
  exact ⟨rfl, rfl, start, prior, located, inside, parsed, recoded⟩

/-! ## One record -/

theorem Collects.misses {record : Record} {seen final : Collection}
    (collects : Collects index image target record seen final) :
    final.misses = seen.misses ++ (missed? index record).toList := by
  cases collects with
  | dword => exact (List.append_nil _).symm
  | write => exact (List.append_nil _).symm
  | miss unowned => simp [missed?, unowned]
  | hit owned recovered => simp [missed?, owned]

theorem Collects.get?_of_not_resolves {record : Record} {seen final : Collection} {token : Token}
    (collects : Collects index image target record seen final)
    (other : ¬ Resolves index token record) :
    final.methods.get? token = seen.methods.get? token := by
  cases collects with
  | dword => rfl
  | write => rfl
  | miss unowned => rfl
  | hit owned recovered =>
      rw [MethodTable.get?_add, if_neg]
      rw [(remapped_of_recover recovered).token]
      exact fun same => other ⟨_, owned, same⟩

/-- A record that resolves to a token replaces what the table had under it. -/
theorem Collects.get?_of_resolves {record : Record} {seen final : Collection} {token : Token}
    (collects : Collects index image target record seen final)
    (resolves : Resolves index token record) :
    ∃ codeAddress methodIndex code row method,
      record = .method codeAddress methodIndex code ∧ index.row? codeAddress = some row ∧
        row.token = token ∧ final.methods.get? token = some method ∧
        Remapped image target row methodIndex code method := by
  cases collects with
  | dword => cases resolves
  | write => cases resolves
  | miss unowned =>
      obtain ⟨row, owned, -⟩ := resolves
      rw [unowned] at owned
      cases owned
  | hit owned recovered =>
      obtain ⟨row, owned', named⟩ := resolves
      rw [owned] at owned'
      cases owned'
      have remapped := remapped_of_recover recovered
      refine ⟨_, _, _, _, _, rfl, owned, named, ?_, remapped⟩
      rw [MethodTable.get?_add, if_pos (remapped.token.trans named)]

/-! ## Runs -/

theorem CollectsAll.append {first second : List Record} {seen final : Collection}
    (chain : CollectsAll index image target (first ++ second) seen final) :
    ∃ middle, CollectsAll index image target first seen middle ∧
      CollectsAll index image target second middle final := by
  induction first generalizing seen with
  | nil => exact ⟨seen, .nil, chain⟩
  | cons record records ih =>
      cases chain with
      | cons step others =>
          obtain ⟨middle, before, after⟩ := ih others
          exact ⟨middle, .cons step before, after⟩

theorem CollectsAll.misses {records : List Record} {seen final : Collection}
    (chain : CollectsAll index image target records seen final) :
    final.misses = seen.misses ++ records.filterMap (missed? index) := by
  induction chain with
  | nil => exact (List.append_nil _).symm
  | @cons record records seen middle final first others ih =>
      rw [ih, first.misses, List.append_assoc, List.filterMap_cons]
      cases missed? index record <;> rfl

theorem CollectsAll.get?_of_not_resolves {records : List Record} {seen final : Collection}
    {token : Token} (chain : CollectsAll index image target records seen final)
    (others : ∀ record ∈ records, ¬ Resolves index token record) :
    final.methods.get? token = seen.methods.get? token := by
  induction chain with
  | nil => rfl
  | cons first rest ih =>
      rw [ih fun record member => others record (List.mem_cons_of_mem _ member)]
      exact first.get?_of_not_resolves (others _ List.mem_cons_self)

theorem exists_last {α : Type} {property : α → Prop} {items : List α}
    (found : ∃ item ∈ items, property item) :
    ∃ earlier item later, items = earlier ++ item :: later ∧ property item ∧
      ∀ other ∈ later, ¬ property other := by
  induction items with
  | nil =>
      obtain ⟨item, member, _⟩ := found
      cases member
  | cons first rest ih =>
      by_cases again : ∃ item ∈ rest, property item
      · obtain ⟨earlier, item, later, rfl, holds, others⟩ := ih again
        exact ⟨first :: earlier, item, later, rfl, holds, others⟩
      · have holds : property first := by
          obtain ⟨item, member, holds⟩ := found
          rcases List.mem_cons.mp member with rfl | inside
          · exact holds
          · exact absurd ⟨item, inside, holds⟩ again
        exact ⟨[], first, rest, rfl, holds, fun other member holds' =>
          again ⟨other, member, holds'⟩⟩

/-- The last record that names a method decides on its entry. -/
theorem CollectsAll.get?_of_resolves {records : List Record} {seen final : Collection}
    {token : Token} (chain : CollectsAll index image target records seen final)
    (named : ∃ record ∈ records, Resolves index token record) :
    ∃ earlier codeAddress methodIndex code later row method,
      records = earlier ++ .method codeAddress methodIndex code :: later ∧
        (∀ record ∈ later, ¬ Resolves index token record) ∧
        index.row? codeAddress = some row ∧ row.token = token ∧
        final.methods.get? token = some method ∧
        Remapped image target row methodIndex code method := by
  -- The last record of the method sets its entry, and no record behind that one touches it.
  obtain ⟨earlier, record, later, rfl, resolves, others⟩ := exists_last named
  obtain ⟨_, -, chain⟩ := chain.append
  cases chain with
  | cons step rest =>
      obtain ⟨_, _, _, row, method, rfl, owned, same, held, remapped⟩ :=
        step.get?_of_resolves resolves
      rw [← rest.get?_of_not_resolves others] at held
      exact ⟨earlier, _, _, _, later, row, method, rfl, others, owned, same, held, remapped⟩

/-- Where nothing was held before, only the records put something in. -/
theorem CollectsAll.resolves_of_get? {records : List Record} {seen final : Collection}
    {token : Token} {method : RecoveredMethod}
    (chain : CollectsAll index image target records seen final)
    (fresh : seen.methods.get? token = none) (held : final.methods.get? token = some method) :
    ∃ record ∈ records, Resolves index token record := by
  by_contra none
  rw [chain.get?_of_not_resolves fun record member resolves => none ⟨record, member, resolves⟩,
    fresh] at held
  cases held

/-! ## Streams -/

/-- What an indexed stream comes to. -/
structure Remaps (image : Image) (records : List Record) (patched : Bytes) (outcome : Outcome) :
    Prop where
  misses : outcome.misses = records.filterMap (missed? (AddressIndex.build image))
  tokens : ∀ token, (outcome.methods.get? token).isSome ↔
    ∃ record ∈ records, Resolves (AddressIndex.build image) token record
  methods : ∀ token method, outcome.methods.get? token = some method →
    ∃ earlier codeAddress methodIndex code later row,
      records = earlier ++ .method codeAddress methodIndex code :: later ∧
        (∀ record ∈ later, ¬ Resolves (AddressIndex.build image) token record) ∧
        (AddressIndex.build image).row? codeAddress = some row ∧ row.token = token ∧
        Remapped image patched row methodIndex code method
  writes : outcome.writes = records.countP Record.isDword

theorem countP_isWrite {records : List Record} (indexed : ∀ record ∈ records, record.IsIndexed) :
    records.countP Record.isWrite = records.countP Record.isDword := by
  refine List.countP_congr fun record member => ?_
  have inside := indexed record member
  cases record with
  | write address data => cases inside
  | _ => rfl

/-- A fresh engine remaps every indexed stream that it accepts. -/
theorem apply_remaps {hints : Hints} {stream : Bytes} {outcome : Outcome}
    (accepted : ((ofHints hints).apply stream image target).result = .ok outcome)
    (indexed : outcome.format = .rvaIndexSize) :
    ∃ records, MethodStream.records .rvaIndexSize (MethodStream.mask hints.maskKey stream) =
        .ok records ∧
      Written hints image records target ((ofHints hints).apply stream image target).target ∧
      Remaps image records ((ofHints hints).apply stream image target).target outcome := by
  obtain ⟨records, writes, _, prepared, -, -⟩ := collectsAll_of_apply accepted
  obtain ⟨plans, rfl⟩ := prepare_eq_ok_iff.mp prepared
  obtain ⟨seen, chain, same⟩ := outcome_of_apply prepared accepted
  rw [apply_target prepared, same]
  refine ⟨records, indexed ▸ plans.read, plans.written, ?_⟩
  have read := indexed ▸ plans.read
  refine ⟨chain.misses, fun token => ⟨fun held => ?_, fun named => ?_⟩, ?_,
    plans.length_writes.trans (countP_isWrite (MethodStream.records_indexed read))⟩
  · obtain ⟨method, held⟩ := Option.isSome_iff_exists.mp held
    exact chain.resolves_of_get? rfl held
  · obtain ⟨_, _, _, _, _, _, method, _, _, _, _, held, _⟩ := chain.get?_of_resolves named
    exact Option.isSome_iff_exists.mpr ⟨method, held⟩
  · intro token method held
    have named := chain.resolves_of_get? rfl held
    obtain ⟨earlier, _, _, _, later, row, method', split, others, owned, same, held', remapped⟩ :=
      chain.get?_of_resolves named
    rw [held] at held'
    cases held'
    exact ⟨earlier, _, _, _, later, row, split, others, owned, same, remapped⟩

private def remapHints : Hints := ⟨true, false, 0x5A5A12340BADF00D⟩

/-- One method with two bytes of code, at address 1. -/
private def remapImage : Image := ⟨[0x00, 0x0A, 0x17, 0x2A], [], [1], [], 0⟩

/-- A patch of the method's header, native code and later managed code for the method, and code of
no method between them. -/
private def remapStream : Bytes :=
  MethodStream.mask remapHints.maskKey
    (MethodStream.encodeMethods 0 [⟨0, 0x002A0600⟩]
      [⟨2, nativeIndexBase, [0x90, 0xC3]⟩, ⟨9, 0, [0x2A]⟩, ⟨2, 0, [0x17, 0x26, 0x2A]⟩])

private abbrev remapped : Application :=
  (ofHints remapHints).apply remapStream remapImage remapImage.data

theorem apply_remaps_patched :
    remapped.target = [0x00, 0x06, 0x2A, 0x00] ∧
      ∃ outcome, remapped.result = .ok outcome ∧ outcome.format = .rvaIndexSize ∧
        (outcome.methods.get? ⟨0x06000001⟩).map RecoveredMethod.body =
          some ⟨⟨2, 8, 3, 0⟩, [0x17, 0x26, 0x2A], none⟩ ∧
        ∃ records, Remaps remapImage records remapped.target outcome := by
  have patched : remapped.target = [0x00, 0x06, 0x2A, 0x00] := by decide +kernel
  have accepted : remapped.result.toOption.map (fun outcome =>
      (outcome.format, (outcome.methods.get? ⟨0x06000001⟩).map RecoveredMethod.body)) =
      some (.rvaIndexSize, some ⟨⟨2, 8, 3, 0⟩, [0x17, 0x26, 0x2A], none⟩) := by decide +kernel
  cases result : remapped.result with
  | error error =>
      rw [result] at accepted
      cases accepted
  | ok outcome =>
      rw [result] at accepted
      obtain ⟨indexed, body⟩ := Prod.mk.inj (Option.some.inj accepted)
      obtain ⟨records, _, _, remaps⟩ := apply_remaps result indexed
      exact ⟨patched, outcome, rfl, indexed, body, records, remaps⟩

end PatchEngine

end CilRecovery
