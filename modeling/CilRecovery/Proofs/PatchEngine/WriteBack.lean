import CilRecovery.Proofs.Cipher.Chained
import CilRecovery.Proofs.MethodStream.Layout
import CilRecovery.Proofs.OpaqueTable
import CilRecovery.Proofs.OutputWriter.Frame
import CilRecovery.Proofs.PatchEngine.Service
import CilRecovery.Proofs.WordMap

/-!
# Reading back what was written back

A stream of kept methods that was encrypted into its slot is decrypted, told apart, resolved and
kept again by a fresh engine, whatever the cipher, the mask and the layout of the output.
-/

set_option autoImplicit false

namespace CilRecovery.PatchEngine

open MethodStream (Hints MethodEntry Record countLimit)

/-! ## Hits -/

/-- A method record that the index resolves and whose method can be recovered. -/
structure Hit (index : AddressIndex) (image : Image) (target : Bytes) where
  entry : MethodEntry
  row : MethodRow
  method : RecoveredMethod
  owned : index.row? entry.codeAddress = some row
  recovered : recoverMethod image target row entry.index entry.code = .ok method

variable {index : AddressIndex} {image : Image} {target : Bytes}

abbrev ImageHit (image : Image) := Hit (AddressIndex.build image) image image.data

def Hit.resolved (hit : Hit index image target) : Resolved :=
  ⟨hit.row.token, hit.entry.index, hit.entry.code⟩

/-- A stream of hits misses nothing and adds one method for each of them. -/
theorem collectsAll_hits (hits : List (Hit index image target)) (seen : Collection) :
    CollectsAll index image target (hits.map fun hit => hit.entry.record) seen
      ⟨(hits.map Hit.resolved).foldl keepEntry seen.kept,
        hits.foldl (fun table hit => table.add hit.method) seen.methods, seen.misses⟩ := by
  induction hits generalizing seen with
  | nil => exact .nil
  | cons hit rest ih => exact .cons (.hit hit.owned hit.recovered) (ih _)

/-- A recovered method has the token of its row and the managed code of its record. -/
theorem recoverMethod_parts {row : MethodRow} {methodIndex : UInt32} {code : Bytes}
    {method : RecoveredMethod}
    (recovered : recoverMethod image target row methodIndex code = .ok method) :
    method.token = row.token ∧ method.body.code = managedCode methodIndex code := by
  obtain ⟨prior, _, built⟩ := recoverMethod_eq_ok_iff.mp recovered
  obtain ⟨_, rfl⟩ := withCode_eq_ok_iff.mp built
  exact ⟨rfl, rfl⟩

theorem managedCode_of_native {methodIndex : UInt32} {code : Bytes}
    (native : nativeIndexBase ≤ methodIndex) (opaqueCode : IsOpaque code) :
    managedCode methodIndex code = NativeStub.placeholder := by
  rw [managedCode, if_pos native, opaqueCode.classified]
  rfl

/-- The placeholder fits into every body, whatever the row had. -/
theorem recoverMethod_of_native {row : MethodRow} {methodIndex : UInt32} {code : Bytes}
    {start : Nat} {body : Method.Body} (located : image.offset? row.address = some start)
    (inside : start ≤ target.length)
    (parsed : Method.Body.parse (target.drop start) = .ok body)
    (native : nativeIndexBase ≤ methodIndex) (opaqueCode : IsOpaque code) :
    ∃ method, recoverMethod image target row methodIndex code = .ok method := by
  have prior : patchedBody image target row = .ok body := by
    simp only [patchedBody, located, Bytes.from?, if_pos inside, parsed]
  exact ⟨_, recoverMethod_eq_ok_iff.mpr ⟨body, prior, withCode_eq_ok_iff.mpr ⟨by
    rw [managedCode_of_native native opaqueCode]; decide, rfl⟩⟩⟩

/-! ## Hits of a written stream -/

/-- A slot that leaves alone what a method stream is resolved by: the first two bytes at the
address of every row with a body, and the records of the surviving methods. -/
structure SlotApart (table : OpaqueTable) (output : Image) (slot : ResourceLocation) : Prop where
  headers : ∀ row ∈ output.rows, row.address ≠ 0 → ∀ start,
    output.offset? row.address = some start → slot.Avoids start 2
  records : ∀ method ∈ table.surviving output, ∀ written start,
    output.methodBody? method.1 = some written → output.offset? written.address = some start →
      slot.Avoids start written.record.length

/-- The addresses under which the methods of an image are indexed, one for each row that is. -/
def codeAddresses (image : Image) : List UInt32 :=
  (image.rows.filterMap (ContainerImage.keyed? image)).map Prod.fst

private theorem native_index {index : Nat} (small : index < Token.rowLimit) :
    nativeIndexBase ≤ nativeIndexBase + UInt32.ofNat index := by
  unfold Token.rowLimit at small
  rw [UInt32.le_iff_toNat_le, UInt32.toNat_add, UInt32.toNat_ofNat']
  have base : nativeIndexBase.toNat = 0x70000000 := rfl
  omega

private theorem length_record {data : Bytes} {start : Nat} {body : Method.Body}
    (parsed : Method.Body.parse (data.drop start) = .ok body) :
    ((data.drop start).take body.totalSize).length = body.totalSize := by
  obtain ⟨span, rest, split, record⟩ := Method.Body.parse_iff_isRecord.mp parsed
  rw [split, ← record.length_eq, List.take_left]

/-- Every entry of the written stream is a hit in the output with the slot filled. -/
private theorem exists_hit {table : OpaqueTable} (all : AllOpaque table) {output : Image}
    (distinct : (codeAddresses output).Nodup) {slot : ResourceLocation} {bytes : Bytes}
    (apart : SlotApart table output slot) (fills : bytes.length = slot.length)
    (fits : slot.offset + slot.length ≤ output.data.length) {method : Token × Bytes} {place : Nat}
    (member : method ∈ table.surviving output) (small : place < Token.rowLimit)
    {entry : MethodEntry} (written : OutputWriter.entryOf output method place = .ok entry) :
    ∃ hit : ImageHit (output.write slot.offset bytes),
      (hit.row.token, hit.entry.code) = method ∧ hit.entry = entry ∧
        nativeIndexBase ≤ hit.entry.index ∧ IsOpaque hit.entry.code := by
  obtain ⟨⟨row, start, body, home⟩, index_eq, code_eq⟩ := OpaqueTable.entryOf_eq_ok written
  have opaqueCode : IsOpaque entry.code :=
    code_eq ▸ all _ (OpaqueTable.surviving_mem member).1
  have native : nativeIndexBase ≤ entry.index := index_eq ▸ native_index small
  have owned : (AddressIndex.build (output.write slot.offset bytes)).row? entry.codeAddress =
      some row := by
    rw [AddressIndex.build_write fills fits apart.headers]
    exact WordMap.find?_ofList_of_mem distinct
      (List.mem_filterMap.mpr ⟨row, home.listed, home.indexed⟩)
  have located : (output.write slot.offset bytes).offset? row.address = some start := by
    rw [Image.offset?_write fills fits, home.located]
  have inside : start ≤ (output.write slot.offset bytes).data.length :=
    Nat.le_of_lt (by simpa using (Option.filter_eq_some_iff.mp located).2)
  have avoids : slot.Avoids start body.totalSize := by
    have clear := apart.records method member _ start home.found home.located
    rwa [length_record home.parsed] at clear
  obtain ⟨recovered, equation⟩ := recoverMethod_of_native located inside
    (Method.Body.parse_write fills fits home.parsed avoids) native opaqueCode
  refine ⟨⟨entry, row, recovered, owned, equation⟩, ?_, rfl, native, opaqueCode⟩
  rw [home.named, code_eq]

private theorem exists_list {α β γ δ : Type} {related : α → β → Prop} {view : α → δ}
    {left : γ → δ} {right : γ → β} {property : γ → Prop} {items : List α} {values : List β}
    (each : ∀ item ∈ items, ∀ value, related item value →
      ∃ witness, left witness = view item ∧ right witness = value ∧ property witness)
    (pairs : List.Forall₂ related items values) :
    ∃ witnesses : List γ, witnesses.map left = items.map view ∧ witnesses.map right = values ∧
      ∀ witness ∈ witnesses, property witness := by
  induction pairs with
  | nil => exact ⟨[], rfl, rfl, fun _ member => nomatch member⟩
  | @cons item value items values first others ih =>
      obtain ⟨witness, same, same', holds⟩ := each item List.mem_cons_self value first
      obtain ⟨witnesses, all, all', hold⟩ :=
        ih fun item member => each item (List.mem_cons_of_mem _ member)
      refine ⟨witness :: witnesses, ?_, ?_, ?_⟩
      · rw [List.map_cons, List.map_cons, same, all]
      · rw [List.map_cons, same', all']
      · intro other member
        rcases List.mem_cons.mp member with rfl | later
        · exact holds
        · exact hold other later

theorem exists_hits {table : OpaqueTable} (all : AllOpaque table) {output : Image}
    (distinct : (codeAddresses output).Nodup) {slot : ResourceLocation} {bytes : Bytes}
    (apart : SlotApart table output slot) (fills : bytes.length = slot.length)
    (fits : slot.offset + slot.length ≤ output.data.length) {entries : List MethodEntry}
    (written : List.Forall₂ (fun (item : (Token × Bytes) × Nat) entry =>
      OutputWriter.entryOf output item.1 item.2 = .ok entry)
      (table.surviving output).zipIdx entries) :
    ∃ hits : List (ImageHit (output.write slot.offset bytes)),
      (hits.map fun hit => (hit.row.token, hit.entry.code)) = table.surviving output ∧
        hits.map Hit.entry = entries ∧
        ∀ hit ∈ hits, nativeIndexBase ≤ hit.entry.index ∧ IsOpaque hit.entry.code := by
  have few := OpaqueTable.length_surviving_le table output
  have each : ∀ item ∈ (table.surviving output).zipIdx, ∀ entry,
      OutputWriter.entryOf output item.1 item.2 = .ok entry →
      ∃ hit : ImageHit (output.write slot.offset bytes),
        (hit.row.token, hit.entry.code) = Prod.fst item ∧ Hit.entry hit = entry ∧
          nativeIndexBase ≤ hit.entry.index ∧ IsOpaque hit.entry.code := by
    intro item member entry related
    have before := List.snd_lt_of_mem_zipIdx member
    exact exists_hit all distinct apart fills fits (List.fst_mem_of_mem_zipIdx member)
      (by omega) related
  obtain ⟨hits, same, same', hold⟩ := exists_list each written
  rw [List.zipIdx_map_fst] at same
  exact ⟨hits, same, same', hold⟩

/-! ## Streams of hits -/

/-- Only method records: nothing is written. -/
theorem resolveWrites_methods (direct : Addressing) (targetLength : Nat)
    (entries : List MethodEntry) :
    resolveWrites image direct targetLength (entries.map MethodEntry.record) = .ok [] := by
  refine resolveWrites_eq_ok_iff.mpr ⟨fun record member writes => ?_, ?_⟩
  · obtain ⟨entry, _, rfl⟩ := List.mem_map.mp member
    cases writes
  · rw [List.filterMap_map]
    exact List.filterMap_eq_nil_iff.mpr fun _ _ => rfl

/-- A stream of method bodies holds no direct patches, so it cannot be taken for another layout. -/
theorem prepare_encodeMethods {hints : Hints} (hooked : hints.hooksCompiler = true)
    {entries : List MethodEntry} (sized : ∀ entry ∈ entries, entry.code.length < countLimit)
    (targetLength : Nat) :
    prepare hints
        (MethodStream.mask hints.maskKey (MethodStream.encodeMethods 0 [] entries)) image
        targetLength =
      .ok (.rvaIndexSize, entries.map MethodEntry.record, []) := by
  have read := @MethodStream.records_encodeMethods 0 [] entries (by decide) sized
  rw [List.map_nil, List.nil_append] at read
  simp only [prepare, MethodStream.mask_mask,
    MethodStream.detect_encodeMethods hooked sized, read, resolveWrites_methods, bind,
    Except.bind]
  rfl

/-- What a fresh engine makes of a masked stream of hits. -/
theorem apply_hits {hints : Hints} (hooked : hints.hooksCompiler = true)
    (hits : List (Hit (AddressIndex.build image) image target))
    (sized : ∀ hit ∈ hits, hit.entry.code.length < countLimit) :
    (ofHints hints).apply
        (MethodStream.mask hints.maskKey
          (MethodStream.encodeMethods 0 [] (hits.map Hit.entry))) image target =
      ⟨.ok ⟨.rvaIndexSize, hits.foldl (fun table hit => table.add hit.method) .empty, 0, []⟩,
        target,
        { (ofHints hints).refresh image with
          kept := (hits.map Hit.resolved).foldl keepEntry .empty }⟩ := by
  have sized' : ∀ entry ∈ hits.map Hit.entry, entry.code.length < countLimit := by
    intro entry member
    obtain ⟨hit, inside, rfl⟩ := List.mem_map.mp member
    exact sized hit inside
  have prepared := @prepare_encodeMethods image hints hooked _ sized' target.length
  rw [List.map_map] at prepared
  have chain : CollectsAll ((ofHints hints).index image) image (Overwrite.applyAll [] target)
      (hits.map (MethodEntry.record ∘ Hit.entry)) ⟨(ofHints hints).kept, .empty, []⟩
      ⟨(hits.map Hit.resolved).foldl keepEntry .empty,
        hits.foldl (fun table hit => table.add hit.method) .empty, []⟩ :=
    collectsAll_hits hits ⟨.empty, .empty, []⟩
  exact @apply_of_collectsAll image target (ofHints hints) _ _ _ _ _ prepared chain

private theorem kept_hits {hits : List (Hit index image target)}
    (hold : ∀ hit ∈ hits, nativeIndexBase ≤ hit.entry.index ∧ IsOpaque hit.entry.code)
    (table : OpaqueTable) :
    (hits.map Hit.resolved).foldl keepEntry table =
      (hits.map fun hit => (hit.row.token.value, hit.entry.code)).foldl
        (fun map entry => map.insert entry.1 entry.2) table := by
  induction hits generalizing table with
  | nil => rfl
  | cons hit rest ih =>
      obtain ⟨native, opaqueCode⟩ := hold hit List.mem_cons_self
      have kept : hit.resolved.isKept := by
        simp only [Resolved.isKept, isKept, Hit.resolved, Bool.and_eq_true, beq_iff_eq]
        exact ⟨decide_eq_true native, opaqueCode.classified⟩
      have first : keepEntry table hit.resolved =
          table.insert hit.row.token.value hit.entry.code := if_pos kept
      simp only [List.map_cons, List.foldl_cons, first]
      exact ih (fun later member => hold later (List.mem_cons_of_mem _ member)) _

/-- Hits in token order fill the tables of a fresh engine one after the other. -/
theorem tables_of_hits {hits : List (Hit index image target)} {methods : List (Token × Bytes)}
    (same : (hits.map fun hit => (hit.row.token, hit.entry.code)) = methods)
    (ordered : methods.Pairwise fun left right => left.1.value < right.1.value)
    (hold : ∀ hit ∈ hits, nativeIndexBase ≤ hit.entry.index ∧ IsOpaque hit.entry.code) :
    OpaqueTable.toList ((hits.map Hit.resolved).foldl keepEntry .empty) = methods ∧
      (hits.foldl (fun table hit => MethodTable.add table hit.method) .empty).entries =
        hits.map fun hit => (hit.row.token.value, hit.method) := by
  subst same
  rw [List.pairwise_map] at ordered
  constructor
  · have entries := WordMap.entries_ofList (List.pairwise_map.mpr ordered :
      (hits.map fun hit => (hit.row.token.value, hit.entry.code)).Pairwise
        fun left right => left.1 < right.1)
    rw [kept_hits hold, ← WordMap.ofList, OpaqueTable.toList, entries, List.map_map]
    rfl
  · have entries := WordMap.entries_ofList (List.pairwise_map.mpr ordered :
      (hits.map fun hit => (hit.row.token.value, hit.method)).Pairwise
        fun left right => left.1 < right.1)
    rw [WordMap.ofList, List.foldl_map] at entries
    have added : ∀ (table : MethodTable) (hit : Hit index image target),
        table.add hit.method = table.insert hit.row.token.value hit.method := by
      intro table hit
      rw [MethodTable.add, (recoverMethod_parts hit.recovered).1]
    simp only [added]
    exact entries

/-! ## Writing back -/

theorem reEncrypt_eq_ok {engine : PatchEngine} {output rewritten : Image}
    {context : ResourceContext} {count : Nat}
    (written : engine.reEncrypt output context = .ok (count, rewritten)) (positive : 0 < count) :
    ∃ stream encrypted slot,
      engine.kept.serialize output = .ok (some (stream, count)) ∧
        context.encrypt (MethodStream.mask engine.hints.maskKey stream) = .ok encrypted ∧
        output.resourceSlot? context.name = some slot ∧ encrypted.length = slot.length ∧
        rewritten = output.write slot.offset encrypted := by
  cases OutputWriter.reEncrypt_outcome engine context output with
  | failed error kept =>
      rw [OutputWriter.copy_of_error kept] at written
      cases written
  | idle kept =>
      rw [OutputWriter.copy_of_ok kept] at written
      cases written
      cases positive
  | filled stream encrypted count' slot serialized encryption found fills filled =>
      rw [OutputWriter.copy_of_ok filled] at written
      cases written
      exact ⟨stream, encrypted, slot, serialized, encryption, found, fills, rfl⟩

/-- The filled slot decrypts to what was encrypted into it. -/
theorem decrypt_write {output : Image} {context : ResourceContext} {slot : ResourceLocation}
    {plain encrypted : Bytes} (uncompressed : context.compression = .none)
    (encryption : context.encrypt plain = .ok encrypted)
    (found : output.resourceSlot? context.name = some slot)
    (fills : encrypted.length = slot.length) :
    Resource.decrypt (output.write slot.offset encrypted) context = .ok (some (slot, plain)) := by
  obtain ⟨located, fits⟩ := Image.resourceSlot?_eq_some found
  have stored := Image.resourceData?_write fills fits found
  have located' : (output.write slot.offset encrypted).resource? context.name = some slot := located
  have decryption : context.decrypt encrypted = .ok plain := by
    rw [ResourceContext.decrypt, CipherKind.decrypt_of_encrypt encryption, uncompressed]
    rfl
  simp only [Resource.decrypt, Resource.find, located', stored, decryption, bind, Except.bind]
  rfl

/-- The kept methods survive a write-back. Where the code addresses of the output differ and the
slot leaves its headers and the surviving records alone, the new slot decrypts to a stream that a
fresh engine with the same hints applies to a copy of the output without writes and without
misses. It recovers the surviving methods, each with the placeholder as its code, and keeps what
the engine kept of them. -/
theorem apply_of_reEncrypt {engine : PatchEngine} (served : Served engine)
    (hooked : engine.hints.hooksCompiler = true) {output rewritten : Image}
    {context : ResourceContext} {count : Nat} (uncompressed : context.compression = .none)
    (distinct : (codeAddresses output).Nodup)
    (apart : ∀ slot, output.resourceSlot? context.name = some slot →
      SlotApart engine.kept output slot)
    (written : engine.reEncrypt output context = .ok (count, rewritten)) (positive : 0 < count) :
    ∃ slot stream methods restored,
      Resource.decrypt rewritten context = .ok (some (slot, stream)) ∧
        (ofHints engine.hints).apply stream rewritten rewritten.data =
          ⟨.ok ⟨.rvaIndexSize, methods, 0, []⟩, rewritten.data, restored⟩ ∧
        count = (engine.kept.surviving output).length ∧
        (methods.entries.map fun entry => (entry.1, entry.2.token, entry.2.body.code)) =
          ((engine.kept.surviving output).map fun method =>
            (method.1.value, method.1, NativeStub.placeholder)) ∧
        restored.kept.toList = engine.kept.surviving output := by
  obtain ⟨stream, encrypted, slot, serialized, encryption, found, fills, rfl⟩ :=
    reEncrypt_eq_ok written positive
  obtain ⟨entries, rfl, counted, pairs⟩ := OpaqueTable.serialize_eq_ok serialized
  obtain ⟨_, fits⟩ := Image.resourceSlot?_eq_some found
  obtain ⟨hits, survivors, rfl, hold⟩ :=
    exists_hits served.allOpaque distinct (apart slot found) fills fits pairs
  have applied := apply_hits hooked hits fun hit member => (hold hit member).2.sized
  obtain ⟨kept, methods⟩ :=
    tables_of_hits survivors (OpaqueTable.ordered_surviving engine.kept output) hold
  refine ⟨slot, _, _, _, decrypt_write uncompressed encryption found fills, applied, counted, ?_,
    kept⟩
  rw [methods, ← survivors, List.map_map, List.map_map]
  refine List.map_congr_left fun hit member => ?_
  obtain ⟨native, opaqueCode⟩ := hold hit member
  obtain ⟨token, code⟩ := recoverMethod_parts hit.recovered
  simp only [Function.comp_apply, token, code, managedCode_of_native native opaqueCode]

/-- A tiny method at address 1, a fat one at address 4 and a slot of 40 bytes behind them. -/
private def twoMethods : Image :=
  ⟨[0x00, 0x0A, 0x17, 0x2A, 0x03, 0x30, 8, 0, 1, 0, 0, 0, 0, 0, 0, 0, 0x2A, 0, 0, 0] ++
    Bytes.zeros 40, [], [1, 4], [("bodies", ⟨20, 40⟩)], 0⟩

private def twoHints : Hints := ⟨true, false, 0x0123456789ABCDEF⟩

private def twoStream : Bytes :=
  MethodStream.mask twoHints.maskKey (MethodStream.encodeMethods 0 []
    [⟨2, nativeIndexBase, [0x90, 0xC3]⟩, ⟨16, nativeIndexBase, [0xF4]⟩])

private def twoEngine : PatchEngine :=
  ((ofHints twoHints).apply twoStream twoMethods twoMethods.data).engine

private def twoContext : ResourceContext :=
  ⟨"bodies", .des, [1, 2, 3, 4, 5, 6, 7, 8], [8, 7, 6, 5, 4, 3, 2, 1], none, none, .none⟩

private theorem two_apart {slot : ResourceLocation}
    (found : twoMethods.resourceSlot? twoContext.name = some slot) :
    SlotApart twoEngine.kept twoMethods slot := by
  have behind : ∀ {start length : Nat}, start + length ≤ 20 → slot.Avoids start length := by
    intro start length before position covered _
    cases found
    exact .inr (Nat.le_trans before covered)
  constructor
  · intro row member _ start located
    have heads : ∀ row ∈ twoMethods.rows, ∀ start ∈ twoMethods.offset? row.address,
        start + 2 ≤ 20 := by decide
    exact behind (heads row member start located)
  · intro method member written start found located
    have ends : ∀ method ∈ twoEngine.kept.surviving twoMethods,
        ∀ written ∈ twoMethods.methodBody? method.1, ∀ start ∈ twoMethods.offset? written.address,
          start + written.record.length ≤ 20 := by decide
    exact behind (ends method member written found start located)

theorem apply_of_reEncrypt_two :
    ∃ rewritten, twoEngine.reEncrypt twoMethods twoContext = .ok (2, rewritten) ∧
      ∃ slot stream methods restored,
        Resource.decrypt rewritten twoContext = .ok (some (slot, stream)) ∧
          (ofHints twoHints).apply stream rewritten rewritten.data =
            ⟨.ok ⟨.rvaIndexSize, methods, 0, []⟩, rewritten.data, restored⟩ ∧
          restored.kept.toList = [(⟨0x06000001⟩, [0x90, 0xC3]), (⟨0x06000002⟩, [0xF4])] := by
  have survivors : twoEngine.kept.surviving twoMethods =
      [(⟨0x06000001⟩, [0x90, 0xC3]), (⟨0x06000002⟩, [0xF4])] := rfl
  have counted : (twoEngine.reEncrypt twoMethods twoContext).toOption.map Prod.fst = some 2 := by
    decide +kernel
  cases written : twoEngine.reEncrypt twoMethods twoContext with
  | error error =>
      rw [written] at counted
      cases counted
  | ok result =>
      obtain ⟨count, rewritten⟩ := result
      rw [written] at counted
      cases counted
      obtain ⟨slot, stream, methods, restored, decrypted, applied, _, _, kept⟩ :=
        apply_of_reEncrypt (.apply (.fresh twoHints) twoStream twoMethods twoMethods.data) rfl rfl
          (by decide) (fun _ => two_apart) written (by decide)
      exact ⟨rewritten, rfl, slot, stream, methods, restored, decrypted, applied,
        kept.trans survivors⟩

end CilRecovery.PatchEngine
