import CilRecovery.MethodStream
import CilRecovery.Proofs.Bytes
import CilRecovery.Proofs.Reader.Accepts

/-!
# Masks and layouts

A mask takes itself off again, and a stream of method bodies reads back as what was written.
-/

set_option autoImplicit false

namespace CilRecovery.MethodStream

/-! ## Masking twice restores a stream -/

/-- Whole groups, each of them masked, and what is left over. -/
private theorem mask_groups (key : UInt64) {groups : List Bytes} {rest : Bytes}
    (sized : ∀ group ∈ groups, group.length = 8) (short : rest.length < 8) :
    mask key (groups.flatten ++ rest) =
      (groups.map (·.xor (bytesOfUInt64 key))).flatten ++ rest := by
  have length : (groups.flatten ++ rest).length / 8 * 8 = groups.flatten.length := by
    rw [List.length_append, Bytes.length_flatten sized]
    omega
  rw [mask, Bytes.chunks_flatten sized short, length, List.drop_left]

private theorem groups_of (data : Bytes) :
    (data.chunks 8).flatten ++ data.drop (data.length / 8 * 8) = data := by
  rw [Bytes.flatten_chunks, List.take_append_drop]

private theorem short_rest (data : Bytes) : (data.drop (data.length / 8 * 8)).length < 8 := by
  rw [List.length_drop]
  omega

private theorem masked_sized (key : UInt64) {groups : List Bytes}
    (sized : ∀ group ∈ groups, group.length = 8) :
    ∀ group ∈ groups.map (·.xor (bytesOfUInt64 key)), group.length = 8 := by
  intro masked member
  obtain ⟨group, inside, rfl⟩ := List.mem_map.mp member
  have size := sized group inside
  rw [Bytes.length_xor (Nat.le_of_eq (by rw [size, length_bytesOfUInt64])), size]

@[simp] theorem length_mask (key : UInt64) (data : Bytes) :
    (mask key data).length = data.length := by
  have sized : ∀ group ∈ data.chunks 8, group.length = 8 :=
    fun _ member => Bytes.length_of_mem_chunks member
  have masked := masked_sized key sized
  conv => rhs; rw [← groups_of data, List.length_append, Bytes.length_flatten sized]
  rw [mask, List.length_append, Bytes.length_flatten masked, List.length_map]

/-- Any length: what does not fill a group is left alone both times. -/
@[simp] theorem mask_mask (key : UInt64) (data : Bytes) : mask key (mask key data) = data := by
  have sized : ∀ group ∈ data.chunks 8, group.length = 8 :=
    fun _ member => Bytes.length_of_mem_chunks member
  have undone : ((data.chunks 8).map (·.xor (bytesOfUInt64 key))).map
      (·.xor (bytesOfUInt64 key)) = data.chunks 8 := by
    rw [List.map_map]
    conv => rhs; rw [← List.map_id (data.chunks 8)]
    refine List.map_congr_left fun group member => Bytes.xor_xor (Nat.le_of_eq ?_)
    rw [sized group member, length_bytesOfUInt64]
  calc mask key (mask key data)
    _ = (((data.chunks 8).map (·.xor (bytesOfUInt64 key))).map
          (·.xor (bytesOfUInt64 key))).flatten ++ data.drop (data.length / 8 * 8) :=
        mask_groups key (masked_sized key sized) (short_rest data)
    _ = (data.chunks 8).flatten ++ data.drop (data.length / 8 * 8) := by rw [undone]
    _ = data := groups_of data

/-!
## Reading back a stream of method bodies

The records of a written stream are what was written, as long as no size has its sign bit set, and
a stream without dword patches is told apart from the other layouts.
-/

open Reader (Reads)

def countLimit : Nat := 0x80000000

def MethodEntry.record (entry : MethodEntry) : Record :=
  .method entry.codeAddress entry.index entry.code

def Dword.record (dword : Dword) : Record := .dword dword.address dword.value

/-! ### Counts -/

theorem decode_encodeCount {count : Nat} (small : count < countLimit) :
    WordKind.decode .i32 (encodeCount count) = count := by
  have capacity : LittleEndian.capacity 4 = 0x100000000 := rfl
  have range : WordKind.range .i32 = 0x100000000 := rfl
  have raw : LittleEndian.decode (encodeCount count) = count := by
    unfold countLimit at small
    rw [encodeCount, LittleEndian.decode_encode, capacity, Nat.mod_eq_of_lt (by omega)]
  have positive : ¬ WordKind.range .i32 ≤ 2 * count := by
    unfold countLimit at small
    rw [range]
    omega
  simp [WordKind.decode, WordKind.interpret, raw, positive]

theorem reads_count (counter : Counter) {count : Nat} (small : count < countLimit) :
    Reads (Reader.count counter) (encodeCount count) count := by
  have word := Reads.word .i32 (LittleEndian.length_encode 4 count)
  rw [← encodeCount, decode_encodeCount small] at word
  exact word.last rfl

/-! ### Records -/

theorem reads_dword (dword : Dword) :
    Reads readDword (bytesOfUInt32 dword.address ++ bytesOfUInt32 dword.value) dword.record := by
  unfold readDword
  exact (Reads.uint32 dword.address).bind ((Reads.uint32 dword.value).last rfl)

theorem reads_method {entry : MethodEntry} (small : entry.code.length < countLimit) :
    Reads readMethod entry.encode [entry.record] := by
  unfold readMethod
  simp only [MethodEntry.encode, List.append_assoc]
  exact (Reads.uint32 entry.codeAddress).bind ((Reads.uint32 entry.index).bind
    ((reads_count .methodSize small).bind ((Reads.take entry.code).last rfl)))

theorem length_encode_method (entry : MethodEntry) :
    entry.encode.length = 12 + entry.code.length := by
  simp [MethodEntry.encode, encodeCount]
  omega

/-! ### Streams -/

theorem readWhileLeft_succ (reader : Reader (List Record)) (fuel : Nat)
    (cursor : Cursor) :
    readWhileLeft reader (fuel + 1) cursor =
      if 1 < cursor.buffer.length - cursor.position then
        (reader >>= fun first => readWhileLeft reader fuel >>= fun others =>
          pure (first ++ others)) cursor
      else .ok [] cursor := by
  change (if 1 < cursor.buffer.length - cursor.position then _ else _ : Reader _) cursor = _
  split <;> rfl

/-- Items up to the end of the buffer. Each has at least two bytes, so the loop stops behind the
last one. -/
theorem readWhileLeft_items {ι : Type} {reader : Reader (List Record)} {encode : ι → Bytes}
    {value : ι → List Record} {items : List ι}
    (reads : ∀ item ∈ items, Reads reader (encode item) (value item))
    (long : ∀ item ∈ items, 1 < (encode item).length) {fuel : Nat} (enough : items.length ≤ fuel)
    (before : Bytes) :
    readWhileLeft reader fuel ⟨before ++ items.flatMap encode, before.length⟩ =
      .ok (items.flatMap value)
        ⟨before ++ items.flatMap encode, (before ++ items.flatMap encode).length⟩ := by
  induction items generalizing fuel before with
  | nil =>
      rw [List.flatMap_nil, List.flatMap_nil, List.append_nil]
      cases fuel with
      | zero => rfl
      | succ fuel => rw [readWhileLeft_succ, if_neg (by simp)]
  | cons item rest ih =>
      cases fuel with
      | zero => cases enough
      | succ fuel =>
          have size := long item List.mem_cons_self
          have others := ih (fun other member => reads other (List.mem_cons_of_mem _ member))
            (fun other member => long other (List.mem_cons_of_mem _ member))
            (Nat.le_of_succ_le_succ enough) (before ++ encode item)
          rw [List.flatMap_cons, List.flatMap_cons, readWhileLeft_succ, if_pos (by simp; omega),
            (reads item List.mem_cons_self).step before]
          refine EState.bind_eq_ok.mpr ⟨_, _, others, ?_⟩
          rw [List.append_assoc]
          rfl

private theorem length_le_flatMap {ι : Type} {encode : ι → Bytes} {items : List ι}
    (long : ∀ item ∈ items, 1 < (encode item).length) :
    items.length ≤ (items.flatMap encode).length := by
  induction items with
  | nil => exact Nat.le_refl 0
  | cons item rest ih =>
      have size := long item List.mem_cons_self
      have others := ih fun other member => long other (List.mem_cons_of_mem _ member)
      rw [List.flatMap_cons, List.length_append, List.length_cons]
      omega

/-- The number of items is not stored. They end where fewer than two bytes are left. -/
theorem readsToEnd_items {ι : Type} {reader : Reader (List Record)} {encode : ι → Bytes}
    {value : ι → List Record} {items : List ι}
    (reads : ∀ item ∈ items, Reads reader (encode item) (value item))
    (long : ∀ item ∈ items, 1 < (encode item).length) (patches : List Record) :
    Reader.ReadsToEnd
      (Reader.left >>= fun fuel => readWhileLeft reader fuel >>= fun found =>
        (pure (patches ++ found) : Reader (List Record)))
      (items.flatMap encode) (patches ++ items.flatMap value) := by
  intro before
  refine ⟨_, EState.bind_eq_ok.mpr ⟨_, _, rfl, EState.bind_eq_ok.mpr ⟨_, _,
    readWhileLeft_items reads long ?_ before, rfl⟩⟩⟩
  rw [List.length_append, Nat.add_sub_cancel_left]
  exact length_le_flatMap long

/-- The records of a stream of method bodies, in order. Its count of methods is not looked at. -/
theorem records_methods (mode : UInt32) {dwords : List Dword} {total : Bytes}
    {entries : List MethodEntry} (few : dwords.length < countLimit) (word : total.length = 4)
    (small : ∀ entry ∈ entries, entry.code.length < countLimit) :
    records .rvaIndexSize (encodeCount dwords.length ++ bytesOfUInt32 mode ++ encodeDwords dwords ++
        total ++ entries.flatMap MethodEntry.encode) =
      .ok (dwords.map Dword.record ++ entries.map MethodEntry.record) := by
  have long : ∀ entry ∈ entries, 1 < (MethodEntry.encode entry).length := by
    intro entry _
    rw [length_encode_method]
    omega
  have patches : Reads (Reader.times readDword dwords.length) (encodeDwords dwords)
      (dwords.map Dword.record) := .times fun dword _ => reads_dword dword
  have bodies := readsToEnd_items (fun entry member => reads_method (small entry member)) long
    (dwords.map Dword.record)
  rw [← List.map_eq_flatMap] at bodies
  simp only [List.append_assoc]
  refine Reader.ReadsToEnd.decode ?_
  change Reader.ReadsToEnd (Reader.count .patches >>= fun count => Reader.word .i32 >>= fun _ =>
    Reader.times readDword count >>= fun patches => Reader.word .i32 >>= fun _ =>
    Reader.left >>= fun fuel => readWhileLeft readMethod fuel >>= fun methods =>
      (pure (patches ++ methods) : Reader (List Record))) _ _
  exact (reads_count .patches few).toEnd ((Reads.word .i32 (length_bytesOfUInt32 mode)).toEnd
    (patches.toEnd ((Reads.word .i32 word).toEnd bodies)))

theorem records_encodeMethods (mode : UInt32) {dwords : List Dword} {entries : List MethodEntry}
    (few : dwords.length < countLimit)
    (small : ∀ entry ∈ entries, entry.code.length < countLimit) :
    records .rvaIndexSize (encodeMethods mode dwords entries) =
      .ok (dwords.map Dword.record ++ entries.map MethodEntry.record) :=
  records_methods mode few (LittleEndian.length_encode 4 entries.length) small

/-- A stream of method bodies without dword patches is of the layout that names methods by
address and index, where the compiler is hooked. -/
theorem detect_encodeMethods {hints : Hints} (hooked : hints.hooksCompiler = true)
    {entries : List MethodEntry} (small : ∀ entry ∈ entries, entry.code.length < countLimit) :
    detect (encodeMethods 0 [] entries) hints = .ok .rvaIndexSize := by
  have read := @records_encodeMethods 0 [] entries (by decide) small
  have header : readHeader.decode (encodeMethods 0 [] entries) = .ok (0, 0) := rfl
  have suggested : suggest (encodeMethods 0 [] entries) hints 0 0 = .rvaIndexSize := by
    simp [suggest, hasTokenTable, directMode, hooked]
  simp only [detect, header, bind, Except.bind, suggested, read]
  rfl

end CilRecovery.MethodStream
