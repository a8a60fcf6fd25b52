import CilRecovery.Proofs.Bytes
import CilRecovery.Proofs.MethodStream.Grammar

/-!
# The dry run of a method stream

A layout is read without any effect before it is trusted. The dry run accepts exactly the streams of
the grammar, with their records, and refuses every other one with the flaw that it comes to first.
The data of the records are slices of the stream, one behind the other.
-/

set_option autoImplicit false

namespace CilRecovery.MethodStream

open Reader (Accepts Fails Flaw)

/-! ## Items up to the end -/

section Loop

variable {reader : Reader (List Record)} {form : Bytes → List Record → Prop} {flaw : Flaw}

private theorem readWhileLeft_end {stray : Bytes} (few : stray.length ≤ 1) (fuel : Nat)
    (before : Bytes) :
    readWhileLeft reader fuel ⟨before ++ stray, before.length⟩ =
      .ok [] ⟨before ++ stray, before.length⟩ := by
  cases fuel with
  | zero => rfl
  | succ fuel =>
      rw [readWhileLeft_succ, List.length_append, Nat.add_sub_cancel_left,
        if_neg (Nat.not_lt.mpr few)]

private theorem readWhileLeft_flawed (fails : Fails reader flaw) {rest : Bytes} {error : Error}
    (more : 1 < rest.length) (flawed : flaw rest error) {fuel : Nat} (enough : rest.length ≤ fuel)
    (before : Bytes) :
    ∃ moved, readWhileLeft reader fuel ⟨before ++ rest, before.length⟩ = .error error moved := by
  obtain ⟨moved, failed⟩ := (fails before rest error).mpr flawed
  cases fuel with
  | zero => omega
  | succ fuel =>
      rw [readWhileLeft_succ, List.length_append, Nat.add_sub_cancel_left, if_pos more]
      exact ⟨moved, EState.bind_of_error failed⟩

private theorem bind_of_same {α β : Type} {left right : Reader α} {next : α → Reader β}
    {cursor cursor' : Cursor} (same : left cursor = right cursor') :
    (left >>= next) cursor = (right >>= next) cursor' := by
  change EStateM.bind left next cursor = EStateM.bind right next cursor'
  rw [EStateM.bind, EStateM.bind, same]

/-- The loop goes over complete items and then does what it does on the rest. -/
private theorem readWhileLeft_behind (accepts : Accepts reader fun _ => form)
    (long : ∀ span found, form span found → 1 < span.length) {items : Bytes} {found : List Record}
    (repeated : Repeated form items found) (after : Bytes) {fuel : Nat}
    (enough : (items ++ after).length ≤ fuel) (before : Bytes) :
    ∃ fuel', after.length ≤ fuel' ∧
      readWhileLeft reader fuel ⟨before ++ (items ++ after), before.length⟩ =
        (readWhileLeft reader fuel' >>= fun others => pure (found ++ others))
          ⟨(before ++ items) ++ after, (before ++ items).length⟩ := by
  induction repeated generalizing fuel before with
  | nil =>
      refine ⟨fuel, enough, ?_⟩
      simp only [List.nil_append, List.append_nil, bind_pure]
  | @cons span rest first others formed repeated ih =>
      have two := long span first formed
      rw [List.append_assoc, List.length_append] at enough
      cases fuel with
      | zero => omega
      | succ fuel =>
          have fewer : (rest ++ after).length ≤ fuel := by omega
          obtain ⟨fuel', enough', same⟩ := ih fewer (before ++ span)
          refine ⟨fuel', enough', ?_⟩
          have read := accepts.reads before formed (rest ++ after)
          rw [← List.append_assoc before, ← List.length_append] at read
          have more : 1 < (before ++ (span ++ rest ++ after)).length - before.length := by
            rw [List.length_append, List.append_assoc, List.length_append]
            omega
          rw [readWhileLeft_succ, if_pos more, List.append_assoc span, ← List.append_assoc before,
            EState.bind_of_ok read, bind_of_same same]
          simp only [bind_assoc, pure_bind, List.append_assoc]

/-- Whatever is left are complete items and then at most one byte, or an item with a flaw. -/
private theorem exists_repeated (accepts : Accepts reader fun _ => form)
    (fails : Fails reader flaw) (long : ∀ span found, form span found → 1 < span.length)
    (rest : Bytes) :
    ∃ items after found, rest = items ++ after ∧ Repeated form items found ∧
      (after.length ≤ 1 ∨ 1 < after.length ∧ ∃ error, flaw after error) := by
  induction size : rest.length using Nat.strongRecOn generalizing rest with
  | ind size' ih =>
      subst size
      by_cases more : 1 < rest.length
      · cases read : reader ⟨[] ++ rest, [].length⟩ with
        | ok first moved =>
            obtain ⟨span, others, rfl, formed, -⟩ := (accepts [] rest first moved).mp read
            have two := long span first formed
            have fewer : others.length < (span ++ others).length := by
              rw [List.length_append]
              omega
            obtain ⟨items, after, found, rfl, repeated, outcome⟩ := ih _ fewer others rfl
            exact ⟨span ++ items, after, first ++ found, (List.append_assoc _ _ _).symm,
              .cons formed repeated, outcome⟩
        | error error moved =>
            have flawed := (fails [] rest error).mp ⟨moved, read⟩
            exact ⟨[], rest, [], rfl, .nil, .inr ⟨more, error, flawed⟩⟩
      · exact ⟨[], rest, [], rfl, .nil, .inl (Nat.not_lt.mp more)⟩

variable (accepts : Accepts reader fun _ => form) (fails : Fails reader flaw)
  (long : ∀ span found, form span found → 1 < span.length)

include accepts long

private theorem readWhileLeft_repeated {items stray : Bytes} {found : List Record}
    (repeated : Repeated form items found) (few : stray.length ≤ 1) {fuel : Nat}
    (enough : (items ++ stray).length ≤ fuel) (before : Bytes) :
    ∃ moved, readWhileLeft reader fuel ⟨before ++ (items ++ stray), before.length⟩ =
      .ok found moved := by
  obtain ⟨fuel', -, same⟩ := readWhileLeft_behind accepts long repeated stray enough before
  refine ⟨⟨(before ++ items) ++ stray, (before ++ items).length⟩, ?_⟩
  rw [same, EState.bind_of_ok (readWhileLeft_end few fuel' _), List.append_nil]
  rfl

include fails

private theorem readWhileLeft_fails {items after : Bytes} {found : List Record} {error : Error}
    (repeated : Repeated form items found) (more : 1 < after.length) (flawed : flaw after error)
    {fuel : Nat} (enough : (items ++ after).length ≤ fuel) (before : Bytes) :
    ∃ moved, readWhileLeft reader fuel ⟨before ++ (items ++ after), before.length⟩ =
      .error error moved := by
  obtain ⟨fuel', enough', same⟩ := readWhileLeft_behind accepts long repeated after enough before
  obtain ⟨moved, failed⟩ := readWhileLeft_flawed fails more flawed enough' (before ++ items)
  exact ⟨moved, same.trans (EState.bind_of_error failed)⟩

/-- A stray byte at the end is no error. As many runs as bytes are enough, since an item takes at
least two. -/
theorem readWhileLeft_eq_ok {rest : Bytes} {fuel : Nat} (enough : rest.length ≤ fuel)
    (before : Bytes) (found : List Record) :
    (∃ moved, readWhileLeft reader fuel ⟨before ++ rest, before.length⟩ = .ok found moved) ↔
      ∃ items stray, rest = items ++ stray ∧ Repeated form items found ∧ stray.length ≤ 1 := by
  constructor
  · rintro ⟨moved, read⟩
    obtain ⟨items, after, found', rfl, repeated, few | ⟨more, error, flawed⟩⟩ :=
      exists_repeated accepts fails long rest
    · obtain ⟨moved', read'⟩ := readWhileLeft_repeated accepts long repeated few enough before
      rw [read] at read'
      cases read'
      exact ⟨items, after, rfl, repeated, few⟩
    · obtain ⟨moved', failed⟩ :=
        readWhileLeft_fails accepts fails long repeated more flawed enough before
      rw [read] at failed
      cases failed
  · rintro ⟨items, stray, rfl, repeated, few⟩
    exact readWhileLeft_repeated accepts long repeated few enough before

/-- The first flaw behind complete items is the one that is reported. -/
theorem readWhileLeft_eq_error {rest : Bytes} {fuel : Nat} (enough : rest.length ≤ fuel)
    (before : Bytes) (error : Error) :
    (∃ moved, readWhileLeft reader fuel ⟨before ++ rest, before.length⟩ = .error error moved) ↔
      ∃ items after found, rest = items ++ after ∧ Repeated form items found ∧ 1 < after.length ∧
        flaw after error := by
  constructor
  · rintro ⟨moved, failed⟩
    obtain ⟨items, after, found, rfl, repeated, few | ⟨more, error', flawed⟩⟩ :=
      exists_repeated accepts fails long rest
    · obtain ⟨moved', read⟩ := readWhileLeft_repeated accepts long repeated few enough before
      rw [failed] at read
      cases read
    · obtain ⟨moved', failed'⟩ :=
        readWhileLeft_fails accepts fails long repeated more flawed enough before
      rw [failed] at failed'
      cases failed'
      exact ⟨items, after, found, rfl, repeated, more, flawed⟩
  · rintro ⟨items, after, found, rfl, repeated, more, flawed⟩
    exact readWhileLeft_fails accepts fails long repeated more flawed enough before

end Loop

/-! ## Streams -/

def readItems (format : Format) : Reader (List Record) := do
  readWhileLeft (readItem format) (← Reader.left)

theorem readRecords_eq (format : Format) :
    readRecords format = do
      let patches ← readFront format
      let others ← readItems format
      return patches ++ others := by
  cases format <;>
    simp only [readRecords, readFront, readItems, readItem, bind_assoc, pure_bind]

private theorem readItems_at (format : Format) (before rest : Bytes) :
    readItems format ⟨before ++ rest, before.length⟩ =
      readWhileLeft (readItem format) rest.length ⟨before ++ rest, before.length⟩ := by
  have left : (before ++ rest).length - before.length = rest.length := by
    rw [List.length_append, Nat.add_sub_cancel_left]
  rw [← left]
  rfl

theorem readItems_eq_ok {format : Format} {before rest : Bytes} {found : List Record} :
    (∃ moved, readItems format ⟨before ++ rest, before.length⟩ = .ok found moved) ↔
      ∃ items stray, rest = items ++ stray ∧ Repeated (IsItem format) items found ∧
        stray.length ≤ 1 := by
  rw [readItems_at]
  exact readWhileLeft_eq_ok (accepts_item format) (fails_item format) (fun _ _ => IsItem.long)
    (Nat.le_refl _) before found

theorem fails_items (format : Format) :
    Fails (readItems format) fun rest error =>
      ∃ items after found, rest = items ++ after ∧ Repeated (IsItem format) items found ∧
        1 < after.length ∧ itemFlaw format after error := by
  intro before rest error
  rw [readItems_at]
  exact readWhileLeft_eq_error (accepts_item format) (fails_item format) (fun _ _ => IsItem.long)
    (Nat.le_refl _) before error

theorem records_eq_ok {format : Format} {stream : Bytes} {found : List Record} :
    records format stream = .ok found ↔ IsStream format stream found := by
  rw [records, Reader.decode_eq_ok, readRecords_eq]
  constructor
  · intro ⟨moved, read⟩
    obtain ⟨patches, middle, read, rest⟩ := EState.bind_eq_ok.mp read
    obtain ⟨front, after, rfl, fixed, rfl⟩ :=
      (accepts_front format [] stream patches middle).mp read
    obtain ⟨others, stopped, looped, last⟩ := EState.bind_eq_ok.mp rest
    cases last
    rw [List.nil_append, List.length_nil, Nat.zero_add] at looped
    obtain ⟨items, stray, rfl, repeated, few⟩ := readItems_eq_ok.mp ⟨_, looped⟩
    exact ⟨front, items, stray, patches, others, (List.append_assoc _ _ _).symm, fixed, repeated,
      few, rfl⟩
  · intro ⟨front, items, stray, patches, others, split, fixed, repeated, few, joined⟩
    subst split joined
    obtain ⟨moved, looped⟩ := readItems_eq_ok.mpr ⟨items, stray, rfl, repeated, few⟩
    have read := (accepts_front format).reads [] fixed (items ++ stray)
    rw [List.nil_append, ← List.append_assoc, List.length_nil, Nat.zero_add] at read
    rw [← List.append_assoc front] at looped
    exact ⟨moved, EState.bind_eq_ok.mpr ⟨patches, _, read, EState.bind_eq_ok.mpr
      ⟨others, moved, looped, rfl⟩⟩⟩

theorem records_eq_error {format : Format} {stream : Bytes} {error : Error} :
    records format stream = .error error ↔ IsFlawed format stream error := by
  have fails : Fails (readRecords format) (IsFlawed format) := by
    rw [readRecords_eq]
    refine (Fails.bind (accepts_front format) (fails_front format) fun patches =>
      Fails.last (fails_items format) (patches ++ ·)).congr fun rest error => or_congr_right ?_
    constructor
    · intro ⟨front, after, patches, split, fixed, items, others, found, split', flawed⟩
      subst split split'
      exact ⟨front, items, others, patches, found, (List.append_assoc _ _ _).symm, fixed, flawed⟩
    · intro ⟨front, items, others, patches, found, split, fixed, flawed⟩
      subst split
      exact ⟨front, items ++ others, patches, List.append_assoc _ _ _, fixed, items, others, found,
        rfl, flawed⟩
  exact fails.decode stream error

/-! ## Slices -/

def Record.data? : Record → Option Bytes
  | .dword _ _ => none
  | .write _ data => some data
  | .method _ _ code => some code

/-- Slices of the data from a position on, each at or behind the end of the one before it. -/
def LieInOrder (data : Bytes) : (position : Nat) → (pieces : List Bytes) → Prop
  | _, [] => True
  | position, piece :: pieces =>
      ∃ offset, position ≤ offset ∧ data.slice? offset piece.length = some piece ∧
        LieInOrder data (offset + piece.length) pieces

theorem LieInOrder.weaken {data : Bytes} {position position' : Nat} {pieces : List Bytes}
    (lie : LieInOrder data position' pieces) (before : position ≤ position') :
    LieInOrder data position pieces := by
  cases pieces with
  | nil => exact True.intro
  | cons piece pieces =>
      obtain ⟨offset, behind, found, others⟩ := lie
      exact ⟨offset, Nat.le_trans before behind, found, others⟩

private theorem filterMap_dwords (dwords : List Dword) :
    (dwords.map Dword.record).filterMap Record.data? = [] := by
  rw [List.filterMap_map]
  exact List.filterMap_eq_nil_iff.mpr fun _ _ => rfl

/-- What an item asks to be written is its last part. -/
theorem IsItem.data {format : Format} {span : Bytes} {found : List Record}
    (item : IsItem format span found) :
    found.filterMap Record.data? = [] ∨
      ∃ head data, span = head ++ data ∧ found.filterMap Record.data? = [data] := by
  cases item with
  | group tokenLength counted half => exact .inl (filterMap_dwords _)
  | @write address size token word data tokenLength sized dataLength =>
      by_cases positive : 0 < size
      · rw [if_pos positive]
        exact .inr ⟨_, data, rfl, rfl⟩
      · rw [if_neg positive]
        exact .inl rfl
  | @method codeAddress index word code sized => exact .inr ⟨_, code, rfl, rfl⟩

theorem Repeated.lieInOrder {format : Format} {items : Bytes} {found : List Record}
    (repeated : Repeated (IsItem format) items found) (before after : Bytes) :
    LieInOrder (before ++ (items ++ after)) before.length (found.filterMap Record.data?) := by
  induction repeated generalizing before with
  | nil => exact True.intro
  | @cons span rest first others formed repeated ih =>
      have later := ih (before ++ span)
      rw [List.append_assoc, ← List.append_assoc span] at later
      rw [List.filterMap_append]
      rcases formed.data with none | ⟨head, data, rfl, one⟩
      · rw [none, List.nil_append]
        exact later.weaken (List.length_append ▸ Nat.le_add_right _ _)
      · have found := Bytes.slice?_middle (before ++ head) data (rest ++ after)
        rw [one]
        refine ⟨(before ++ head).length, List.length_append ▸ Nat.le_add_right _ _, ?_, ?_⟩
        · simpa only [List.append_assoc] using found
        · rwa [← List.length_append, List.append_assoc before head]

/-- No byte of the stream is handed out twice. -/
theorem IsStream.lieInOrder {format : Format} {stream : Bytes} {found : List Record}
    (complete : IsStream format stream found) :
    LieInOrder stream 0 (found.filterMap Record.data?) := by
  obtain ⟨front, items, stray, patches, others, rfl, fixed, repeated, -, rfl⟩ := complete
  have none : patches.filterMap Record.data? = [] := by
    cases fixed <;> exact filterMap_dwords _
  rw [List.filterMap_append, none, List.nil_append, List.append_assoc]
  exact (repeated.lieInOrder front stray).weaken (Nat.zero_le _)

/-- The dry run accepts the streams of the grammar, refuses every other one with the flaw that it
comes to first, and takes the data of its records from the stream without an overlap. -/
theorem records_iff_grammar (format : Format) (stream : Bytes) :
    (∀ found, records format stream = .ok found ↔ IsStream format stream found) ∧
      (∀ error, records format stream = .error error ↔ IsFlawed format stream error) ∧
      ∀ found, records format stream = .ok found →
        LieInOrder stream 0 (found.filterMap Record.data?) :=
  ⟨fun _ => records_eq_ok, fun _ => records_eq_error,
    fun _ read => (records_eq_ok.mp read).lieInOrder⟩

/-- A dword patch, a direct write, one of negative size and a stray byte. -/
private def directStream : Bytes :=
  [1, 0, 0, 0, 0, 0, 0, 0, 0, 1, 0, 0, 7, 0, 0, 0,
    0, 2, 0, 0, 1, 0, 0, 6, 2, 0, 0, 0, 0x17, 0x2A,
    0, 3, 0, 0, 2, 0, 0, 6, 0xFF, 0xFF, 0xFF, 0xFF, 0]

theorem records_iff_grammar_direct :
    IsStream .rvaTokenSize directStream [.dword 0x100 7, .write 0x200 [0x17, 0x2A]] ∧
      LieInOrder directStream 0 [[0x17, 0x2A]] ∧
      IsFlawed .rvaIndexSize directStream .outOfBounds ∧
      IsFlawed .legacyTokenRva [0xFF, 0xFF, 0xFF, 0xFF] (.malformed (.negative .patches (-1))) := by
  obtain ⟨accepted, -, ordered⟩ := records_iff_grammar .rvaTokenSize directStream
  obtain ⟨-, refused, -⟩ := records_iff_grammar .rvaIndexSize directStream
  obtain ⟨-, negative, -⟩ := records_iff_grammar .legacyTokenRva [0xFF, 0xFF, 0xFF, 0xFF]
  exact ⟨(accepted _).mp rfl, ordered _ rfl, (refused _).mp rfl, (negative _).mp rfl⟩

end CilRecovery.MethodStream
