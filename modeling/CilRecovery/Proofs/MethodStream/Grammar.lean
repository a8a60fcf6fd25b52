import CilRecovery.Proofs.MethodStream.Layout
import CilRecovery.Proofs.Reader.Fails

/-!
# The grammar of a method stream

A stream is a part of fixed form, items up to the end, and at most one stray byte. The dry run of a
layout accepts exactly the streams of its grammar and refuses every other one with the flaw that it
comes to first. What it gives are slices of the stream, one behind the other.
-/

set_option autoImplicit false

namespace CilRecovery.MethodStream

open Reader (Accepts Fails Flaw Short Behind Signed Counted)

/-! ## Layouts -/

/-- The part of fixed form at the start of a stream, with the dword patches in it. -/
inductive IsFront : Format → Bytes → List Record → Prop
  | legacyTokenRva {pairs : Nat} {count mode table secondCount secondMode : Bytes}
      {dwords : List Dword} (counted : IsSigned pairs count) (modeLength : mode.length = 4)
      (tableLength : table.length = 8 * pairs) (secondCounted : IsSigned dwords.length secondCount)
      (secondModeLength : secondMode.length = 4) :
      IsFront .legacyTokenRva
        (count ++ mode ++ table ++ secondCount ++ secondMode ++ encodeDwords dwords)
        (dwords.map Dword.record)
  | rvaTokenSize {count mode : Bytes} {dwords : List Dword}
      (counted : IsSigned dwords.length count) (modeLength : mode.length = 4) :
      IsFront .rvaTokenSize (count ++ mode ++ encodeDwords dwords) (dwords.map Dword.record)
  | rvaIndexSize {count mode total : Bytes} {dwords : List Dword}
      (counted : IsSigned dwords.length count) (modeLength : mode.length = 4)
      (totalLength : total.length = 4) :
      IsFront .rvaIndexSize (count ++ mode ++ encodeDwords dwords ++ total)
        (dwords.map Dword.record)

inductive IsItem : Format → Bytes → List Record → Prop
  | group {words : Nat} {token count : Bytes} {dwords : List Dword} (tokenLength : token.length = 4)
      (counted : IsSigned words count) (half : dwords.length = words / 2) :
      IsItem .legacyTokenRva (token ++ count ++ encodeDwords dwords) (dwords.map Dword.record)
  | write {address : UInt32} {size : Int} {token word data : Bytes}
      (tokenLength : token.length = 4) (sized : IsSigned size word)
      (dataLength : data.length = size.toNat) :
      IsItem .rvaTokenSize (bytesOfUInt32 address ++ token ++ word ++ data)
        (if 0 < size then [.write address data] else [])
  | method {codeAddress index : UInt32} {word code : Bytes}
      (sized : IsSigned code.length word) :
      IsItem .rvaIndexSize (bytesOfUInt32 codeAddress ++ bytesOfUInt32 index ++ word ++ code)
        [.method codeAddress index code]

inductive Repeated (form : Bytes → List Record → Prop) : Bytes → List Record → Prop
  | nil : Repeated form [] []
  | cons {span rest : Bytes} {first others : List Record} (formed : form span first)
      (repeated : Repeated form rest others) : Repeated form (span ++ rest) (first ++ others)

/-- A complete stream of a layout, with its records. -/
def IsStream (format : Format) (stream : Bytes) (found : List Record) : Prop :=
  ∃ front items stray patches others, stream = front ++ items ++ stray ∧
    IsFront format front patches ∧ Repeated (IsItem format) items others ∧ stray.length ≤ 1 ∧
    found = patches ++ others

def frontFlaw : Format → Flaw
  | .legacyTokenRva => Counted .patches fun pairs => Behind (4 + 8 * pairs) <|
      Counted .patches fun dwords => Short (4 + 8 * dwords)
  | .rvaTokenSize => Counted .patches fun dwords => Short (4 + 8 * dwords)
  | .rvaIndexSize => Counted .patches fun dwords => Short (4 + (8 * dwords + 4))

def itemFlaw : Format → Flaw
  | .legacyTokenRva => Behind 4 <| Counted .dwords fun words => Short (8 * (words / 2))
  | .rvaTokenSize => Behind 8 <| Signed fun size => Short size.toNat
  | .rvaIndexSize => Behind 8 <| Counted .methodSize Short

/-- A flaw in the part of fixed form or, behind complete items, in the next one. -/
def IsFlawed (format : Format) (stream : Bytes) (error : Error) : Prop :=
  frontFlaw format stream error ∨
    ∃ front items rest patches others, stream = front ++ items ++ rest ∧
      IsFront format front patches ∧ Repeated (IsItem format) items others ∧ 1 < rest.length ∧
      itemFlaw format rest error

/-! ## Dword patches -/

theorem accepts_dword :
    Accepts readDword fun _ span record =>
      ∃ dword : Dword, span = bytesOfUInt32 dword.address ++ bytesOfUInt32 dword.value ∧
        record = dword.record := by
  refine (Accepts.uint32.bind fun address => Accepts.uint32.bind fun value =>
    Accepts.pure (Record.dword address value)).congr ?_
  intro position span record
  constructor
  · rintro ⟨_, _, address, rfl, rfl, _, _, value, rfl, rfl, rfl, rfl⟩
    rw [List.append_nil]
    exact ⟨⟨address, value⟩, rfl, rfl⟩
  · rintro ⟨dword, rfl, rfl⟩
    exact ⟨_, _, dword.address, rfl, rfl, _, [], dword.value, (List.append_nil _).symm, rfl, rfl,
      rfl⟩

theorem accepts_dwords (count : Nat) :
    Accepts (Reader.times readDword count) fun _ span found =>
      ∃ dwords : List Dword, dwords.length = count ∧ span = encodeDwords dwords ∧
        found = dwords.map Dword.record := by
  induction count with
  | zero =>
      refine (Accepts.pure []).congr fun position span found => ?_
      constructor
      · rintro ⟨rfl, rfl⟩
        exact ⟨[], rfl, rfl, rfl⟩
      · rintro ⟨dwords, none, rfl, rfl⟩
        rw [List.length_eq_zero_iff.mp none]
        exact ⟨rfl, rfl⟩
  | succ count ih =>
      refine (accepts_dword.bind fun first => ih.bind fun others =>
        Accepts.pure (first :: others)).congr fun position span found => ?_
      constructor
      · rintro ⟨_, _, _, rfl, ⟨dword, rfl, rfl⟩, _, _, _, rfl, ⟨dwords, rfl, rfl, rfl⟩, rfl, rfl⟩
        rw [List.append_nil]
        exact ⟨dword :: dwords, rfl, rfl, rfl⟩
      · rintro ⟨dwords, length, rfl, rfl⟩
        cases dwords with
        | nil => cases length
        | cons dword dwords =>
            exact ⟨_, _, _, rfl, ⟨dword, rfl, rfl⟩, _, [], _, (List.append_nil _).symm,
              ⟨dwords, Nat.succ.inj length, rfl, rfl⟩, rfl, rfl⟩

theorem length_encodeDwords (dwords : List Dword) :
    (encodeDwords dwords).length = 8 * dwords.length := by
  induction dwords with
  | nil => rfl
  | cons dword dwords ih =>
      rw [encodeDwords, List.flatMap_cons, ← encodeDwords, List.length_append, ih,
        List.length_append, length_bytesOfUInt32, length_bytesOfUInt32, List.length_cons]
      omega

theorem fails_dword : Fails readDword (Short 8) :=
  (Fails.uint32_bind fun address =>
    Fails.last Fails.uint32 (Record.dword address)).congr (Reader.behind_short 4 4)

theorem fails_dwords (count : Nat) : Fails (Reader.times readDword count) (Short (8 * count)) := by
  induction count with
  | zero =>
      refine (Fails.pure []).congr fun rest error => ⟨False.elim, ?_⟩
      rintro ⟨impossible, -⟩
      exact absurd impossible (Nat.not_lt_zero _)
  | succ count ih =>
      have sized (span : Bytes) (record : Record) (form : ∃ dword : Dword,
          span = bytesOfUInt32 dword.address ++ bytesOfUInt32 dword.value ∧
            record = dword.record) : span.length = 8 := by
        obtain ⟨dword, rfl, -⟩ := form
        rw [List.length_append, length_bytesOfUInt32, length_bytesOfUInt32]
      refine (Fails.behind accepts_dword fails_dword sized fun first =>
        Fails.last ih (first :: ·)).congr fun rest error => ?_
      rw [Reader.behind_short, Nat.mul_succ, Nat.add_comm]

/-! ## Items -/

def readItem : Format → Reader (List Record)
  | .legacyTokenRva => readGroup
  | .rvaTokenSize => readWrite
  | .rvaIndexSize => readMethod

private theorem accepts_group :
    Accepts readGroup fun _ => IsItem .legacyTokenRva := by
  unfold readGroup
  refine (Accepts.uint32.bind fun _ => (Accepts.count .dwords).bind fun words =>
    accepts_dwords (words / 2)).congr fun position span found => ?_
  constructor
  · rintro ⟨_, _, token, rfl, rfl, count, _, words, rfl, counted, dwords, half, rfl, rfl⟩
    rw [← List.append_assoc]
    exact .group (length_bytesOfUInt32 token) counted half
  · intro item
    cases item with
    | @group words token count dwords tokenLength counted half =>
        obtain ⟨value, same⟩ := exists_bytesOfUInt32 tokenLength
        exact ⟨token, count ++ encodeDwords dwords, value, List.append_assoc _ _ _, same, count, _,
          words, rfl, counted, dwords, half, rfl, rfl⟩

private theorem accepts_sized (address : UInt32) (size : Int) :
    Accepts
      (if 0 < size then Reader.take size.toNat >>= fun data => pure [Record.write address data]
        else pure [] : Reader (List Record))
      fun _ span found =>
        span.length = size.toNat ∧ found = if 0 < size then [.write address span] else [] := by
  refine (Accepts.ite (fun _ => (Accepts.take size.toNat).bind fun data =>
    Accepts.pure [Record.write address data]) fun _ => Accepts.pure []).congr ?_
  intro position span found
  by_cases positive : 0 < size
  · rw [if_pos positive, if_pos positive]
    constructor
    · rintro ⟨_, _, _, rfl, ⟨length, rfl⟩, rfl, rfl⟩
      rw [List.append_nil]
      exact ⟨length, rfl⟩
    · rintro ⟨length, rfl⟩
      exact ⟨span, [], span, (List.append_nil _).symm, ⟨length, rfl⟩, rfl, rfl⟩
  · rw [if_neg positive, if_neg positive, Int.toNat_of_nonpos (Int.not_lt.mp positive),
      List.length_eq_zero_iff]

private theorem fails_sized (address : UInt32) (size : Int) :
    Fails
      (if 0 < size then Reader.take size.toNat >>= fun data => pure [Record.write address data]
        else pure [] : Reader (List Record))
      (Short size.toNat) := by
  refine (Fails.ite (fun _ => Fails.last (Fails.take size.toNat) fun data =>
    [Record.write address data]) fun _ => Fails.pure []).congr fun rest error => ?_
  by_cases positive : 0 < size
  · rw [if_pos positive]
  · rw [if_neg positive, Int.toNat_of_nonpos (Int.not_lt.mp positive)]
    exact ⟨False.elim, fun short => absurd short.1 (Nat.not_lt_zero _)⟩

private theorem accepts_write :
    Accepts readWrite fun _ => IsItem .rvaTokenSize := by
  unfold readWrite
  refine (Accepts.uint32.bind fun address => Accepts.uint32.bind fun _ =>
    Accepts.signed.bind fun size => accepts_sized address size).congr fun position span found => ?_
  constructor
  · rintro ⟨_, _, address, rfl, rfl, _, _, token, rfl, rfl, word, data, size, rfl, sized, length,
      rfl⟩
    rw [← List.append_assoc, ← List.append_assoc]
    exact .write (length_bytesOfUInt32 token) sized length
  · intro item
    cases item with
    | @write address size token word data tokenLength sized length =>
        obtain ⟨value, same⟩ := exists_bytesOfUInt32 tokenLength
        refine ⟨bytesOfUInt32 address, token ++ (word ++ data), address, ?_, rfl, token,
          word ++ data, value, rfl, same, word, data, size, rfl, sized, length, rfl⟩
        rw [List.append_assoc, List.append_assoc]

private theorem accepts_method :
    Accepts readMethod fun _ => IsItem .rvaIndexSize := by
  unfold readMethod
  refine (Accepts.uint32.bind fun codeAddress => Accepts.uint32.bind fun index =>
    (Accepts.count .methodSize).bind fun size => (Accepts.take size).bind fun code =>
      Accepts.pure [Record.method codeAddress index code]).congr fun position span found => ?_
  constructor
  · rintro ⟨_, _, codeAddress, rfl, rfl, _, _, index, rfl, rfl, word, _, size, rfl, sized, code, _,
      _, rfl, ⟨rfl, rfl⟩, rfl, rfl⟩
    rw [List.append_nil, ← List.append_assoc, ← List.append_assoc]
    exact .method sized
  · intro item
    cases item with
    | @method codeAddress index word code sized =>
        refine ⟨bytesOfUInt32 codeAddress, bytesOfUInt32 index ++ (word ++ code), codeAddress, ?_,
          rfl, bytesOfUInt32 index, word ++ code, index, rfl, rfl, word, code, code.length, rfl,
          sized, code, [], code, (List.append_nil _).symm, ⟨rfl, rfl⟩, rfl, rfl⟩
        rw [List.append_assoc, List.append_assoc]

theorem accepts_item (format : Format) : Accepts (readItem format) fun _ => IsItem format := by
  cases format with
  | legacyTokenRva => exact accepts_group
  | rvaTokenSize => exact accepts_write
  | rvaIndexSize => exact accepts_method

theorem fails_item (format : Format) : Fails (readItem format) (itemFlaw format) := by
  cases format with
  | legacyTokenRva =>
      exact Fails.uint32_bind fun _ => Fails.counted fun words => fails_dwords (words / 2)
  | rvaTokenSize =>
      exact (Fails.uint32_bind fun address => Fails.uint32_bind fun _ => Fails.signed_bind
        fun size => fails_sized address size).congr (Reader.behind_behind 4 4 _)
  | rvaIndexSize =>
      exact (Fails.uint32_bind fun codeAddress => Fails.uint32_bind fun index =>
        Fails.counted fun size => Fails.last (Fails.take size)
          fun code => [Record.method codeAddress index code]).congr (Reader.behind_behind 4 4 _)

theorem IsItem.long {format : Format} {span : Bytes} {found : List Record}
    (item : IsItem format span found) : 1 < span.length := by
  cases item with
  | group tokenLength counted half =>
      simp only [List.length_append, tokenLength, counted.1]
      omega
  | write tokenLength sized dataLength =>
      simp only [List.length_append, length_bytesOfUInt32, tokenLength]
      omega
  | method sized =>
      simp only [List.length_append, length_bytesOfUInt32]
      omega

/-! ## The part of fixed form -/

def readFront (format : Format) : Reader (List Record) := do
  let count ← Reader.count .patches
  let _mode ← Reader.word .i32
  match format with
  | .legacyTokenRva =>
      Reader.skip (8 * count)
      let count ← Reader.count .patches
      let _mode ← Reader.word .i32
      Reader.times readDword count
  | .rvaTokenSize => Reader.times readDword count
  | .rvaIndexSize =>
      let patches ← Reader.times readDword count
      let _methods ← Reader.word .i32
      return patches

theorem accepts_front (format : Format) :
    Accepts (readFront format) fun _ => IsFront format := by
  unfold readFront
  cases format with
  | legacyTokenRva =>
      refine ((Accepts.count .patches).bind fun pairs => Accepts.signed.bind fun _ =>
        (Accepts.skip (8 * pairs)).bind fun _ => (Accepts.count .patches).bind fun patches =>
        Accepts.signed.bind fun _ => accepts_dwords patches).congr fun position span found => ?_
      constructor
      · rintro ⟨count, _, pairs, rfl, counted, mode, _, _, rfl, ⟨modeLength, -⟩, table, _, _, rfl,
          tableLength, secondCount, _, patches, rfl, secondCounted, secondMode, _, _, rfl,
          ⟨secondModeLength, -⟩, dwords, rfl, rfl, rfl⟩
        simp only [← List.append_assoc]
        exact .legacyTokenRva counted modeLength tableLength secondCounted secondModeLength
      · intro front
        cases front with
        | legacyTokenRva counted modeLength tableLength secondCounted secondModeLength =>
            simp only [List.append_assoc]
            exact ⟨_, _, _, rfl, counted, _, _, _, rfl, ⟨modeLength, rfl⟩, _, _, (), rfl,
              tableLength, _, _, _, rfl, secondCounted, _, _, _, rfl, ⟨secondModeLength, rfl⟩, _,
              rfl, rfl, rfl⟩
  | rvaTokenSize =>
      refine ((Accepts.count .patches).bind fun patches => Accepts.signed.bind fun _ =>
        accepts_dwords patches).congr fun position span found => ?_
      constructor
      · rintro ⟨count, _, patches, rfl, counted, mode, _, _, rfl, ⟨modeLength, -⟩, dwords, rfl, rfl,
          rfl⟩
        rw [← List.append_assoc]
        exact .rvaTokenSize counted modeLength
      · intro front
        cases front with
        | rvaTokenSize counted modeLength =>
            simp only [List.append_assoc]
            exact ⟨_, _, _, rfl, counted, _, _, _, rfl, ⟨modeLength, rfl⟩, _, rfl, rfl, rfl⟩
  | rvaIndexSize =>
      refine ((Accepts.count .patches).bind fun patches => Accepts.signed.bind fun _ =>
        (accepts_dwords patches).bind fun found => Accepts.signed.bind fun _ =>
        Accepts.pure found).congr fun position span found => ?_
      constructor
      · rintro ⟨count, _, patches, rfl, counted, mode, _, _, rfl, ⟨modeLength, -⟩, _, _, _, rfl,
          ⟨dwords, rfl, rfl, rfl⟩, total, _, _, rfl, ⟨totalLength, -⟩, rfl, rfl⟩
        simp only [← List.append_assoc, List.append_nil]
        exact .rvaIndexSize counted modeLength totalLength
      · intro front
        cases front with
        | rvaIndexSize counted modeLength totalLength =>
            simp only [List.append_assoc]
            exact ⟨_, _, _, rfl, counted, _, _, _, rfl, ⟨modeLength, rfl⟩, _, _, _, rfl,
              ⟨_, rfl, rfl, rfl⟩, _, [], _, (List.append_nil _).symm, ⟨totalLength, rfl⟩, rfl, rfl⟩

/-- Dword patches and the word behind them. -/
private theorem fails_patches (count : Nat) :
    Fails
      (Reader.times readDword count >>= fun found => Reader.word .i32 >>= fun _ =>
        (pure found : Reader (List Record)))
      (Short (8 * count + 4)) := by
  refine (Fails.behind (accepts_dwords count) (fails_dwords count) ?_ fun found =>
    Fails.last Fails.signed fun _ => found).congr (Reader.behind_short _ 4)
  rintro _ _ ⟨dwords, rfl, rfl, -⟩
  exact length_encodeDwords dwords

/-- The part of fixed form is refused for its flaws and for nothing else. -/
theorem fails_front (format : Format) : Fails (readFront format) (frontFlaw format) := by
  unfold readFront
  cases format with
  | legacyTokenRva =>
      exact Fails.counted fun pairs => (Fails.ignored_bind fun _ => Fails.skip_bind
        (Fails.counted fun patches => (Fails.ignored_bind fun _ => fails_dwords patches).congr
          (Reader.behind_short 4 _))).congr (Reader.behind_behind 4 (8 * pairs) _)
  | rvaTokenSize =>
      exact Fails.counted fun patches => (Fails.ignored_bind fun _ => fails_dwords patches).congr
        (Reader.behind_short 4 _)
  | rvaIndexSize =>
      exact Fails.counted fun patches => (Fails.ignored_bind fun _ => fails_patches patches).congr
        (Reader.behind_short 4 _)

end CilRecovery.MethodStream
