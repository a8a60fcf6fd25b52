import CilRecovery.OutputWriter
import CilRecovery.Proofs.Cipher.Chained
import CilRecovery.Proofs.Except
import CilRecovery.Proofs.MethodStream.Layout

/-!
# Reserved slots fit

The length that is reserved for the encrypted stream of the kept methods is computed from their
code alone. It is the length of the stream once it is serialized, masked, padded and encrypted.
-/

set_option autoImplicit false

namespace CilRecovery

/-- The cipher of a context works with its key and its vector. -/
structure ResourceContext.Supported (context : ResourceContext) : Prop where
  keySize : context.cipher.acceptsKeySize context.key.length = true
  vectorLength : context.cipher.blockSize ≤ context.vector.length

/-- Encryption fills the last block up, or adds one if it is full. -/
theorem ResourceContext.Supported.encrypt {context : ResourceContext}
    (supported : context.Supported) (data : Bytes) :
    ∃ encrypted, context.encrypt data = .ok encrypted ∧
      encrypted.length =
        data.length - data.length % context.cipher.blockSize + context.cipher.blockSize := by
  obtain ⟨encrypted, succeeded⟩ : ∃ encrypted,
      context.cipher.encrypt context.key context.vector data = .ok encrypted :=
    ⟨_, CipherKind.encrypt_eq_ok_iff.mpr ⟨supported.keySize, supported.vectorLength, rfl⟩⟩
  refine ⟨encrypted, succeeded, ?_⟩
  have whole := Nat.div_add_mod' data.length context.cipher.blockSize
  rw [CipherKind.length_of_encrypt succeeded, Nat.succ_mul]
  omega

/-- A method body is refused for what its record says, never for the size of a slot. -/
theorem WrittenBody.codeAddress_error {body : WrittenBody} {error : Error}
    (refused : body.codeAddress = .error error) : error.family ≠ .consistency := by
  rcases Except.bind_eq_error.mp refused with refused | ⟨size, -, refused⟩
  · unfold Method.Header.announcedSize at refused
    split at refused
    · cases refused
      decide
    · split at refused
      · cases refused
      · split at refused
        · split at refused
          · cases refused
            decide
          · cases refused
        · cases refused
          decide
  · split at refused
    · cases refused
    · cases refused
      decide

namespace OutputWriter

open MethodStream (MethodEntry)

variable {ω : Type} [OutputWriter ω] {writer : ω} {table : OpaqueTable}

/-- Every surviving method has a body in the output, and its code address can be told. -/
def Readable (writer : ω) (table : OpaqueTable) : Prop :=
  ∀ method ∈ surviving writer table, ∃ body codeAddress,
    methodBody? writer method.1 = some body ∧ body.codeAddress = .ok codeAddress

/-! ## Serializing -/

theorem entryOf_eq_ok {method : Token × Bytes} {index : Nat} {entry : MethodEntry} :
    entryOf writer method index = .ok entry ↔
      ∃ body codeAddress, methodBody? writer method.1 = some body ∧
        body.codeAddress = .ok codeAddress ∧
        entry = ⟨codeAddress, nativeIndexBase + UInt32.ofNat index, method.2⟩ := by
  unfold entryOf
  cases methodBody? writer method.1 with
  | none =>
      constructor
      · intro written
        cases written
      · intro ⟨_, _, missing, _⟩
        cases missing
  | some body =>
      constructor
      · intro written
        obtain ⟨codeAddress, computed, written⟩ := Except.bind_eq_ok.mp written
        cases written
        exact ⟨body, codeAddress, rfl, computed, rfl⟩
      · intro ⟨_, codeAddress, same, computed, written⟩
        cases same
        subst written
        exact Except.bind_eq_ok.mpr ⟨codeAddress, computed, rfl⟩

theorem entryOf_error {method : Token × Bytes} {index : Nat} {error : Error}
    (refused : entryOf writer method index = .error error) : error.family ≠ .consistency := by
  unfold entryOf at refused
  cases found : methodBody? writer method.1 with
  | none =>
      rw [found] at refused
      cases refused
      exact nofun
  | some body =>
      rw [found] at refused
      rcases Except.bind_eq_error.mp refused with refused | ⟨_, -, refused⟩
      · exact body.codeAddress_error refused
      · cases refused

theorem serialize_eq_none :
    serialize writer table = .ok none ↔ surviving writer table = [] := by
  unfold serialize
  by_cases empty : (surviving writer table).isEmpty
  · rw [if_pos empty]
    exact ⟨fun _ => List.isEmpty_iff.mp empty, fun _ => rfl⟩
  · rw [if_neg empty]
    constructor
    · intro serialized
      obtain ⟨entries, -, serialized⟩ := Except.bind_eq_ok.mp serialized
      cases serialized
    · intro none
      exact absurd (List.isEmpty_iff.mpr none) empty

/-- There is a stream exactly if methods survive and each has a record in the output. -/
theorem serialize_eq_some {stream : Bytes} {count : Nat} :
    serialize writer table = .ok (some (stream, count)) ↔
      surviving writer table ≠ [] ∧ count = (surviving writer table).length ∧
        ∃ entries, stream = MethodStream.encodeMethods 0 [] entries ∧
          List.Forall₂ (fun (item : (Token × Bytes) × Nat) entry =>
            entryOf writer item.1 item.2 = .ok entry) (surviving writer table).zipIdx entries := by
  unfold serialize
  by_cases empty : (surviving writer table).isEmpty
  · rw [if_pos empty]
    constructor
    · intro serialized
      cases serialized
    · intro ⟨present, _⟩
      exact absurd (List.isEmpty_iff.mp empty) present
  · rw [if_neg empty]
    constructor
    · intro serialized
      obtain ⟨entries, mapped, serialized⟩ := Except.bind_eq_ok.mp serialized
      cases serialized
      exact ⟨mt List.isEmpty_iff.mpr empty, rfl, entries, rfl, Except.mapM_eq_ok.mp mapped⟩
    · intro ⟨_, counted, entries, encoded, written⟩
      subst counted encoded
      exact Except.bind_eq_ok.mpr ⟨entries, Except.mapM_eq_ok.mpr written, rfl⟩

theorem serialize_error {error : Error} (refused : serialize writer table = .error error) :
    error.family ≠ .consistency := by
  unfold serialize at refused
  by_cases empty : (surviving writer table).isEmpty
  · rw [if_pos empty] at refused
    cases refused
  · rw [if_neg empty] at refused
    rcases Except.bind_eq_error.mp refused with refused | ⟨_, -, refused⟩
    · obtain ⟨item, -, refused⟩ := Except.mapM_eq_error refused
      exact entryOf_error refused
    · cases refused

theorem exists_serialize_eq_some :
    (∃ stream count, serialize writer table = .ok (some (stream, count))) ↔
      surviving writer table ≠ [] ∧ Readable writer table := by
  constructor
  · intro ⟨stream, count, serialized⟩
    obtain ⟨present, -, entries, -, written⟩ := serialize_eq_some.mp serialized
    refine ⟨present, fun method member => ?_⟩
    obtain ⟨place, found⟩ := List.getElem?_of_mem member
    have placed : (method, place) ∈ (surviving writer table).zipIdx :=
      List.mk_mem_zipIdx_iff_getElem?.mpr found
    obtain ⟨entry, written⟩ :=
      Except.exists_mapM_eq_ok.mp ⟨entries, Except.mapM_eq_ok.mpr written⟩ _ placed
    obtain ⟨body, codeAddress, found, computed, -⟩ := entryOf_eq_ok.mp written
    exact ⟨body, codeAddress, found, computed⟩
  · intro ⟨present, readable⟩
    have each : ∀ item ∈ (surviving writer table).zipIdx,
        ∃ entry, entryOf writer item.1 item.2 = .ok entry := by
      intro item member
      obtain ⟨body, codeAddress, found, computed⟩ :=
        readable item.1 (List.fst_mem_of_mem_zipIdx member)
      exact ⟨_, entryOf_eq_ok.mpr ⟨body, codeAddress, found, computed, rfl⟩⟩
    obtain ⟨entries, written⟩ := Except.exists_mapM_eq_ok.mpr each
    exact ⟨_, _, serialize_eq_some.mpr ⟨present, rfl, entries, rfl, Except.mapM_eq_ok.mp written⟩⟩

/-! ## Lengths -/

private theorem length_entries {items : List ((Token × Bytes) × Nat)} {entries : List MethodEntry}
    (written : List.Forall₂ (fun item entry => entryOf writer item.1 item.2 = .ok entry) items
      entries) :
    12 + (entries.flatMap MethodEntry.encode).length =
      OpaqueTable.streamLength (items.map Prod.fst) := by
  induction written with
  | nil => rfl
  | @cons item entry items entries first _ ih =>
      obtain ⟨body, codeAddress, -, -, same⟩ := entryOf_eq_ok.mp first
      have size : entry.code.length = item.1.2.length := by rw [same]
      rw [List.flatMap_cons, List.length_append, MethodStream.length_encode_method, size,
        List.map_cons, OpaqueTable.streamLength, ← ih, Nat.add_left_comm]

/-- The stream has the length that is reckoned with, whatever its code addresses are. -/
theorem length_serialize {stream : Bytes} {count : Nat}
    (serialized : serialize writer table = .ok (some (stream, count))) :
    stream.length = OpaqueTable.streamLength (surviving writer table) := by
  obtain ⟨-, -, entries, rfl, written⟩ := serialize_eq_some.mp serialized
  have length := length_entries written
  rw [List.zipIdx_map_fst] at length
  have head (count : Nat) : (MethodStream.encodeCount count).length = 4 :=
    LittleEndian.length_encode 4 count
  rw [← length, MethodStream.encodeMethods]
  simp only [List.length_append, head, length_bytesOfUInt32]
  rfl

theorem slotLength?_eq_none {blockSize : Nat} (positive : 0 < blockSize) :
    slotLength? writer table blockSize = none ↔ surviving writer table = [] := by
  unfold slotLength?
  by_cases empty : (surviving writer table).isEmpty
  · simp only [empty, Bool.true_or, if_true, true_iff]
    exact List.isEmpty_iff.mp empty
  · have some : ¬ surviving writer table = [] := mt List.isEmpty_iff.mpr empty
    simp [some, Nat.ne_of_gt positive]

theorem slotLength?_eq_some {blockSize : Nat} (positive : 0 < blockSize)
    (present : surviving writer table ≠ []) :
    slotLength? writer table blockSize =
      some (OpaqueTable.streamLength (surviving writer table) -
        OpaqueTable.streamLength (surviving writer table) % blockSize + blockSize) := by
  simp [slotLength?, present, Nat.ne_of_gt positive]

/-- What is serialized is encrypted to the reserved number of bytes. -/
theorem encrypt_serialize {context : ResourceContext} (supported : context.Supported)
    (key : UInt64) {stream : Bytes} {count : Nat}
    (serialized : serialize writer table = .ok (some (stream, count))) :
    ∃ encrypted, context.encrypt (MethodStream.mask key stream) = .ok encrypted ∧
      slotLength? writer table context.cipher.blockSize = some encrypted.length := by
  obtain ⟨present, -⟩ := serialize_eq_some.mp serialized
  obtain ⟨encrypted, succeeded, length⟩ := supported.encrypt (MethodStream.mask key stream)
  refine ⟨encrypted, succeeded, ?_⟩
  rw [slotLength?_eq_some context.cipher.blockSize_bounds.1 present, length,
    MethodStream.length_mask, length_serialize serialized]

/-! ## Encrypting again -/

section

variable {engine : PatchEngine} {context : ResourceContext}

theorem encryptSurvivors_eq_some {encrypted : Bytes} {count : Nat} :
    encryptSurvivors engine context writer = .ok (some (encrypted, count)) ↔
      ∃ stream, serialize writer engine.kept = .ok (some (stream, count)) ∧
        context.encrypt (MethodStream.mask engine.hints.maskKey stream) = .ok encrypted := by
  constructor
  · intro succeeded
    obtain ⟨result, serialized, succeeded⟩ := Except.bind_eq_ok.mp succeeded
    cases result with
    | none => cases succeeded
    | some result =>
        obtain ⟨stream, count'⟩ := result
        obtain ⟨encrypted', encryption, succeeded⟩ := Except.bind_eq_ok.mp succeeded
        cases succeeded
        exact ⟨stream, serialized, encryption⟩
  · intro ⟨stream, serialized, encryption⟩
    exact Except.bind_eq_ok.mpr ⟨_, serialized, Except.bind_eq_ok.mpr ⟨encrypted, encryption, rfl⟩⟩

theorem encryptSurvivors_eq_none :
    encryptSurvivors engine context writer = .ok none ↔ surviving writer engine.kept = [] := by
  rw [← serialize_eq_none]
  constructor
  · intro succeeded
    obtain ⟨result, serialized, succeeded⟩ := Except.bind_eq_ok.mp succeeded
    cases result with
    | none => exact serialized
    | some result =>
        obtain ⟨_, -, succeeded⟩ := Except.bind_eq_ok.mp succeeded
        cases succeeded
  · intro serialized
    exact Except.bind_eq_ok.mpr ⟨none, serialized, rfl⟩

theorem encryptSurvivors_error (supported : context.Supported) {error : Error}
    (refused : encryptSurvivors engine context writer = .error error) :
    error.family ≠ .consistency := by
  rcases Except.bind_eq_error.mp refused with refused | ⟨result, serialized, refused⟩
  · exact serialize_error refused
  · cases result with
    | none => cases refused
    | some result =>
        obtain ⟨stream, count⟩ := result
        obtain ⟨encrypted, succeeded, -⟩ :=
          encrypt_serialize supported engine.hints.maskKey serialized
        rcases Except.bind_eq_error.mp refused with refused | ⟨_, -, refused⟩
        · rw [succeeded] at refused
          cases refused
        · cases refused

theorem exists_encryptSurvivors (supported : context.Supported) {size : Nat} :
    (∃ encrypted count, encryptSurvivors engine context writer = .ok (some (encrypted, count)) ∧
      encrypted.length = size) ↔
      Readable writer engine.kept ∧
        slotLength? writer engine.kept context.cipher.blockSize = some size := by
  constructor
  · intro ⟨encrypted, count, succeeded, length⟩
    obtain ⟨stream, serialized, encryption⟩ := encryptSurvivors_eq_some.mp succeeded
    obtain ⟨encrypted', encryption', reserved⟩ :=
      encrypt_serialize supported engine.hints.maskKey serialized
    rw [encryption] at encryption'
    cases encryption'
    exact ⟨(exists_serialize_eq_some.mp ⟨stream, count, serialized⟩).2, length ▸ reserved⟩
  · intro ⟨readable, reserved⟩
    have present : surviving writer engine.kept ≠ [] := by
      intro none
      rw [(slotLength?_eq_none context.cipher.blockSize_bounds.1).mpr none] at reserved
      cases reserved
    obtain ⟨stream, count, serialized⟩ := exists_serialize_eq_some.mpr ⟨present, readable⟩
    obtain ⟨encrypted, encryption, reserved'⟩ :=
      encrypt_serialize supported engine.hints.maskKey serialized
    rw [reserved] at reserved'
    exact ⟨encrypted, count, encryptSurvivors_eq_some.mpr ⟨stream, serialized, encryption⟩,
      (Option.some.inj reserved').symm⟩

/-- The only error of this family is a slot of another size, and the loan goes back as it came. -/
theorem reEncrypt_consistency (supported : context.Supported) {error : Error} {left : ω} :
    reEncrypt engine context writer = .error error left ∧ error.family = .consistency ↔
      Readable writer engine.kept ∧ ∃ data giveBack size,
        lend writer context.name = .lent data giveBack ∧
          slotLength? writer engine.kept context.cipher.blockSize = some size ∧
          data.length ≠ size ∧ error = .slotMismatch data.length size ∧ left = giveBack data := by
  unfold reEncrypt
  constructor
  · intro ⟨failed, family⟩
    cases attempt : encryptSurvivors engine context writer with
    | error error' =>
        rw [attempt] at failed
        cases failed
        exact absurd family (encryptSurvivors_error supported attempt)
    | ok result =>
        rw [attempt] at failed
        cases result with
        | none => cases failed
        | some result =>
            obtain ⟨encrypted, count⟩ := result
            obtain ⟨readable, reserved⟩ :=
              (exists_encryptSurvivors supported).mp ⟨encrypted, count, attempt, rfl⟩
            cases asked : lend writer context.name with
            | absent after =>
                simp only [asked] at failed
                cases failed
                cases family
            | lent data giveBack =>
                simp only [asked] at failed
                split at failed
                · rename_i differs
                  cases failed
                  exact ⟨readable, data, giveBack, encrypted.length, rfl, reserved, differs, rfl,
                    rfl⟩
                · cases failed
  · intro ⟨readable, data, giveBack, size, asked, reserved, differs, refused, same⟩
    subst refused same
    obtain ⟨encrypted, count, attempt, length⟩ :=
      (exists_encryptSurvivors supported).mpr ⟨readable, reserved⟩
    subst length
    refine ⟨?_, rfl⟩
    simp only [attempt, asked, if_pos differs]

end

/-- A reserved slot fits. It is reserved if a method survives, and whatever is serialized is
encrypted to exactly its length. So the lengths are at odds in just one case: the resource that is
there has another one. -/
theorem reserved_slot_fits (engine : PatchEngine) (writer : ω) {context : ResourceContext}
    (supported : context.Supported) :
    (slotLength? writer engine.kept context.cipher.blockSize = none ↔
        surviving writer engine.kept = []) ∧
      (serialize writer engine.kept = .ok none ↔ surviving writer engine.kept = []) ∧
      (∀ stream count, serialize writer engine.kept = .ok (some (stream, count)) →
        ∃ encrypted,
          context.encrypt (MethodStream.mask engine.hints.maskKey stream) = .ok encrypted ∧
            slotLength? writer engine.kept context.cipher.blockSize = some encrypted.length) ∧
      ∀ error left,
        reEncrypt engine context writer = .error error left ∧ error.family = .consistency ↔
          Readable writer engine.kept ∧ ∃ data giveBack size,
            lend writer context.name = .lent data giveBack ∧
              slotLength? writer engine.kept context.cipher.blockSize = some size ∧
              data.length ≠ size ∧ error = .slotMismatch data.length size ∧
              left = giveBack data :=
  ⟨slotLength?_eq_none context.cipher.blockSize_bounds.1, serialize_eq_none,
    fun _ _ => encrypt_serialize supported engine.hints.maskKey,
    fun _ _ => reEncrypt_consistency supported⟩

/-- A tiny method at address four, and a resource behind it. -/
def smallOutput (length : Nat) : Image :=
  let bytes := [0, 0, 0, 0, 0x0A, 0x17, 0x2A, 0] ++ Bytes.zeros length
  ((Image.ofBytes bytes).addMethod 4).addResource "bodies" ⟨8, length⟩

def smallEngine : PatchEngine :=
  { PatchEngine.ofHints ⟨true, false, 7⟩ with kept := OpaqueTable.keep .empty ⟨0x06000001⟩ [0xF4] }

def smallContext : ResourceContext :=
  ⟨"bodies", .des, [1, 2, 3, 4, 5, 6, 7, 8], [8, 7, 6, 5, 4, 3, 2, 1], none, none, .none⟩

theorem readable_small (length : Nat) : Readable (smallOutput length) smallEngine.kept := by
  intro method member
  rw [List.mem_singleton.mp member]
  exact ⟨_, 5, rfl, rfl⟩

/-- The stream of one method with one byte takes four blocks. -/
theorem reserved_slot_fits_short :
    smallContext.Supported ∧ slotLength? (smallOutput 24) smallEngine.kept 8 = some 32 ∧
      (∃ stream encrypted, serialize (smallOutput 24) smallEngine.kept = .ok (some (stream, 1)) ∧
        smallContext.encrypt (MethodStream.mask 7 stream) = .ok encrypted ∧ encrypted.length = 32) ∧
      reEncrypt smallEngine smallContext (smallOutput 24) =
        .error (.slotMismatch 24 32) (smallOutput 24) := by
  have supported : smallContext.Supported := ⟨rfl, by decide⟩
  have reserved : slotLength? (smallOutput 24) smallEngine.kept 8 = some 32 := rfl
  obtain ⟨-, -, fits, refuses⟩ := reserved_slot_fits smallEngine (smallOutput 24) supported
  obtain ⟨encrypted, encryption, length⟩ := fits _ 1 rfl
  have refused := (refuses (.slotMismatch 24 32) (smallOutput 24)).mpr
    ⟨readable_small 24, _, _, 32, rfl, reserved, by decide, rfl, rfl⟩
  exact ⟨supported, reserved, ⟨_, encrypted, rfl, encryption,
    (Option.some.inj (reserved.symm.trans length)).symm⟩, refused.1⟩

end OutputWriter

end CilRecovery
