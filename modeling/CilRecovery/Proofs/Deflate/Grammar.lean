import CilRecovery.Deflate.Inflate
import CilRecovery.Proofs.Deflate.Bits
import CilRecovery.Proofs.Deflate.Canonical

/-!
# The deflate format

Which bits stand for which bytes, as relations that do not say how either is computed from the
other. A match refers to the bytes before it, so a piece of a stream stands for its bytes behind
given earlier ones.
-/

set_option autoImplicit false

namespace CilRecovery.Deflate

/-! ## Symbols and matches -/

def IsClass (classes : List (Nat × Nat)) (index : Nat) (extra : List Bool) (value : Nat) : Prop :=
  ∃ first, classes[index]? = some (first, extra.length) ∧ value = first + numberOf extra

/-- Each byte is the one `distance` bytes before it, be it an earlier byte or a copied one. -/
structure IsCopy (earlier : Bytes) (distance : Nat) (copied : Bytes) : Prop where
  reached : distance ≤ earlier.length
  same : ∀ index < copied.length,
    copied[index]? = (earlier ++ copied)[earlier.length + index - distance]?

inductive IsCoded (literals distances : CodeTree) : Bytes → List Bool → Bytes → Prop
  | stop {earlier : Bytes} {code : List Bool} :
      literals.Spells code 256 →
      IsCoded literals distances earlier code []
  | literal {earlier : Bytes} {code bits : List Bool} {byte : UInt8} {piece : Bytes} :
      literals.Spells code byte.toNat →
      IsCoded literals distances (earlier ++ [byte]) bits piece →
      IsCoded literals distances earlier (code ++ bits) (byte :: piece)
  | reference {earlier : Bytes} {index slot distance : Nat} {copied piece : Bytes}
      {lengthCode lengthExtra distanceCode distanceExtra bits : List Bool} :
      literals.Spells lengthCode (257 + index) →
      IsClass lengthClasses index lengthExtra copied.length →
      distances.Spells distanceCode slot →
      IsClass distanceClasses slot distanceExtra distance →
      IsCopy earlier distance copied →
      IsCoded literals distances (earlier ++ copied) bits piece →
      IsCoded literals distances earlier
        (lengthCode ++ lengthExtra ++ distanceCode ++ distanceExtra ++ bits) (copied ++ piece)

/-! ## Described codes -/

def gapClasses : List (Nat × Nat × Nat) := [(17, 3, 3), (18, 11, 7)]

/-- The bits are code lengths up to the last one, behind given earlier ones. -/
inductive SpellsLengths (code : CodeTree) (total : Nat) :
    List Nat → List Bool → List Nat → Prop
  | done {lengths : List Nat} :
      lengths.length = total →
      SpellsLengths code total lengths [] lengths
  | length {earlier lengths : List Nat} {spelled bits : List Bool} {length : Nat} :
      length ≤ CodeTree.maxLength →
      code.Spells spelled length →
      SpellsLengths code total (earlier ++ [length]) bits lengths →
      SpellsLengths code total earlier (spelled ++ bits) lengths
  | again {earlier lengths : List Nat} {spelled extra bits : List Bool} {previous : Nat} :
      code.Spells spelled 16 →
      earlier.getLast? = some previous →
      extra.length = 2 →
      SpellsLengths code total (earlier ++ List.replicate (3 + numberOf extra) previous) bits
        lengths →
      SpellsLengths code total earlier (spelled ++ extra ++ bits) lengths
  | unused {earlier lengths : List Nat} {spelled extra bits : List Bool} {symbol first : Nat} :
      code.Spells spelled symbol →
      (symbol, first, extra.length) ∈ gapClasses →
      SpellsLengths code total (earlier ++ List.replicate (first + numberOf extra) 0) bits
        lengths →
      SpellsLengths code total earlier (spelled ++ extra ++ bits) lengths

/-- The lengths of the code length code, which are stored in an order of their own. -/
def codeLengthLengths (stored : List Nat) : List Nat :=
  (List.range codeLengthOrder.length).map fun symbol =>
    (stored[codeLengthOrder.idxOf symbol]?).getD 0

/-- The lengths make a code: no bit string begins with two codes, and only a code of at most one
symbol leaves any bit string without one. -/
def IsUsable (lengths : List Nat) : Prop :=
  CodeTree.isComplete lengths = true ∨ CodeTree.isTrivial lengths = true

/-- The bits are the numbers of lengths, the code length code, and the lengths of two codes. -/
inductive DescribesCodes : List Bool → (literals distances : List Nat) → Prop
  | intro {literalCount distanceCount storedCount bits : List Bool} {stored : List (List Bool)}
      {literals distances : List Nat} :
      literalCount.length = 5 →
      literals.length = 257 + numberOf literalCount →
      literals.length ≤ 286 →
      distanceCount.length = 5 →
      distances.length = 1 + numberOf distanceCount →
      distances.length ≤ 30 →
      storedCount.length = 4 →
      stored.length = 4 + numberOf storedCount →
      (∀ length ∈ stored, length.length = 3) →
      CodeTree.isComplete (codeLengthLengths (stored.map numberOf)) = true →
      SpellsLengths (CodeTree.ofLengths (codeLengthLengths (stored.map numberOf)))
        (literals.length + distances.length) [] bits (literals ++ distances) →
      IsUsable literals →
      IsUsable distances →
      DescribesCodes (literalCount ++ distanceCount ++ storedCount ++ stored.flatten ++ bits)
        literals distances

/-! ## Blocks -/

/-- The bits are a block of one of three kinds. The data of a stored block starts at the next whole
byte, with its length and a number that is the complement of it. -/
inductive IsBlock (position : Nat) (earlier : Bytes) : (kind : Nat) → List Bool → Bytes → Prop
  | stored {padding length complement : List Bool} {piece : Bytes} :
      padding.length < 8 →
      8 ∣ position + padding.length →
      length.length = 16 →
      numberOf length = piece.length →
      complement.length = 16 →
      numberOf length + numberOf complement = 0xFFFF →
      IsBlock position earlier 0 (padding ++ length ++ complement ++ bitsOf piece) piece
  | fixed {bits : List Bool} {piece : Bytes} :
      IsCoded (CodeTree.ofLengths fixedLiteralLengths) (CodeTree.ofLengths fixedDistanceLengths)
        earlier bits piece →
      IsBlock position earlier 1 bits piece
  | described {header bits : List Bool} {literals distances : List Nat} {piece : Bytes} :
      DescribesCodes header literals distances →
      IsCoded (CodeTree.ofLengths literals) (CodeTree.ofLengths distances) earlier bits piece →
      IsBlock position earlier 2 (header ++ bits) piece

inductive IsStream : (position : Nat) → Bytes → List Bool → Bytes → Prop
  | last {position : Nat} {earlier piece : Bytes} {kind bits : List Bool} :
      kind.length = 2 →
      IsBlock (position + 3) earlier (numberOf kind) bits piece →
      IsStream position earlier (true :: kind ++ bits) piece
  | more {position : Nat} {earlier piece others : Bytes} {kind bits rest : List Bool} :
      kind.length = 2 →
      IsBlock (position + 3) earlier (numberOf kind) bits piece →
      IsStream (position + 3 + bits.length) (earlier ++ piece) rest others →
      IsStream position earlier (false :: kind ++ bits ++ rest) (piece ++ others)

/-- The bytes are one complete deflate stream of the text. Bits that fill its last byte do not
matter. -/
def Encodes (history stream text : Bytes) : Prop :=
  ∃ bits padding, bitsOf stream = bits ++ padding ∧ padding.length < 8 ∧
    IsStream 0 history bits text

/-! ## Symbols -/

theorem IsClass.positive {slot distance : Nat} {extra : List Bool}
    (isClass : IsClass distanceClasses slot extra distance) : 0 < distance := by
  obtain ⟨first, found, rfl⟩ := isClass
  have all : ∀ entry ∈ distanceClasses, 0 < entry.1 := by decide
  exact Nat.add_pos_left (all _ (List.mem_of_getElem? found)) _

/-! ## Coded data -/

variable {earlier : Bytes}

/-- Coded data by its first symbol. -/
theorem isCoded_iff {literals distances : CodeTree} {bits : List Bool} {piece : Bytes} :
    IsCoded literals distances earlier bits piece ↔
      ∃ symbol code rest, bits = code ++ rest ∧ literals.Spells code symbol ∧
        if symbol < 256 then
          ∃ byte others, piece = byte ++ others ∧ byte = [UInt8.ofNat symbol] ∧
            IsCoded literals distances (earlier ++ byte) rest others
        else if symbol = 256 then rest = [] ∧ piece = []
        else
          ∃ length lengthExtra rest₁, rest = lengthExtra ++ rest₁ ∧
            IsClass lengthClasses (symbol - 257) lengthExtra length ∧
          ∃ slot distanceCode rest₂, rest₁ = distanceCode ++ rest₂ ∧
            distances.Spells distanceCode slot ∧
          ∃ distance distanceExtra rest₃, rest₂ = distanceExtra ++ rest₃ ∧
            IsClass distanceClasses slot distanceExtra distance ∧
          ∃ copied others, piece = copied ++ others ∧
            (copied.length = length ∧ IsCopy earlier distance copied) ∧
            IsCoded literals distances (earlier ++ copied) rest₃ others := by
  constructor
  · intro coded
    cases coded with
    | stop spelled => exact ⟨256, bits, [], (List.append_nil bits).symm, spelled, by simp⟩
    | @literal _ code rest byte others spelled coded =>
        refine ⟨byte.toNat, code, rest, rfl, spelled, ?_⟩
        rw [if_pos byte.toNat_lt, UInt8.ofNat_toNat]
        exact ⟨[byte], others, rfl, rfl, coded⟩
    | @reference _ index slot distance copied others lengthCode lengthExtra distanceCode
        distanceExtra rest spelled isLength spelled' isDistance isCopy coded =>
        refine ⟨257 + index, lengthCode, lengthExtra ++ (distanceCode ++ (distanceExtra ++ rest)),
          by simp only [List.append_assoc], spelled, ?_⟩
        rw [if_neg (by omega), if_neg (by omega), Nat.add_sub_cancel_left]
        exact ⟨_, lengthExtra, _, rfl, isLength, slot, distanceCode, _, rfl, spelled', distance,
          distanceExtra, rest, rfl, isDistance, copied, others, rfl, ⟨rfl, isCopy⟩, coded⟩
  · rintro ⟨symbol, code, rest, rfl, spelled, coded⟩
    split at coded
    · rename_i literal
      obtain ⟨_, others, rfl, rfl, coded⟩ := coded
      rw [← toNat_byte literal] at spelled
      exact .literal spelled coded
    · split at coded
      · rename_i stop
        obtain ⟨rfl, rfl⟩ := coded
        exact (List.append_nil code).symm ▸ .stop (stop ▸ spelled)
      · obtain ⟨_, lengthExtra, _, rfl, isLength, slot, distanceCode, _, rfl, spelled', distance,
          distanceExtra, rest, rfl, isDistance, copied, others, rfl, ⟨rfl, isCopy⟩, coded⟩ := coded
        obtain ⟨index, rfl⟩ := Nat.exists_eq_add_of_le (show 257 ≤ symbol by omega)
        rw [Nat.add_sub_cancel_left] at isLength
        simp only [← List.append_assoc]
        exact .reference spelled isLength spelled' isDistance isCopy coded

/-! ## Code lengths -/

/-- Every step adds lengths. -/
theorem SpellsLengths.length_le {code : CodeTree} {total : Nat} {earlier lengths : List Nat}
    {bits : List Bool} (spells : SpellsLengths code total earlier bits lengths) :
    lengths.length = total ∧ earlier.length ≤ total := by
  induction spells with
  | done all => exact ⟨all, Nat.le_of_eq all⟩
  | length _ _ _ ih | again _ _ _ _ ih | unused _ _ _ ih =>
      rw [List.length_append] at ih
      exact ⟨ih.1, Nat.le_of_add_right_le ih.2⟩

/-- Nothing follows once all lengths are there. -/
theorem SpellsLengths.complete {code : CodeTree} {total : Nat} {earlier lengths : List Nat}
    {bits : List Bool} (spells : SpellsLengths code total earlier bits lengths)
    (all : earlier.length = total) : lengths = earlier ∧ bits = [] := by
  have positive : ∀ entry ∈ gapClasses, 0 < entry.2.1 := by decide
  cases spells with
  | done => exact ⟨rfl, rfl⟩
  | length _ _ behind =>
      have added := behind.length_le.2
      rw [List.length_append, List.length_singleton] at added
      omega
  | again _ _ _ behind =>
      have added := behind.length_le.2
      rw [List.length_append, List.length_replicate] at added
      omega
  | unused _ gap behind =>
      have added := behind.length_le.2
      have some := positive _ gap
      rw [List.length_append, List.length_replicate] at added
      dsimp only at some
      omega

section

variable {code : CodeTree} {total symbol : Nat} {reversed lengths : List Nat}
  {spelled bits : List Bool}

/-- Extra bits that say how often a length is repeated, and the lengths behind the repetitions. -/
def SpellsRun (code : CodeTree) (total : Nat) (reversed : List Nat) (width first value : Nat)
    (bits : List Bool) (lengths : List Nat) : Prop :=
  ∃ count extra rest, bits = extra ++ rest ∧ (extra.length = width ∧ count = numberOf extra) ∧
    SpellsLengths code total (reversed.reverse ++ List.replicate (first + count) value) rest lengths

def SpellsBehind (code : CodeTree) (total : Nat) (reversed : List Nat) (symbol : Nat)
    (bits : List Bool) (lengths : List Nat) : Prop :=
  if symbol < 16 then SpellsLengths code total (reversed.reverse ++ [symbol]) bits lengths
  else if symbol = 16 then
    ∃ previous, reversed.head? = some previous ∧
      SpellsRun code total reversed 2 3 previous bits lengths
  else if symbol = 17 then SpellsRun code total reversed 3 3 0 bits lengths
  else SpellsRun code total reversed 7 11 0 bits lengths

theorem spellsBehind_gap {first width : Nat} (gap : (symbol, first, width) ∈ gapClasses) :
    SpellsBehind code total reversed symbol bits lengths ↔
      SpellsRun code total reversed width first 0 bits lengths := by
  simp only [gapClasses, List.mem_cons, Prod.mk.injEq, List.not_mem_nil, or_false] at gap
  obtain ⟨rfl, rfl, rfl⟩ | ⟨rfl, rfl, rfl⟩ := gap <;> rfl

/-- As long as lengths are missing there is another symbol. -/
theorem SpellsLengths.next_symbol (spells : SpellsLengths code total reversed.reverse bits lengths)
    (missing : reversed.length ≠ total) :
    ∃ symbol spelled rest, bits = spelled ++ rest ∧ code.Spells spelled symbol ∧
      SpellsBehind code total reversed symbol rest lengths := by
  cases spells with
  | done all => exact absurd (List.length_reverse.symm.trans all) missing
  | @length _ _ spelled rest length short spells behind =>
      have literal : length < 16 := Nat.lt_succ_of_le short
      refine ⟨length, spelled, rest, rfl, spells, ?_⟩
      rw [SpellsBehind, if_pos literal]
      exact behind
  | @again _ _ spelled extra rest previous spells last wide behind =>
      rw [List.getLast?_reverse] at last
      exact ⟨16, spelled, extra ++ rest, List.append_assoc .., spells, previous, last, _, extra,
        rest, rfl, ⟨wide, rfl⟩, behind⟩
  | @unused _ _ spelled extra rest symbol first spells gap behind =>
      exact ⟨symbol, spelled, extra ++ rest, List.append_assoc .., spells,
        (spellsBehind_gap gap).mpr ⟨_, extra, rest, rfl, ⟨rfl, rfl⟩, behind⟩⟩

/-- The symbol 16 repeats the last length, of which there must be one. -/
theorem SpellsRun.again {previous : Nat} (spells : code.Spells spelled 16)
    (last : reversed.head? = some previous)
    (run : SpellsRun code total reversed 2 3 previous bits lengths) :
    SpellsLengths code total reversed.reverse (spelled ++ bits) lengths := by
  obtain ⟨_, extra, rest, rfl, ⟨wide, rfl⟩, behind⟩ := run
  rw [← List.getLast?_reverse] at last
  rw [← List.append_assoc]
  exact .again spells last wide behind

theorem SpellsRun.unused {first width : Nat} (spells : code.Spells spelled symbol)
    (gap : (symbol, first, width) ∈ gapClasses)
    (run : SpellsRun code total reversed width first 0 bits lengths) :
    SpellsLengths code total reversed.reverse (spelled ++ bits) lengths := by
  obtain ⟨_, extra, rest, rfl, ⟨rfl, rfl⟩, behind⟩ := run
  rw [← List.append_assoc]
  exact .unused spells gap behind

theorem SpellsBehind.spells (spells : code.Spells spelled symbol) (known : symbol < 19)
    (behind : SpellsBehind code total reversed symbol bits lengths) :
    SpellsLengths code total reversed.reverse (spelled ++ bits) lengths := by
  unfold SpellsBehind at behind
  split at behind
  · next literal => exact .length (Nat.le_of_lt_succ literal) spells behind
  · next special =>
      split at behind
      · next repeats =>
          obtain ⟨previous, last, run⟩ := behind
          exact run.again (repeats ▸ spells) last
      · next other =>
          split at behind
          · next short => exact behind.unused spells (by simp [gapClasses, short])
          · next long =>
              have eighteen : symbol = 18 := by omega
              exact behind.unused spells (by simp [gapClasses, eighteen])

end

/-- Code lengths by their first symbol, of a code with at most 19 symbols. -/
theorem spellsLengths_iff {stored : List Nat} (few : stored.length ≤ 19) {total : Nat}
    {reversed lengths : List Nat} {bits : List Bool} :
    SpellsLengths (CodeTree.ofLengths stored) total reversed.reverse bits lengths ↔
      if total < reversed.length then False
      else if reversed.length = total then lengths = reversed.reverse ∧ bits = []
      else
        ∃ symbol spelled rest, bits = spelled ++ rest ∧
          (CodeTree.ofLengths stored).Spells spelled symbol ∧
          SpellsBehind (CodeTree.ofLengths stored) total reversed symbol rest lengths := by
  constructor
  · intro spells
    have within := spells.length_le.2
    rw [List.length_reverse] at within
    rw [if_neg (Nat.not_lt.mpr within)]
    split
    · next all => exact spells.complete (List.length_reverse.trans all)
    · next missing => exact spells.next_symbol missing
  · intro spells
    split at spells
    · exact spells.elim
    · split at spells
      · next all =>
          obtain ⟨rfl, rfl⟩ := spells
          exact .done (List.length_reverse.trans all)
      · obtain ⟨symbol, spelled, rest, rfl, spells, behind⟩ := spells
        exact behind.spells spells (Nat.lt_of_lt_of_le spells.lt_length few)

/-! ## Descriptions and streams, part by part -/

/-- One run of lengths describes both codes, so a repetition may go on from the first into the
second. Where the run is cut follows from the first count alone. -/
theorem describesCodes_iff {bits : List Bool} {literals distances : List Nat} :
    DescribesCodes bits literals distances ↔
      ∃ (literalCount distanceCount storedCount spelled : List Bool) (stored : List (List Bool))
          (lengths : List Nat),
        bits = literalCount ++ (distanceCount ++ (storedCount ++ (stored.flatten ++ spelled))) ∧
        literalCount.length = 5 ∧ distanceCount.length = 5 ∧ storedCount.length = 4 ∧
        257 + numberOf literalCount ≤ 286 ∧ 1 + numberOf distanceCount ≤ 30 ∧
        stored.length = 4 + numberOf storedCount ∧ (∀ length ∈ stored, length.length = 3) ∧
        CodeTree.isComplete (codeLengthLengths (stored.map numberOf)) = true ∧
        SpellsLengths (CodeTree.ofLengths (codeLengthLengths (stored.map numberOf)))
          (257 + numberOf literalCount + (1 + numberOf distanceCount)) [] spelled lengths ∧
        literals = lengths.take (257 + numberOf literalCount) ∧
        distances = lengths.drop (257 + numberOf literalCount) ∧
        IsUsable literals ∧ IsUsable distances := by
  constructor
  · intro described
    cases described with
    | @intro literalCount distanceCount storedCount spelled stored _ _ wide size few wide' size'
        few' wide'' counted all complete spells usable usable' =>
        rw [size] at few
        rw [size'] at few'
        refine ⟨literalCount, distanceCount, storedCount, spelled, stored, literals ++ distances,
          by simp only [List.append_assoc], wide, wide', wide'', few, few', counted, all, complete,
          size ▸ size' ▸ spells, ?_, ?_, usable, usable'⟩
        · rw [List.take_left' size]
        · rw [List.drop_left' size]
  · rintro ⟨literalCount, distanceCount, storedCount, spelled, stored, lengths, rfl, wide, wide',
      wide'', few, few', counted, all, complete, spells, rfl, rfl, usable, usable'⟩
    have total := spells.length_le.1
    have size : (lengths.take (257 + numberOf literalCount)).length =
        257 + numberOf literalCount := by
      rw [List.length_take]
      omega
    have size' : (lengths.drop (257 + numberOf literalCount)).length =
        1 + numberOf distanceCount := by
      rw [List.length_drop]
      omega
    simp only [← List.append_assoc]
    refine .intro wide size (Nat.le_trans (Nat.le_of_eq size) few) wide' size'
      (Nat.le_trans (Nat.le_of_eq size') few') wide'' counted all complete ?_ usable usable'
    rw [size, size', List.take_append_drop]
    exact spells

/-- After the mark and the kind comes a block, and behind it whatever the mark announces. -/
theorem isStream_iff {position : Nat} {bits : List Bool} {text : Bytes} :
    IsStream position earlier bits text ↔
      ∃ isLast kind block rest piece others,
        bits = isLast :: (kind ++ (block ++ rest)) ∧ text = piece ++ others ∧ kind.length = 2 ∧
        IsBlock (position + 3) earlier (numberOf kind) block piece ∧
        if isLast then rest = [] ∧ others = []
        else IsStream (position + 3 + block.length) (earlier ++ piece) rest others := by
  constructor
  · intro stream
    cases stream with
    | @last _ _ _ kind bits wide block =>
        exact ⟨true, kind, bits, [], text, [], by simp, by simp, wide, block, rfl, rfl⟩
    | @more _ _ piece others kind bits rest wide block stream =>
        exact ⟨false, kind, bits, rest, piece, others, by simp, rfl, wide, block, stream⟩
  · rintro ⟨isLast, kind, block, rest, piece, others, rfl, rfl, wide, formed, behind⟩
    cases isLast with
    | true =>
        obtain ⟨rfl, rfl⟩ := behind
        have stream : IsStream position earlier (true :: kind ++ block) piece := .last wide formed
        simpa using stream
    | false =>
        have stream : IsStream position earlier (false :: kind ++ block ++ rest)
            (piece ++ others) := .more wide formed behind
        simpa using stream

/-! ## Older history

What stands for bytes behind some history stands for the same bytes behind a longer one, because
matches count from the end.
-/

theorem IsCopy.behind {distance : Nat} {copied : Bytes} (copy : IsCopy earlier distance copied)
    (older : Bytes) : IsCopy (older ++ earlier) distance copied := by
  have reached := copy.reached
  refine ⟨by rw [List.length_append]; omega, fun index inside => ?_⟩
  have place : (older ++ earlier).length + index - distance =
      older.length + (earlier.length + index - distance) := by
    rw [List.length_append]
    omega
  rw [copy.same index inside, place, List.append_assoc,
    List.getElem?_append_right (Nat.le_add_right _ _), Nat.add_sub_cancel_left]

/-- Older bytes in front of the history change nothing: copies reach back from its end. -/
theorem IsCoded.behind {literals distances : CodeTree} {bits : List Bool} {piece : Bytes}
    (coded : IsCoded literals distances earlier bits piece) (older : Bytes) :
    IsCoded literals distances (older ++ earlier) bits piece := by
  induction coded with
  | stop ends => exact .stop ends
  | literal spelled _ ih => exact .literal spelled (List.append_assoc .. ▸ ih)
  | reference length lengthExtra distance distanceExtra copy _ ih =>
      exact .reference length lengthExtra distance distanceExtra (copy.behind older)
        (List.append_assoc .. ▸ ih)

theorem IsBlock.behind {position kind : Nat} {bits : List Bool} {piece : Bytes}
    (block : IsBlock position earlier kind bits piece) (older : Bytes) :
    IsBlock position (older ++ earlier) kind bits piece := by
  cases block with
  | stored padding aligned length counted complement sums =>
      exact .stored padding aligned length counted complement sums
  | fixed coded => exact .fixed (coded.behind older)
  | described codes coded => exact .described codes (coded.behind older)

/-- A stream that decodes without a history decodes behind any. -/
theorem IsStream.behind {position : Nat} {bits : List Bool} {text : Bytes}
    (stream : IsStream position earlier bits text) (older : Bytes) :
    IsStream position (older ++ earlier) bits text := by
  induction stream with
  | last kind block => exact .last kind (block.behind older)
  | more kind block _ ih => exact .more kind (block.behind older) (List.append_assoc .. ▸ ih)

theorem Encodes.behind {stream text : Bytes} (encodes : Encodes earlier stream text)
    (older : Bytes) : Encodes (older ++ earlier) stream text := by
  obtain ⟨bits, padding, split, short, blocks⟩ := encodes
  exact ⟨bits, padding, split, short, blocks.behind older⟩

end CilRecovery.Deflate
