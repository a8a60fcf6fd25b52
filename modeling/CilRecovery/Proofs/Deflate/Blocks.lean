import CilRecovery.Proofs.Deflate.Realization

/-!
# Inflaters of blocks

The inflaters of codes, of coded and stored data and of whole streams realize the format.
-/

set_option autoImplicit false

namespace CilRecovery.Deflate.Inflater

variable {data : Bytes} {position : Nat} {earlier : Bytes}

/-! ## The data of blocks -/

theorem realizes_storedData (inside : position ≤ (bitsOf data).length) :
    Realizes data position earlier storedData fun _ bits piece =>
      IsBlock position earlier 0 bits piece := by
  unfold storedData
  refine ((consumes_align inside).followed fun _ padding _ aligned =>
    (consumes_number 16).followed fun length _ _ counted =>
      (consumes_number 16).followed fun complement _ _ counted' =>
        Realizes.guarded fun _ => realizes_transfer ?_ length).congr fun _ bits piece => ?_
  · rw [counted.1, counted'.1]
    exact Nat.dvd_add (Nat.dvd_add aligned.2 (by decide)) (by decide)
  · constructor
    · rintro ⟨_, padding, _, rfl, ⟨short, aligned⟩, _, length, _, rfl, ⟨wide, rfl⟩, _, complement,
        _, rfl, ⟨wide', rfl⟩, sums, rfl, size⟩
      simp only [← List.append_assoc]
      exact .stored short aligned wide size.symm wide' (Decidable.not_not.mp sums)
    · intro block
      cases block with
      | stored short aligned wide size wide' sums =>
          simp only [List.append_assoc]
          exact ⟨(), _, _, rfl, ⟨short, aligned⟩, _, _, _, rfl, ⟨wide, rfl⟩, _, _, _, rfl,
            ⟨wide', rfl⟩, Decidable.not_not.mpr sums, rfl, size.symm⟩

/-- The induction is on the fuel. Each symbol takes one unit of it and at least one bit. -/
theorem realizes_codedData {literals distances : List Nat} {fuel : Nat}
    (enough : (ahead data position).length < fuel) :
    Realizes data position earlier
      (codedData (CodeTree.ofLengths literals) (CodeTree.ofLengths distances) fuel)
      fun _ bits piece =>
        IsCoded (CodeTree.ofLengths literals) (CodeTree.ofLengths distances) earlier bits piece := by
  induction fuel generalizing position earlier with
  | zero => omega
  | succ fuel ih =>
      -- A symbol takes at least one bit, so that the fuel outlasts the bits.
      have shorter {code : List Bool} {symbol further : Nat} (found : code <+: ahead data position)
          (spelled : (CodeTree.ofLengths literals).Spells code symbol)
          (later : position + code.length ≤ further) : (ahead data further).length < fuel :=
        Nat.lt_of_lt_of_le (length_ahead_lt found spelled.ne_nil later)
          (Nat.le_of_lt_succ enough)
      refine ((consumes_symbol _).followed fun symbol code found spelled =>
        Realizes.ite (fun _ => (realizes_emit _).wrote fun _ _ => ih ?_) fun _ =>
        Realizes.ite (fun _ => .done) fun _ =>
          (consumes_classValue _ _).followed fun length _ _ _ =>
          (consumes_symbol _).followed fun slot _ _ _ =>
          (consumes_classValue _ _).followed fun distance _ _ isClass =>
          (realizes_copy isClass.positive length).wrote fun _ _ => ih ?_).congr
            fun _ bits piece => isCoded_iff.symm
      · exact shorter found spelled (Nat.le_refl _)
      · exact shorter found spelled (by omega)

/-! ## Described codes -/

/-- The lengths that are accepted are those of usable codes, no bits being read. -/
theorem consumes_dataCode (lengths : List Nat) :
    Consumes data position (dataCode lengths) fun code bits =>
      IsUsable lengths ∧ code = CodeTree.ofLengths lengths ∧ bits = [] := by
  unfold dataCode
  by_cases usable : IsUsable lengths
  · rw [if_pos (Bool.or_eq_true_iff.mpr usable)]
    exact (Consumes.pure _).congr fun _ _ => (and_iff_right usable).symm
  · rw [if_neg (mt Bool.or_eq_true_iff.mp usable)]
    exact (Consumes.throw .corrupt).congr fun _ _ => ⟨False.elim, fun formed => usable formed.1⟩

theorem consumes_codeLengths {stored : List Nat} (few : stored.length ≤ 19) {total fuel : Nat}
    {reversed : List Nat} (enough : total < reversed.length + fuel) :
    Consumes data position (codeLengths (CodeTree.ofLengths stored) total fuel reversed)
      fun lengths bits =>
        SpellsLengths (CodeTree.ofLengths stored) total reversed.reverse bits lengths := by
  induction fuel generalizing position reversed with
  | zero =>
      refine (Consumes.throw .corrupt).congr fun _ _ => ⟨False.elim, fun spells => ?_⟩
      have within := spells.length_le.2
      rw [List.length_reverse] at within
      omega
  | succ fuel ih =>
      refine (Consumes.ite (fun _ => Consumes.throw .corrupt) fun _ =>
        Consumes.ite (fun _ => Consumes.pure _) fun _ =>
        (consumes_symbol _).bind fun length _ _ _ =>
        Consumes.ite (fun _ => ih ?_) fun _ =>
        Consumes.ite (fun _ => (?again : Consumes _ _ _ fun lengths bits =>
          ∃ previous, reversed.head? = some previous ∧
          ∃ count extra rest, bits = extra ++ rest ∧ (extra.length = 2 ∧ count = numberOf extra) ∧
            SpellsLengths (CodeTree.ofLengths stored) total
              (List.replicate (3 + count) previous ++ reversed).reverse rest lengths)) fun _ =>
        Consumes.ite (fun _ => (consumes_number 3).bind fun count _ _ _ => ih ?_) fun _ =>
        (consumes_number 7).bind fun count _ _ _ => ih ?_).congr fun lengths bits => ?_
      case again =>
        cases reversed with
        | nil => exact (Consumes.throw .corrupt).congr fun _ _ => ⟨False.elim, nofun⟩
        | cons previous others =>
            refine ((consumes_number 2).bind fun count _ _ _ => ih ?_).congr fun lengths bits => ?_
            · simp only [List.length_append, List.length_replicate, List.length_cons] at enough ⊢
              omega
            · rw [List.head?_cons]
              constructor
              · intro spells
                exact ⟨previous, rfl, spells⟩
              · rintro ⟨_, same, spells⟩
                cases same
                exact spells
      · rw [List.length_cons]
        omega
      · rw [List.length_append, List.length_replicate]
        omega
      · rw [List.length_append, List.length_replicate]
        omega
      · simp only [List.reverse_append, List.reverse_replicate, List.reverse_cons]
        exact (spellsLengths_iff few).symm

theorem length_codeLengthLengths (stored : List Nat) : (codeLengthLengths stored).length = 19 := by
  simp [codeLengthLengths, codeLengthOrder]

/-- Reading the description of a block gives the codes that its grammar describes. -/
theorem consumes_describedCodes :
    Consumes data position describedCodes fun codes bits =>
      ∃ literals distances, DescribesCodes bits literals distances ∧
        codes = (CodeTree.ofLengths literals, CodeTree.ofLengths distances) := by
  unfold describedCodes
  refine ((consumes_number 5).bind fun literalCount _ _ _ =>
    (consumes_number 5).bind fun distanceCount _ _ _ =>
    (consumes_number 4).bind fun storedCount _ _ _ =>
    Consumes.guarded fun _ =>
    (consumes_times_number 3 _).bind fun stored _ _ _ =>
    Consumes.guarded fun _ =>
    (consumes_codeLengths (Nat.le_of_eq (length_codeLengthLengths stored)) ?_).bind
      fun all _ _ _ =>
    (consumes_dataCode _).bind fun literals _ _ _ =>
    (consumes_dataCode _).bind fun distances _ _ _ =>
    Consumes.pure (literals, distances)).congr fun codes bits => ?_
  · exact Nat.lt_succ_of_le (Nat.le_add_left _ _)
  · constructor
    · rintro ⟨_, literalCount, _, rfl, ⟨wide, rfl⟩, _, distanceCount, _, rfl, ⟨wide', rfl⟩, _,
        storedCount, _, rfl, ⟨wide'', rfl⟩, few, _, _, _, rfl, ⟨stored, rfl, counted, all, rfl⟩,
        complete, lengths, spelled, _, rfl, spells, _, _, _, rfl, ⟨usable, rfl, rfl⟩, _, _, _, rfl,
        ⟨usable', rfl, rfl⟩, rfl, rfl⟩
      simp only [Bool.or_eq_true, decide_eq_true_eq, not_or, Nat.not_lt] at few
      simp only [Bool.not_eq_true', Bool.not_eq_false] at complete
      refine ⟨_, _, describesCodes_iff.mpr ⟨literalCount, distanceCount, storedCount, spelled,
        stored, lengths, ?_, wide, wide', wide'', few.1, few.2, counted, all, complete, spells, rfl,
        rfl, usable, usable'⟩, rfl⟩
      simp only [List.append_nil]
    · rintro ⟨literals, distances, described, rfl⟩
      obtain ⟨literalCount, distanceCount, storedCount, spelled, stored, lengths, rfl, wide, wide',
        wide'', few, few', counted, all, complete, spells, rfl, rfl, usable, usable'⟩ :=
        describesCodes_iff.mp described
      have bounds : ¬ (decide (286 < 257 + numberOf literalCount) ||
          decide (30 < 1 + numberOf distanceCount)) = true := by
        simp only [Bool.or_eq_true, decide_eq_true_eq, not_or, Nat.not_lt]
        exact ⟨few, few'⟩
      have complete : ¬ (!CodeTree.isComplete (codeLengthLengths (stored.map numberOf))) = true := by
        simpa using complete
      exact ⟨_, literalCount, _, rfl, ⟨wide, rfl⟩, _, distanceCount, _, rfl, ⟨wide', rfl⟩, _,
        storedCount, _, rfl, ⟨wide'', rfl⟩, bounds, _, _, _, rfl,
        ⟨stored, rfl, counted, all, rfl⟩, complete, lengths, spelled, [],
        (List.append_nil _).symm, spells,
        CodeTree.ofLengths (lengths.take (257 + numberOf literalCount)), [], [], rfl,
        ⟨usable, rfl, rfl⟩, CodeTree.ofLengths (lengths.drop (257 + numberOf literalCount)), [], [],
        rfl, ⟨usable', rfl, rfl⟩, rfl, rfl⟩

theorem realizes_describedData {bound : Nat} (enough : (ahead data position).length < bound) :
    Realizes data position earlier
      (describedCodes >>= fun codes => codedData codes.1 codes.2 bound) fun _ bits piece =>
        IsBlock position earlier 2 bits piece := by
  have coded (codes : CodeTree × CodeTree) (header : List Bool)
      (_ : header <+: ahead data position) (formed : ∃ literals distances,
        DescribesCodes header literals distances ∧
          codes = (CodeTree.ofLengths literals, CodeTree.ofLengths distances)) :
      Realizes data (position + header.length) earlier (codedData codes.1 codes.2 bound)
        fun _ bits piece => IsCoded codes.1 codes.2 earlier bits piece := by
    obtain ⟨literals, distances, _, rfl⟩ := formed
    exact realizes_codedData
      (Nat.lt_of_le_of_lt (length_ahead_le (Nat.le_add_right _ _)) enough)
  refine (consumes_describedCodes.followed coded).congr fun _ bits piece => ?_
  constructor
  · rintro ⟨_, header, rest, rfl, ⟨literals, distances, describes, rfl⟩, coded⟩
    exact .described describes coded
  · intro block
    cases block with
    | described describes coded => exact ⟨_, _, _, rfl, ⟨_, _, describes, rfl⟩, coded⟩

/-! ## Streams -/

def block (bound kind : Nat) : Inflater Unit :=
  if kind = 0 then storedData
  else if kind = 1 then
    codedData (CodeTree.ofLengths fixedLiteralLengths) (CodeTree.ofLengths fixedDistanceLengths)
      bound
  else if kind = 2 then
    describedCodes >>= fun codes => codedData codes.1 codes.2 bound
  else throw .corrupt

theorem blocks_succ (bound fuel : Nat) :
    blocks bound (fuel + 1) = bit >>= fun isLast => number 2 >>= fun kind =>
      block bound kind >>= fun _ => if isLast then pure () else blocks bound fuel := by
  rw [blocks]
  unfold block
  congr 1
  funext isLast
  congr 1
  funext kind
  by_cases stored : kind = 0
  · simp only [if_pos stored]
  · by_cases fixed : kind = 1
    · simp only [if_neg stored, if_pos fixed]
    · by_cases described : kind = 2
      · simp only [if_neg stored, if_neg fixed, if_pos described, bind_assoc]
      · simp only [if_neg stored, if_neg fixed, if_neg described]

/-- The kinds of blocks that do not exist have no bits, and reading them fails. -/
theorem realizes_block {bound : Nat} (inside : position ≤ (bitsOf data).length)
    (enough : (ahead data position).length < bound) (kind : Nat) :
    Realizes data position earlier (block bound kind) fun _ bits piece =>
      IsBlock position earlier kind bits piece := by
  refine (Realizes.ite (fun _ => realizes_storedData inside) fun _ =>
    Realizes.ite (fun _ => realizes_codedData enough) fun _ =>
    Realizes.ite (fun _ => realizes_describedData enough) fun _ =>
    Realizes.throw .corrupt).congr fun _ bits piece => ?_
  constructor
  · intro formed
    split at formed
    · rename_i stored
      exact stored ▸ formed
    · split at formed
      · rename_i fixed
        exact fixed ▸ .fixed formed
      · split at formed
        · rename_i described
          exact described ▸ formed
        · exact formed.elim
  · intro block
    cases block with
    | stored short aligned wide size wide' sums => exact .stored short aligned wide size wide' sums
    | fixed coded => exact coded
    | described describes coded => exact .described describes coded

/-- Each block takes at least three bits, so the bound on the blocks is never reached. -/
theorem realizes_blocks {bound fuel : Nat} (inside : position ≤ (bitsOf data).length)
    (enough : (ahead data position).length < bound)
    (enough' : (ahead data position).length < fuel) :
    Realizes data position earlier (blocks bound fuel) fun _ bits piece =>
      IsStream position earlier bits piece := by
  induction fuel generalizing position earlier with
  | zero => omega
  | succ fuel ih =>
      rw [blocks_succ]
      refine (consumes_bit.followed fun isLast mark found marked =>
        (consumes_number 2).followed fun kind digits found' _ =>
        (realizes_block ?_ ?_ kind).bind fun _ bits piece found'' _ =>
        Realizes.ite (fun _ => .done) fun _ => ih ?_ ?_ ?_).congr fun _ bits piece => ?_
      · exact add_length_le (add_length_le inside found) found'
      · exact Nat.lt_of_le_of_lt (length_ahead_le (by omega)) enough
      · exact add_length_le (add_length_le (add_length_le inside found) found') found''
      · exact Nat.lt_of_le_of_lt (length_ahead_le (by omega)) enough
      · have taken : mark ≠ [] := marked ▸ List.cons_ne_nil isLast []
        have shorter := length_ahead_lt found taken
          (Nat.le_trans (Nat.le_add_right _ digits.length) (Nat.le_add_right _ bits.length))
        omega
      · have place {isLast : Bool} {kind : List Bool} (wide : kind.length = 2) :
            position + [isLast].length + kind.length = position + 3 := by
          rw [wide]
          rfl
        rw [isStream_iff]
        constructor
        · rintro ⟨isLast, _, _, rfl, rfl, _, kind, _, rfl, ⟨wide, rfl⟩, _, bits, piece, rest, others,
            rfl, rfl, formed, behind⟩
          rw [place wide] at formed behind
          exact ⟨isLast, kind, bits, rest, piece, others, rfl, rfl, wide, formed, behind⟩
        · rintro ⟨isLast, kind, bits, rest, piece, others, rfl, rfl, wide, formed, behind⟩
          rw [← place wide] at formed behind
          exact ⟨isLast, [isLast], _, rfl, rfl, _, kind, _, rfl, ⟨wide, rfl⟩, (), bits, piece, rest,
            others, rfl, rfl, formed, behind⟩

end CilRecovery.Deflate.Inflater
