import CilRecovery.Proofs.Method.Clauses
import CilRecovery.Proofs.Method.Truncation

/-!
# The clauses of a span that is cut short

The clauses of a record are read from the span of its sections. A span that is cut short is refused
because it ends, except for the reserved bytes of a last section without clauses: reading passes
over them without a look.
-/

set_option autoImplicit false

namespace CilRecovery

/-! ## Readers -/

namespace Reader

variable {α β : Type}

theorem Follows.leap (count : Nat) : Follows (leap count) (leap count) := by
  intro data rest start value moved read
  cases read
  exact ⟨rfl, .inl rfl⟩

theorem Follows.times {short long : Reader α} (follows : Follows short long) (count : Nat) :
    Follows (times short count) (times long count) := by
  induction count with
  | zero => exact .pure []
  | succ count ih => exact follows.bind fun first => ih.bind fun others => .pure (first :: others)

/-- A success ends at most `slack` bytes behind the end of the buffer. -/
def EndsWithin (reader : Reader α) (slack : Nat) : Prop :=
  ∀ cursor value moved, reader cursor = .ok value moved →
    moved.position ≤ moved.buffer.length + slack

namespace EndsWithin

variable {slack : Nat}

/-- Where a sequence ends is up to its last part. -/
theorem bind (reader : Reader α) {next : α → Reader β}
    (second : ∀ value, EndsWithin (next value) slack) : EndsWithin (reader >>= next) slack := by
  intro cursor result final read
  obtain ⟨value, moved, -, continued⟩ := EState.bind_eq_ok.mp read
  exact second value moved result final continued

theorem last {reader : Reader α} (ends : EndsWithin reader slack) (result : α → β) :
    EndsWithin (reader >>= fun value => pure (result value)) slack := by
  intro cursor value final read
  obtain ⟨value', moved, read, continued⟩ := EState.bind_eq_ok.mp read
  cases continued
  exact ends cursor value' final read

theorem take (count : Nat) : EndsWithin (take count) 0 := by
  intro cursor piece moved read
  unfold Reader.take at read
  cases found : cursor.buffer.slice? cursor.position count with
  | none =>
      rw [found] at read
      cases read
  | some piece' =>
      rw [found] at read
      cases read
      exact (Bytes.slice?_eq_some found).2

theorem byte : EndsWithin byte 0 := ((take 1).last _).last _

theorem uint32 : EndsWithin uint32 0 := ((take 4).last _).last _

/-- One run or more end where a single one does. -/
theorem times {reader : Reader α} (ends : EndsWithin reader slack) (count : Nat) :
    EndsWithin (times reader (count + 1)) slack := by
  induction count with
  | zero => exact ends.last fun first => [first]
  | succ count ih => exact .bind reader fun first => ih.last fun others => first :: others

end EndsWithin

end Reader

namespace Method

open Reader (Follows EndsWithin)

/-! ## Reading what is cut short -/

theorem Clause.follows_readFat : Follows readFat readFat := by
  refine Follows.uint32.bind fun flags => Follows.uint32.bind fun tryOffset => ?_
  refine Follows.uint32.bind fun tryLength => Follows.uint32.bind fun handlerOffset => ?_
  exact Follows.uint32.bind fun handlerLength => Follows.uint32.bind fun filterOffset => .pure _

theorem Clause.follows_readSmall : Follows readSmall readSmall := by
  refine Follows.uint16.bind fun flags => Follows.uint16.bind fun tryOffset => ?_
  refine Follows.byte.bind fun tryLength => Follows.uint16.bind fun handlerOffset => ?_
  exact Follows.byte.bind fun handlerLength => Follows.uint32.bind fun filterOffset => .pure _

theorem Section.follows_readOne : Follows readOne readOne := by
  refine Follows.position.bind fun start => (Follows.leap _).bind fun _ => ?_
  refine Follows.position.bind fun start => Follows.byte.bind fun kind => ?_
  refine (Follows.check _).bind fun _ => .ite ?_ ?_
  · refine (Follows.seek start).bind fun _ => Follows.uint32.bind fun word => ?_
    exact (Clause.follows_readFat.times _).bind fun clauses => .pure _
  · refine Follows.byte.bind fun size => (Follows.leap 2).bind fun _ => ?_
    exact (Clause.follows_readSmall.times _).bind fun clauses => .pure _

/-- A walk without fuel stops as if the data had ended, so any two walks can be compared. -/
theorem Section.follows_readAll (few many : Nat) : Follows (readAll few) (readAll many) := by
  induction many generalizing few with
  | zero => exact .throw _ _
  | succ many ih =>
      have fuelled (few : Nat) : Follows (readAll (few + 1)) (readAll (many + 1)) :=
        Section.follows_readOne.bind fun ⟨first, more⟩ =>
          .ite ((ih few).bind fun others => .pure (first :: others)) (.pure [first])
      cases few with
      | zero => exact (fuelled 0).exhausted
      | succ few => exact fuelled few

/-! ## The last bytes -/

/-- The bytes at the end of a section that reading does not look at: the reserved ones of a small
section, unless clauses follow them. -/
def SectionShape.unread : SectionShape → Nat
  | ⟨false, 0⟩ => 2
  | _ => 0

/-- The bytes at the end of a chain that reading does not look at. -/
def unreadTail : List SectionShape → Nat
  | [] => 0
  | [last] => last.unread
  | _ :: others => unreadTail others

/-- Only the last section of a chain can end in bytes that are not read. -/
theorem unreadTail_cons (first : SectionShape) {others : List SectionShape} (more : others ≠ []) :
    unreadTail (first :: others) = unreadTail others := by
  cases others with
  | nil => exact (more rfl).elim
  | cons second others => rfl

theorem SectionShape.unread_le (shape : SectionShape) : shape.unread ≤ 2 := by
  unfold unread
  split <;> omega

theorem unreadTail_le (shapes : List SectionShape) : unreadTail shapes ≤ 2 := by
  induction shapes with
  | nil => exact Nat.zero_le 2
  | cons first others ih =>
      cases others with
      | nil => exact first.unread_le
      | cons second others => exact ih

def Section.shape (section_ : Section) : SectionShape := ⟨section_.isFat, section_.clauses.length⟩

theorem shape_storedSections (data : Bytes) (place : Nat) (shapes : List SectionShape) :
    (storedSections data place shapes).map Section.shape = shapes := by
  induction shapes generalizing place with
  | nil => rfl
  | cons shape shapes ih =>
      rw [storedSections, List.map_cons, ih, Section.shape, SectionShape.stored, List.length_map,
        List.length_range']

/-! ## Where reading ends -/

theorem Clause.endsWithin_readFat : EndsWithin readFat 0 := by
  refine .bind _ fun flags => .bind _ fun tryOffset => .bind _ fun tryLength => ?_
  exact .bind _ fun handlerOffset => .bind _ fun handlerLength => EndsWithin.uint32.last _

theorem Clause.endsWithin_readSmall : EndsWithin readSmall 0 := by
  refine .bind _ fun flags => .bind _ fun tryOffset => .bind _ fun tryLength => ?_
  exact .bind _ fun handlerOffset => .bind _ fun handlerLength => EndsWithin.uint32.last _

/-- A section that is read ends inside the data, its unread bytes apart. -/
theorem Section.readOne_ends {cursor moved : Cursor} {section_ : Section} {more : Bool}
    (read : readOne cursor = .ok (section_, more) moved) :
    moved.position ≤ moved.buffer.length + section_.shape.unread := by
  obtain ⟨_, _, -, read⟩ := EState.bind_eq_ok.mp read
  obtain ⟨_, _, -, read⟩ := EState.bind_eq_ok.mp read
  obtain ⟨start, _, -, read⟩ := EState.bind_eq_ok.mp read
  obtain ⟨kind, _, -, read⟩ := EState.bind_eq_ok.mp read
  obtain ⟨_, _, -, read⟩ := EState.bind_eq_ok.mp read
  split at read
  · obtain ⟨_, _, -, read⟩ := EState.bind_eq_ok.mp read
    obtain ⟨word, header, measured, read⟩ := EState.bind_eq_ok.mp read
    obtain ⟨clauses, final, listed, read⟩ := EState.bind_eq_ok.mp read
    cases read
    refine Nat.le_add_right_of_le ?_
    cases count : word.toNat / 0x100 / Clause.fatSize with
    | zero =>
        rw [count] at listed
        cases listed
        exact EndsWithin.uint32 _ _ _ measured
    | succ count' =>
        rw [count] at listed
        exact Clause.endsWithin_readFat.times count' _ _ _ listed
  · obtain ⟨size, header, measured, read⟩ := EState.bind_eq_ok.mp read
    obtain ⟨_, behind, leapt, read⟩ := EState.bind_eq_ok.mp read
    obtain ⟨clauses, final, listed, read⟩ := EState.bind_eq_ok.mp read
    cases read
    cases count : size.toNat / Clause.smallSize with
    | zero =>
        -- Nothing is read behind the reserved bytes, so they may be missing.
        rw [count] at listed
        cases listed
        cases leapt
        have inside := EndsWithin.byte _ _ _ measured
        exact Nat.add_le_add_right inside 2
    | succ count' =>
        rw [count] at listed
        exact Nat.le_add_right_of_le (Clause.endsWithin_readSmall.times count' _ _ _ listed)

/-- Where reading succeeds, at most the unread tail of the listed sections is missing. -/
theorem Section.readAll_ends {fuel : Nat} {cursor moved : Cursor} {sections : List Section}
    (read : readAll fuel cursor = .ok sections moved) :
    sections ≠ [] ∧
      moved.position ≤ moved.buffer.length + unreadTail (sections.map Section.shape) := by
  induction fuel generalizing cursor sections with
  | zero => cases read
  | succ fuel ih =>
      obtain ⟨⟨first, more⟩, middle, started, read⟩ := EState.bind_eq_ok.mp read
      dsimp only at read
      split at read
      · obtain ⟨others, final, continued, read⟩ := EState.bind_eq_ok.mp read
        cases read
        obtain ⟨present, ends⟩ := ih continued
        refine ⟨List.cons_ne_nil _ _, ?_⟩
        rw [List.map_cons, unreadTail_cons _ (by simpa using present)]
        exact ends
      · cases read
        exact ⟨List.cons_ne_nil _ _, Section.readOne_ends started⟩

/-! ## Chains without their last bytes -/

theorem IsChain.ne_nil {shapes : List SectionShape} {span : Bytes} (chain : IsChain shapes span) :
    shapes ≠ [] := by
  cases chain <;> exact List.cons_ne_nil _ _

theorem IsSection.four_le {isFat more : Bool} {clauses : Nat} {span : Bytes}
    (section_ : IsSection isFat more clauses span) : 4 ≤ span.length := by
  rw [section_.length_eq, SectionShape.size]
  exact Nat.le_add_right 4 _

theorem IsChain.four_mul_le {shapes : List SectionShape} {span : Bytes}
    (chain : IsChain shapes span) : 4 * shapes.length ≤ span.length := by
  induction chain with
  | last section_ => exact section_.four_le
  | more section_ _ ih =>
      have first := section_.four_le
      rw [List.length_cons, List.length_append]
      omega

/-- A section is read without its unread bytes. -/
theorem IsSection.readOne_kept {isFat more : Bool} {clauses : Nat} {before kept lost : Bytes}
    (section_ : IsSection isFat more clauses (kept ++ lost)) (aligned : before.length % 4 = 0)
    (few : lost.length ≤ SectionShape.unread ⟨isFat, clauses⟩) :
    ∃ result moved, Section.readOne ⟨before ++ kept, before.length⟩ = .ok (result, more) moved := by
  cases lost with
  | nil =>
      rw [List.append_nil] at section_
      have read := section_.readOne aligned []
      rw [List.append_nil] at read
      exact ⟨_, _, read⟩
  | cons byte lost =>
      generalize whole : kept ++ byte :: lost = span at section_
      cases section_ with
      | fat => cases few
      | @small kind size body marked isSmall length =>
          cases bare : size.toNat / 12 with
          | succ count =>
              rw [bare] at few
              cases few
          | zero =>
              have long := congrArg List.length whole
              rw [bare] at few length
              simp only [List.length_append, List.length_cons, length] at long
              simp only [SectionShape.unread, List.length_cons] at few
              match kept, whole, long with
              | first :: second :: others, whole, _ =>
                  cases whole
                  exact ⟨_, _, Section.readOne_bare aligned marked isSmall bare⟩
              | [_], _, long => simp at long; omega
              | [], _, long => simp at long; omega

/-- Cutting off no more than the unread tail goes unnoticed. -/
theorem IsChain.readAll_kept {shapes : List SectionShape} {span : Bytes}
    (chain : IsChain shapes span) {before kept lost : Bytes} (aligned : before.length % 4 = 0)
    (split : span = kept ++ lost) (few : lost.length ≤ unreadTail shapes) {fuel : Nat}
    (enough : shapes.length ≤ fuel) :
    ∃ sections moved,
      Section.readAll fuel ⟨before ++ kept, before.length⟩ = .ok sections moved := by
  induction chain generalizing before kept fuel with
  | last section_ =>
      obtain _ | fuel := fuel
      · cases enough
      obtain ⟨result, moved, read⟩ := (split ▸ section_).readOne_kept aligned few
      exact ⟨[result], moved, Section.readAll_last read⟩
  | @more isFat clauses shapes first rest section_ chain ih =>
      obtain _ | fuel := fuel
      · cases enough
      rw [unreadTail_cons _ chain.ne_nil] at few
      rcases List.append_eq_append_iff.mp split with ⟨kept', rfl, split'⟩ | ⟨_, -, longer⟩
      · have kept_mod := section_.length_mod
        have aligned' : (before ++ first).length % 4 = 0 := by
          rw [List.length_append]
          omega
        obtain ⟨others, moved, continued⟩ := ih aligned' split' few (Nat.le_of_succ_le_succ enough)
        rw [List.length_append, List.append_assoc] at continued
        exact ⟨_, moved, Section.readAll_more (section_.readOne aligned kept') continued⟩
      · -- The unread bytes are fewer than those of a section.
        have size := chain.four_mul_le
        have positive := List.length_pos_iff.mpr chain.ne_nil
        have tail := unreadTail_le shapes
        have short := congrArg List.length longer
        rw [List.length_append] at short
        omega

/-! ## Spans -/

/-- A chain of sections that is cut short has all its clauses if only unread bytes are missing, and
is refused because the data ends otherwise. -/
theorem IsChain.decodeClauses_take {shapes : List SectionShape} {span : Bytes}
    (chain : IsChain shapes span) (count : Nat) :
    Method.decodeClauses (span.take count) =
      if count + unreadTail shapes < span.length then .error .outOfBounds
      else .ok ((storedSections span 0 shapes).flatMap Section.clauses) := by
  have whole : Section.readAll (span.length + 1) ⟨span.take count ++ span.drop count, 0⟩ =
      .ok (storedSections span 0 shapes) ⟨span, span.length⟩ := by
    rw [List.take_append_drop]
    exact chain.readAll_span
  obtain ⟨-, follows⟩ :=
    Section.follows_readAll ((span.take count).length + 1) _ _ _ _ _ _ whole
  rw [Method.decodeClauses, Section.readChain, Reader.decode, Cursor.start]
  rcases follows with same | ⟨stopped, failed⟩
  · obtain ⟨-, ends⟩ := Section.readAll_ends same
    simp only [shape_storedSections, List.length_take] at ends
    rw [same, if_neg (by omega)]
    rfl
  · rw [failed, if_pos]
    · rfl
    · -- With all bytes but unread ones, the walk would have succeeded.
      refine Nat.lt_of_not_le fun long => ?_
      have few : (span.drop count).length ≤ unreadTail shapes := by
        rw [List.length_drop]
        omega
      have fuel : shapes.length ≤ (span.take count).length + 1 := by
        have size := chain.four_mul_le
        have tail := unreadTail_le shapes
        rw [List.length_take]
        omega
      obtain ⟨sections, moved, read⟩ := @IsChain.readAll_kept _ _ chain [] _ _ rfl
        (List.take_append_drop count span).symm few _ fuel
      rw [List.nil_append, List.length_nil, failed] at read
      cases read

/-- The span of sections of a parsed record tells where it ends, up to two bytes. Cut short by any
number of bytes it is refused because the data ends, unless the last section is small and has no
clauses and only reserved bytes of it are missing: then all clauses are there. -/
theorem Body.clauses_of_cut {data span : Bytes} {body : Body} (parsed : Body.parse data = .ok body)
    (present : body.sections = some span) :
    ∃ shapes, IsChain shapes span ∧
      body.clauses = .ok ((storedSections span 0 shapes).flatMap Section.clauses) ∧
      ∀ count, decodeClauses (span.take count) =
        if count + unreadTail shapes < span.length then .error .outOfBounds else body.clauses := by
  obtain ⟨_, _, _, record⟩ := Body.parse_iff_isRecord.mp parsed
  cases record with
  | plain => cases present
  | @extended _ code _ _ header shapes _ _ _ _ _ chain =>
      cases present
      have clauses : Body.clauses ⟨header, code, some span⟩ =
          .ok ((storedSections span 0 shapes).flatMap Section.clauses) := chain.decodeClauses
      refine ⟨shapes, chain, clauses, fun count => ?_⟩
      rw [chain.decodeClauses_take, clauses]

/-- A section with one clause and one without, cut behind the first byte of the second. -/
theorem Body.clauses_of_cut_two :
    Body.parse [0x0B, 0x30, 8, 0, 1, 0, 0, 0, 0, 0, 0, 0, 0x2A, 7, 7, 7,
        0x81, 17, 9, 9, 2, 0, 8, 0, 0x1B, 0x23, 0, 0x0A, 5, 0, 0, 0, 0x01, 4, 0, 0] =
      .ok ⟨⟨0x300B, 8, 1, 0⟩, [0x2A],
        some [0x81, 17, 9, 9, 2, 0, 8, 0, 0x1B, 0x23, 0, 0x0A, 5, 0, 0, 0, 0x01, 4, 0, 0]⟩ ∧
    decodeClauses [0x81, 17, 9, 9, 2, 0, 8, 0, 0x1B, 0x23, 0, 0x0A, 5, 0, 0, 0, 0x01] =
      .error .outOfBounds := by
  have parsed : Body.parse [0x0B, 0x30, 8, 0, 1, 0, 0, 0, 0, 0, 0, 0, 0x2A, 7, 7, 7,
        0x81, 17, 9, 9, 2, 0, 8, 0, 0x1B, 0x23, 0, 0x0A, 5, 0, 0, 0, 0x01, 4, 0, 0] =
      .ok ⟨⟨0x300B, 8, 1, 0⟩, [0x2A],
        some [0x81, 17, 9, 9, 2, 0, 8, 0, 0x1B, 0x23, 0, 0x0A, 5, 0, 0, 0, 0x01, 4, 0, 0]⟩ := rfl
  obtain ⟨shapes, -, -, cut⟩ := Body.clauses_of_cut parsed rfl
  have tail := unreadTail_le shapes
  have inside : 17 + unreadTail shapes < 20 := by omega
  exact ⟨parsed, (cut 17).trans (if_pos inside)⟩

/-- Without the reserved bytes of its only section a span is taken for complete. -/
theorem Body.clauses_of_unreserved_span :
    Body.parse [0x0B, 0x30, 8, 0, 1, 0, 0, 0, 0, 0, 0, 0, 0x2A, 0, 0, 0, 0x01, 4, 0, 0] =
        .ok ⟨⟨0x300B, 8, 1, 0⟩, [0x2A], some [0x01, 4, 0, 0]⟩ ∧
      decodeClauses (List.take 2 [0x01, 4, 0, 0]) = .ok [] :=
  ⟨rfl, rfl⟩

end Method

end CilRecovery
