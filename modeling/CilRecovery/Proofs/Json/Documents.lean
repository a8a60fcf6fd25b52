import CilRecovery.Proofs.Json.Tokens

/-!
# Documents survive their text

A document of which every string is text and every number is a 64-bit integer is read back from
its compact form.
-/

set_option autoImplicit false

namespace CilRecovery.Json

open Digits (isDigit)

/-! ## Exact documents -/

inductive IsExact : Json → Prop
  | null : IsExact .null
  | bool (value : Bool) : IsExact (.bool value)
  | integer {value : Int} (word : IsWord value) : IsExact (.number (.integer value))
  | text (text : String) : IsExact (.string (some text))
  | array {items : List Json} (hold : ∀ item ∈ items, IsExact item) : IsExact (.array items)
  | object {members : List (Option String × Json)}
      (named : ∀ member ∈ members, ∃ key, member.1 = some key)
      (hold : ∀ member ∈ members, IsExact member.2) : IsExact (.object members)

def bytes (document : Json) : Bytes := Utf8.encode document.render

def itemBytes (items : List Json) : Bytes := Utf8.encode (",".intercalate (renderItems items))

def memberBytes (members : List (Option String × Json)) : Bytes :=
  Utf8.encode (",".intercalate (renderMembers members))

private theorem encode_intercalate (first second : String) (others : List String) :
    Utf8.encode (",".intercalate (first :: second :: others)) =
      Utf8.encode first ++ comma :: Utf8.encode (",".intercalate (second :: others)) := by
  rw [String.intercalate_cons_cons, Utf8.encode_append, Utf8.encode_append, List.append_assoc]
  rfl

private theorem encode_intercalate_singleton (only : String) :
    Utf8.encode (",".intercalate [only]) = Utf8.encode only := by
  rw [String.intercalate_singleton]

theorem bytes_array (items : List Json) :
    bytes (.array items) = openBracket :: (itemBytes items ++ [closeBracket]) := by
  rw [bytes, render, Utf8.encode_append, Utf8.encode_append]
  rfl

theorem bytes_object (members : List (Option String × Json)) :
    bytes (.object members) = openBrace :: (memberBytes members ++ [closeBrace]) := by
  rw [bytes, render, Utf8.encode_append, Utf8.encode_append]
  rfl

theorem itemBytes_singleton (item : Json) : itemBytes [item] = bytes item := by
  rw [itemBytes, renderItems, renderItems, encode_intercalate_singleton, bytes]

theorem itemBytes_cons (first second : Json) (others : List Json) :
    itemBytes (first :: second :: others) =
      bytes first ++ comma :: itemBytes (second :: others) := by
  simp only [itemBytes, renderItems, encode_intercalate, bytes]

theorem memberBytes_singleton (key : Option String) (item : Json) :
    memberBytes [(key, item)] = Utf8.encode (renderString key) ++ colon :: bytes item := by
  rw [memberBytes, renderMembers, renderMembers, encode_intercalate_singleton,
    Utf8.encode_append, Utf8.encode_append, List.append_assoc]
  rfl

theorem memberBytes_cons (key : Option String) (item : Json) (second : Option String × Json)
    (others : List (Option String × Json)) :
    memberBytes ((key, item) :: second :: others) =
      Utf8.encode (renderString key) ++
        colon :: (bytes item ++ comma :: memberBytes (second :: others)) := by
  obtain ⟨key', item'⟩ := second
  simp only [memberBytes, renderMembers, encode_intercalate, Utf8.encode_append,
    List.append_assoc, bytes]
  rfl

/-! ## Steps of the readers -/

variable {fuel : Nat} {first : UInt8} {rest : Bytes}

theorem skipBlank_cons (visible : isBlank first = false) (rest : Bytes) :
    skipBlank (first :: rest) = first :: rest :=
  List.dropWhile_cons_of_neg (by rw [visible]; exact Bool.false_ne_true)

section

variable {data : Bytes} {item : Json} {items : List Json}

theorem elements_last (read : value fuel data = .ok (item, closeBracket :: rest)) :
    elements (fuel + 1) data = .ok ([item], rest) := by
  rw [elements, read]
  rfl

theorem elements_more (visible : isBlank first = false) (more : first ≠ closeBracket)
    {others : Bytes} (read : value fuel data = .ok (item, comma :: first :: others))
    (continued : elements fuel (first :: others) = .ok (items, rest)) :
    elements (fuel + 1) data = .ok (item :: items, rest) := by
  rw [elements]
  refine Except.bind_eq_ok.mpr ⟨_, read, ?_⟩
  dsimp only
  rw [skipBlank_cons (by decide)]
  split
  · rename_i none
    cases none
  · rename_i same
    exact absurd (List.cons.inj same).1 (by decide)
  · rename_i same
    rw [← (List.cons.inj same).2, skipBlank_cons visible, continued]
    split
    · rename_i same
      exact absurd (List.cons.inj same).1 more
    · rfl
  · rename_i noComma
    exact absurd rfl (noComma _)

end

section

variable {data content : Bytes} {parts : List StringPart} {name : Option String} {item : Json}
  {items : List (Option String × Json)}

theorem members_last (key : stringParts data = .ok (parts, colon :: content))
    (text : textOfParts parts = name)
    (read : value fuel content = .ok (item, closeBrace :: rest)) :
    members (fuel + 1) (quoteMark :: data) = .ok ([(name, item)], rest) := by
  rw [members]
  change (stringParts data >>= _) = _
  rw [key]
  change (value fuel content >>= _) = _
  rw [read, ← text]
  rfl

theorem members_more (key : stringParts data = .ok (parts, colon :: content))
    (text : textOfParts parts = name) {others : Bytes}
    (read : value fuel content = .ok (item, comma :: quoteMark :: others))
    (continued : members fuel (quoteMark :: others) = .ok (items, rest)) :
    members (fuel + 1) (quoteMark :: data) = .ok ((name, item) :: items, rest) := by
  rw [members]
  change (stringParts data >>= _) = _
  rw [key]
  change (value fuel content >>= _) = _
  rw [read]
  change (members fuel (quoteMark :: others) >>= _) = _
  rw [continued, ← text]
  rfl

end

theorem value_string {data : Bytes} {parts : List StringPart}
    (read : stringParts data = .ok (parts, rest)) :
    value (fuel + 1) (quoteMark :: data) = .ok (.string (textOfParts parts), rest) := by
  rw [value]
  change (stringParts data).map _ = _
  rw [read]
  rfl

private theorem beq_of_begins (begins : (first == minus || isDigit first) = true) (byte : UInt8)
    (outside : byte ≠ minus ∧ (byte.toNat < 0x30 ∨ 0x39 < byte.toNat)) :
    (first == byte) = false := by
  have range : first = minus ∨ 0x30 ≤ first.toNat ∧ first.toNat ≤ 0x39 := by
    simpa [isDigit, UInt8.le_iff_toNat_le] using begins
  rw [beq_eq_false_iff_ne]
  rintro rfl
  rcases range with same | inside
  · exact outside.1 same
  · omega

private theorem isBlank_of_begins (begins : (first == minus || isDigit first) = true) :
    isBlank first = false := by
  have other := beq_of_begins begins
  rw [isBlank, other 0x20 (by decide), other 0x09 (by decide), other 0x0A (by decide),
    other 0x0D (by decide)]
  rfl

theorem value_number {others : Bytes} {number : JsonNumber}
    (begins : (first == minus || isDigit first) = true)
    (read : readNumber (first :: others) = .ok (number, rest)) :
    value (fuel + 1) (first :: others) = .ok (.number number, rest) := by
  have other := beq_of_begins begins
  rw [value, skipBlank_cons (isBlank_of_begins begins)]
  simp only [other quoteMark (by decide), other openBracket (by decide),
    other openBrace (by decide), other 0x6E (by decide), other 0x74 (by decide),
    other 0x66 (by decide), begins, Bool.false_eq_true, if_false, if_true, read]
  rfl

theorem value_array_nil : value (fuel + 1) (openBracket :: closeBracket :: rest) =
    .ok (.array [], rest) := by
  rw [value]
  rfl

theorem value_array (visible : isBlank first = false) (more : first ≠ closeBracket)
    {others : Bytes} {items : List Json}
    (read : elements fuel (first :: others) = .ok (items, rest)) :
    value (fuel + 1) (openBracket :: first :: others) = .ok (.array items, rest) := by
  rw [value, skipBlank_cons (by decide)]
  dsimp only
  rw [if_neg (by decide), if_pos (by decide), skipBlank_cons visible, read]
  split
  · rename_i same
    exact absurd (List.cons.inj same).1 more
  · rfl

theorem value_object_nil : value (fuel + 1) (openBrace :: closeBrace :: rest) =
    .ok (.object [], rest) := by
  rw [value]
  rfl

theorem value_object {others : Bytes} {items : List (Option String × Json)}
    (read : members fuel (quoteMark :: others) = .ok (items, rest)) :
    value (fuel + 1) (openBrace :: quoteMark :: others) = .ok (.object items, rest) := by
  rw [value]
  change (members fuel (quoteMark :: others)).map _ = _
  rw [read]
  rfl

/-! ## Round trip -/

/-- A document is read back, with enough fuel and in front of anything that ends a number. -/
def ReadsBack (document : Json) : Prop :=
  ∀ fuel rest, 2 * document.bytes.length < fuel → EndsNumber rest →
    value fuel (document.bytes ++ rest) = .ok (document, rest)

/-- The first byte tells a document from blanks and from the end of an array. -/
theorem IsExact.exists_cons {document : Json} (isExact : IsExact document) :
    ∃ first others, document.bytes = first :: others ∧ isBlank first = false ∧
      first ≠ closeBracket := by
  cases isExact with
  | null => exact ⟨0x6E, _, rfl, rfl, by decide⟩
  | bool value =>
      cases value with
      | false => exact ⟨0x66, _, rfl, rfl, by decide⟩
      | true => exact ⟨0x74, _, rfl, rfl, by decide⟩
  | @integer value word =>
      obtain ⟨first, others, split, begins⟩ := exists_cons_integer value
      exact ⟨first, others, split, isBlank_of_begins begins,
        beq_eq_false_iff_ne.mp (beq_of_begins begins closeBracket (by decide))⟩
  | text text =>
      obtain ⟨written, _, quoted, _⟩ := exists_parts_renderString text
      exact ⟨quoteMark, written, quoted, rfl, by decide⟩
  | @array items hold => exact ⟨openBracket, _, bytes_array items, rfl, by decide⟩
  | @object members named hold => exact ⟨openBrace, _, bytes_object members, rfl, by decide⟩

private theorem endsNumber_cons (first : UInt8) (rest : Bytes)
    (delimits : isDigit first = false ∧ first ≠ point ∧ first ≠ 0x65 ∧ first ≠ 0x45) :
    EndsNumber (first :: rest) := by
  intro byte same
  cases same
  exact delimits

private theorem exists_cons_itemBytes {item : Json} (isExact : IsExact item) (others : List Json) :
    ∃ first rest, itemBytes (item :: others) = first :: rest ∧ isBlank first = false ∧
      first ≠ closeBracket := by
  obtain ⟨first, rest, split, begins⟩ := isExact.exists_cons
  cases others with
  | nil => exact ⟨first, rest, (itemBytes_singleton item).trans split, begins⟩
  | cons second others =>
      refine ⟨first, rest ++ comma :: itemBytes (second :: others), ?_, begins⟩
      rw [itemBytes_cons, split, List.cons_append]

/-- The induction is on the items. The fuel of two for each byte is what `value` provides. -/
theorem elements_itemBytes {items : List Json} (filled : items ≠ [])
    (hold : ∀ item ∈ items, IsExact item) (readBack : ∀ item ∈ items, ReadsBack item) (fuel : Nat)
    (rest : Bytes) (enough : 2 * (itemBytes items).length + 1 < fuel) :
    elements fuel (itemBytes items ++ closeBracket :: rest) = .ok (items, rest) := by
  induction items generalizing fuel with
  | nil => exact absurd rfl filled
  | cons first others ih =>
      rw [List.forall_mem_cons] at hold readBack
      obtain ⟨fuel, rfl⟩ := Nat.exists_eq_succ_of_ne_zero (Nat.ne_zero_of_lt enough)
      cases others with
      | nil =>
          rw [itemBytes_singleton] at enough ⊢
          exact elements_last (readBack.1 fuel _ (by omega) (endsNumber_cons _ _ (by decide)))
      | cons second others =>
          rw [itemBytes_cons] at enough ⊢
          rw [List.length_append, List.length_cons] at enough
          have continued := ih (List.cons_ne_nil _ _) hold.2 readBack.2 fuel (by omega)
          obtain ⟨byte, tail, split, visible, more⟩ :=
            exists_cons_itemBytes (hold.2 second List.mem_cons_self) others
          rw [split, List.cons_append] at continued
          rw [split, List.append_assoc, List.cons_append, List.cons_append]
          exact elements_more visible more
            (readBack.1 fuel _ (by omega) (endsNumber_cons _ _ (by decide))) continued

private theorem exists_cons_memberBytes (key : String) (item : Json)
    (others : List (Option String × Json)) :
    ∃ rest, memberBytes ((some key, item) :: others) = quoteMark :: rest := by
  obtain ⟨written, _, quoted, _⟩ := exists_parts_renderString key
  cases others with
  | nil => exact ⟨_, by rw [memberBytes_singleton, quoted, List.cons_append]⟩
  | cons second others => exact ⟨_, by rw [memberBytes_cons, quoted, List.cons_append]⟩

/-- As for items, with a key and a colon in front of each value. -/
theorem members_memberBytes {items : List (Option String × Json)} (filled : items ≠ [])
    (named : ∀ member ∈ items, ∃ key, member.1 = some key)
    (readBack : ∀ member ∈ items, ReadsBack member.2) (fuel : Nat) (rest : Bytes)
    (enough : 2 * (memberBytes items).length + 1 < fuel) :
    members fuel (memberBytes items ++ closeBrace :: rest) = .ok (items, rest) := by
  induction items generalizing fuel with
  | nil => exact absurd rfl filled
  | cons first others ih =>
      rw [List.forall_mem_cons] at named readBack
      obtain ⟨fuel, rfl⟩ := Nat.exists_eq_succ_of_ne_zero (Nat.ne_zero_of_lt enough)
      obtain ⟨⟨key, same⟩, named⟩ := named
      obtain ⟨_, item⟩ := first
      cases same
      obtain ⟨written, parts, quoted, text, read⟩ := exists_parts_renderString key
      cases others with
      | nil =>
          rw [memberBytes_singleton, quoted] at enough ⊢
          rw [List.length_append, List.length_cons, List.length_cons] at enough
          have short : 2 * item.bytes.length < fuel := by omega
          rw [List.append_assoc, List.cons_append, List.cons_append]
          exact members_last (read _) text
            (readBack.1 fuel _ short (endsNumber_cons _ _ (by decide)))
      | cons second others =>
          rw [memberBytes_cons, quoted] at enough ⊢
          simp only [List.length_append, List.length_cons] at enough
          have short : 2 * item.bytes.length < fuel := by omega
          have continued := ih (List.cons_ne_nil _ _) named readBack.2 fuel (by omega)
          obtain ⟨key', same⟩ := named second List.mem_cons_self
          obtain ⟨_, item'⟩ := second
          cases same
          obtain ⟨tail, split⟩ := exists_cons_memberBytes key' item' others
          rw [split, List.cons_append] at continued
          rw [split]
          simp only [List.append_assoc, List.cons_append]
          exact members_more (read _) text
            (readBack.1 fuel _ short (endsNumber_cons _ _ (by decide))) continued

/-- Every document takes fuel. -/
private theorem ReadsBack.of_succ {document : Json}
    (read : ∀ fuel rest, 2 * document.bytes.length ≤ fuel → EndsNumber rest →
      value (fuel + 1) (document.bytes ++ rest) = .ok (document, rest)) : ReadsBack document := by
  intro fuel rest enough ends
  obtain ⟨fuel, rfl⟩ := Nat.exists_eq_succ_of_ne_zero (Nat.ne_zero_of_lt enough)
  exact read fuel rest (Nat.le_of_lt_succ enough) ends

private theorem readsBack_integer {number : Int} (word : IsWord number) :
    ReadsBack (.number (.integer number)) := by
  refine .of_succ fun fuel rest _ ends => ?_
  have read := readNumber_integer word ends
  obtain ⟨first, others, split, begins⟩ := exists_cons_integer number
  have written : bytes (.number (.integer number)) = Utf8.encode (toString number) := rfl
  rw [split] at read
  rw [written, split]
  exact value_number begins read

private theorem readsBack_text (text : String) : ReadsBack (.string (some text)) := by
  refine .of_succ fun fuel rest _ _ => ?_
  obtain ⟨written, parts, quoted, meaning, read⟩ := exists_parts_renderString text
  have split : bytes (.string (some text)) = quoteMark :: written := quoted
  rw [split, List.cons_append, value_string (read rest), meaning]

private theorem readsBack_array {items : List Json} (hold : ∀ item ∈ items, IsExact item)
    (readBack : ∀ item ∈ items, ReadsBack item) : ReadsBack (.array items) := by
  refine .of_succ fun fuel rest enough _ => ?_
  rw [bytes_array] at enough ⊢
  simp only [List.length_cons, List.length_append, List.length_nil] at enough
  cases items with
  | nil => exact value_array_nil
  | cons first others =>
      have read := elements_itemBytes (List.cons_ne_nil first others) hold readBack fuel rest
        (by omega)
      obtain ⟨byte, tail, split, visible, more⟩ :=
        exists_cons_itemBytes (hold first List.mem_cons_self) others
      rw [split] at read ⊢
      rw [List.cons_append, List.append_assoc]
      exact value_array visible more read

private theorem readsBack_object {members : List (Option String × Json)}
    (named : ∀ member ∈ members, ∃ key, member.1 = some key)
    (readBack : ∀ member ∈ members, ReadsBack member.2) : ReadsBack (.object members) := by
  refine .of_succ fun fuel rest enough _ => ?_
  rw [bytes_object] at enough ⊢
  simp only [List.length_cons, List.length_append, List.length_nil] at enough
  cases members with
  | nil => exact value_object_nil
  | cons first others =>
      have read := members_memberBytes (List.cons_ne_nil first others) named readBack fuel rest
        (by omega)
      obtain ⟨key, same⟩ := named first List.mem_cons_self
      obtain ⟨_, item⟩ := first
      cases same
      obtain ⟨tail, split⟩ := exists_cons_memberBytes key item others
      rw [split] at read ⊢
      rw [List.cons_append, List.append_assoc]
      exact value_object read

/-- The compact form of an exact document is read back. -/
theorem IsExact.readsBack {document : Json} (isExact : IsExact document) :
    ReadsBack document := by
  induction isExact with
  | null =>
      refine .of_succ fun fuel rest _ _ => ?_
      rw [value]
      rfl
  | bool value =>
      refine .of_succ fun fuel rest _ _ => ?_
      rw [Json.value]
      cases value <;> rfl
  | integer word => exact readsBack_integer word
  | text text => exact readsBack_text text
  | array hold readBack => exact readsBack_array hold readBack
  | object named _ readBack => exact readsBack_object named readBack

/-- An exact document is what its compact form is parsed as. -/
theorem parse_render {document : Json} (isExact : IsExact document) :
    parse (Utf8.encode document.render) = .ok document := by
  have read := isExact.readsBack (2 * document.bytes.length + 1) [] (Nat.lt_succ_self _)
    (fun _ none => nomatch none)
  rw [List.append_nil] at read
  change parse document.bytes = _
  rw [parse, read]
  rfl

end CilRecovery.Json
