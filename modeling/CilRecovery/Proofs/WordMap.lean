import CilRecovery.WordMap
import Mathlib.Data.List.Induction

/-!
# Maps of entry lists

What a map of a list finds, that a list in key order is the list of its own map, and that maps
which find the same are equal.
-/

set_option autoImplicit false

namespace CilRecovery.WordMap

variable {α : Type}

theorem find?_foldl_insert_of_notMem {key : UInt32} {entries : List (UInt32 × α)}
    (absent : key ∉ entries.map Prod.fst) (map : WordMap α) :
    (entries.foldl (fun map entry => map.insert entry.1 entry.2) map).find? key =
      map.find? key := by
  induction entries generalizing map with
  | nil => rfl
  | cons entry rest ih =>
      rw [List.map_cons, List.mem_cons, not_or] at absent
      rw [List.foldl_cons, ih absent.2, find?_insert, if_neg (Ne.symm absent.1)]

/-- Where no key is listed twice, every listed entry is found. -/
theorem find?_ofList_of_mem {key : UInt32} {value : α} {entries : List (UInt32 × α)}
    (distinct : (entries.map Prod.fst).Nodup) (member : (key, value) ∈ entries) :
    (ofList entries).find? key = some value := by
  suffices found : ∀ map : WordMap α,
      (entries.foldl (fun map entry => map.insert entry.1 entry.2) map).find? key = some value from
    found empty
  induction entries with
  | nil => cases member
  | cons entry rest ih =>
      obtain ⟨absent, distinct'⟩ := List.nodup_cons.mp distinct
      intro map
      rw [List.foldl_cons]
      rcases List.mem_cons.mp member with rfl | later
      · rw [find?_foldl_insert_of_notMem absent, find?_insert, if_pos rfl]
      · exact ih distinct' later _

theorem ofList_concat (entries : List (UInt32 × α)) (entry : UInt32 × α) :
    ofList (entries ++ [entry]) = (ofList entries).insert entry.1 entry.2 := by
  simp [ofList]

/-- Of the entries with a key the last one is found. -/
theorem find?_ofList (entries : List (UInt32 × α)) (key : UInt32) :
    (ofList entries).find? key =
      ((entries.filter fun entry => entry.1 = key).getLast?).map Prod.snd := by
  induction entries using List.reverseRecOn with
  | nil => rfl
  | append_singleton earlier last ih =>
      rw [ofList_concat, find?_insert, ih, List.filter_append]
      by_cases same : last.1 = key <;> simp [same]

theorem mem_of_lookup {key : UInt32} {value : α} {entries : List (UInt32 × α)}
    (found : lookup key entries = some value) : (key, value) ∈ entries := by
  induction entries with
  | nil => cases found
  | cons entry rest ih =>
      rw [lookup] at found
      by_cases same : entry.1 = key
      · rw [if_pos same] at found
        cases found
        subst same
        exact List.mem_cons_self
      · rw [if_neg same] at found
        exact List.mem_cons_of_mem _ (ih found)

theorem mem_of_mem_foldl_insert {entries : List (UInt32 × α)} {map : WordMap α}
    {entry : UInt32 × α}
    (member : entry ∈
      (entries.foldl (fun map entry => map.insert entry.1 entry.2) map).entries) :
    entry ∈ map.entries ∨ entry ∈ entries := by
  induction entries generalizing map with
  | nil => exact .inl member
  | cons first rest ih =>
      rcases ih member with placed | later
      · rcases mem_place placed with same | earlier
        · exact .inr (same ▸ List.mem_cons_self)
        · exact .inl earlier
      · exact .inr (List.mem_cons_of_mem _ later)

/-! ## Sizes -/

private theorem length_place_of_notMem {key : UInt32} {value : α} {entries : List (UInt32 × α)}
    (absent : key ∉ entries.map Prod.fst) :
    (place key value entries).length = entries.length + 1 := by
  induction entries with
  | nil => rfl
  | cons entry rest ih =>
      obtain ⟨different, later⟩ : key ≠ entry.1 ∧ key ∉ rest.map Prod.fst := by simpa using absent
      rw [place, if_neg different]
      split
      · rfl
      · simp [ih later]

theorem mem_of_mem_keys_ofList {key : UInt32} {entries : List (UInt32 × α)}
    (listed : key ∈ (ofList entries).keys) : key ∈ entries.map Prod.fst := by
  obtain ⟨entry, member, rfl⟩ := List.mem_map.mp listed
  rcases mem_of_mem_foldl_insert member with none | inside
  · cases none
  · exact List.mem_map_of_mem inside

/-- Where no key is listed twice, every listed entry counts. -/
theorem size_ofList {entries : List (UInt32 × α)} (distinct : (entries.map Prod.fst).Nodup) :
    (ofList entries).size = entries.length := by
  induction entries using List.reverseRecOn with
  | nil => rfl
  | append_singleton earlier last ih =>
      obtain ⟨distinct', -, apart⟩ : (earlier.map Prod.fst).Nodup ∧ _ ∧ _ := by
        rwa [List.map_append, List.nodup_append] at distinct
      have absent : last.1 ∉ (ofList earlier).keys := fun listed =>
        apart _ (mem_of_mem_keys_ofList listed) _ List.mem_cons_self rfl
      rw [ofList_concat, List.length_append, ← ih distinct']
      exact length_place_of_notMem absent

/-! ## Maps with the same values -/

private theorem lookup_of_larger {key : UInt32} {entries : List (UInt32 × α)}
    (larger : ∀ entry ∈ entries, key < entry.1) : lookup key entries = none := by
  cases found : lookup key entries with
  | none => rfl
  | some value => exact absurd (larger _ (mem_of_lookup found)) (UInt32.lt_irrefl key)

private theorem head_le {left right : UInt32 × α} {lefts rights : List (UInt32 × α)}
    (ordered : (right :: rights).Pairwise fun left right => left.1 < right.1)
    (same : lookup left.1 (left :: lefts) = lookup left.1 (right :: rights)) :
    right.1 ≤ left.1 := by
  rw [lookup, if_pos rfl] at same
  rcases List.mem_cons.mp (mem_of_lookup same.symm) with first | later
  · exact UInt32.le_of_eq (congrArg Prod.fst first).symm
  · exact UInt32.le_of_lt ((List.pairwise_cons.mp ordered).1 _ later)

private theorem entries_ext {left right : List (UInt32 × α)}
    (orderedLeft : left.Pairwise fun left right => left.1 < right.1)
    (orderedRight : right.Pairwise fun left right => left.1 < right.1)
    (same : ∀ key, lookup key left = lookup key right) : left = right := by
  induction left generalizing right with
  | nil =>
      cases right with
      | nil => rfl
      | cons entry rest =>
          have found := same entry.1
          rw [lookup, lookup, if_pos rfl] at found
          cases found
  | cons first lefts ih =>
      cases right with
      | nil =>
          have found := same first.1
          rw [lookup, lookup, if_pos rfl] at found
          cases found
      | cons second rights =>
          have key : first.1 = second.1 := UInt32.le_antisymm
            (head_le orderedLeft (same second.1).symm) (head_le orderedRight (same first.1))
          obtain ⟨largerLeft, orderedLeft'⟩ := List.pairwise_cons.mp orderedLeft
          obtain ⟨largerRight, orderedRight'⟩ := List.pairwise_cons.mp orderedRight
          have value := same first.1
          rw [lookup, lookup, if_pos rfl, if_pos key.symm] at value
          have head : first = second := Prod.ext key (Option.some.inj value)
          subst head
          refine congrArg (first :: ·) (ih orderedLeft' orderedRight' fun other => ?_)
          have found := same other
          by_cases here : first.1 = other
          · subst here
            rw [lookup_of_larger largerLeft, lookup_of_larger largerRight]
          · rwa [lookup, lookup, if_neg here, if_neg here] at found

/-- Maps are equal as soon as every key finds the same: their entries are in order and without
repetition. -/
theorem ext_find? {left right : WordMap α} (same : ∀ key, left.find? key = right.find? key) :
    left = right := by
  obtain ⟨left, orderedLeft⟩ := left
  obtain ⟨right, orderedRight⟩ := right
  have entries := entries_ext orderedLeft orderedRight same
  subst entries
  rfl

/-! ## Overriding -/

private theorem find?_foldl_insert {key : UInt32} {entries : List (UInt32 × α)}
    (ordered : entries.Pairwise fun left right => left.1 < right.1) (map : WordMap α) :
    (entries.foldl (fun map entry => map.insert entry.1 entry.2) map).find? key =
      (lookup key entries).or (map.find? key) := by
  induction entries generalizing map with
  | nil => rfl
  | cons entry rest ih =>
      obtain ⟨larger, ordered'⟩ := List.pairwise_cons.mp ordered
      rw [List.foldl_cons, ih ordered', find?_insert, lookup]
      by_cases here : entry.1 = key
      · subst here
        rw [if_pos rfl, if_pos rfl, lookup_of_larger larger]
        rfl
      · rw [if_neg here, if_neg here]

/-- The values of the second map win. -/
theorem find?_override (map other : WordMap α) (key : UInt32) :
    (map.override other).find? key = (other.find? key).or (map.find? key) :=
  find?_foldl_insert other.ordered map

/-- The value of the last map with a key wins, however the maps are combined. -/
theorem override_assoc (first second third : WordMap α) :
    (first.override second).override third = first.override (second.override third) := by
  refine ext_find? fun key => ?_
  simp only [find?_override, Option.or_assoc]

theorem override_empty (map : WordMap α) : map.override empty = map := rfl

/-! ## Lists of entries -/

theorem place_of_larger {key : UInt32} {value : α} {entries : List (UInt32 × α)}
    (larger : ∀ entry ∈ entries, entry.1 < key) :
    place key value entries = entries ++ [(key, value)] := by
  induction entries with
  | nil => rfl
  | cons entry rest ih =>
      have before := larger entry List.mem_cons_self
      have others := ih fun other member => larger other (List.mem_cons_of_mem _ member)
      rw [place, if_neg (UInt32.lt_asymm before), if_neg (UInt32.ne_of_lt before).symm, others,
        List.cons_append]

theorem entries_foldl_insert {entries : List (UInt32 × α)}
    (ordered : entries.Pairwise fun left right => left.1 < right.1) {map : WordMap α}
    (larger : ∀ entry ∈ entries, ∀ old ∈ map.entries, old.1 < entry.1) :
    (entries.foldl (fun map entry => map.insert entry.1 entry.2) map).entries =
      map.entries ++ entries := by
  induction entries generalizing map with
  | nil => rw [List.foldl_nil, List.append_nil]
  | cons entry rest ih =>
      obtain ⟨smallest, ordered'⟩ := List.pairwise_cons.mp ordered
      have placed : (map.insert entry.1 entry.2).entries = map.entries ++ [entry] :=
        place_of_larger (larger entry List.mem_cons_self)
      rw [List.foldl_cons, ih ordered', placed, List.append_assoc, List.singleton_append]
      intro later member old inside
      rw [placed, List.mem_append, List.mem_singleton] at inside
      rcases inside with old' | rfl
      · exact larger later (List.mem_cons_of_mem _ member) old old'
      · exact smallest later member

/-- A list in key order is the list of its map. -/
theorem entries_ofList {entries : List (UInt32 × α)}
    (ordered : entries.Pairwise fun left right => left.1 < right.1) :
    (ofList entries).entries = entries := by
  have appended := @entries_foldl_insert _ _ ordered empty fun _ _ _ inside => nomatch inside
  rwa [show (empty : WordMap α).entries = [] from rfl, List.nil_append] at appended

end CilRecovery.WordMap
