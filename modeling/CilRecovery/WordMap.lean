/-!
# Maps keyed by words

A finite map from 32-bit words, kept as a list in strictly increasing key order. Two maps with
the same entries are therefore equal, and listing a map needs no sorting.
-/

set_option autoImplicit false

namespace CilRecovery

structure WordMap (α : Type) where
  entries : List (UInt32 × α)
  ordered : entries.Pairwise fun left right => left.1 < right.1

namespace WordMap

variable {α : Type}

def lookup (key : UInt32) : List (UInt32 × α) → Option α
  | [] => none
  | entry :: rest => if entry.1 = key then some entry.2 else lookup key rest

/-- Puts an entry in front of the first larger key, or in place of an entry with the same key. -/
def place (key : UInt32) (value : α) : List (UInt32 × α) → List (UInt32 × α)
  | [] => [(key, value)]
  | entry :: rest =>
      if key < entry.1 then (key, value) :: entry :: rest
      else if key = entry.1 then (key, value) :: rest
      else entry :: place key value rest

theorem mem_place {key : UInt32} {value : α} {entry : UInt32 × α} {entries : List (UInt32 × α)}
    (member : entry ∈ place key value entries) : entry = (key, value) ∨ entry ∈ entries := by
  induction entries with
  | nil => simpa [place] using member
  | cons first rest ih =>
      simp only [place] at member
      split at member
      · simpa using member
      · split at member
        · rcases List.mem_cons.mp member with same | later
          · exact .inl same
          · exact .inr (List.mem_cons_of_mem _ later)
        · rcases List.mem_cons.mp member with same | later
          · exact .inr (same ▸ List.mem_cons_self)
          · exact (ih later).imp_right (List.mem_cons_of_mem _)

/-- Placing keeps the keys strictly increasing, so a map never has a key twice. -/
theorem place_ordered {key : UInt32} {value : α} {entries : List (UInt32 × α)}
    (ordered : entries.Pairwise fun left right => left.1 < right.1) :
    (place key value entries).Pairwise fun left right => left.1 < right.1 := by
  induction entries with
  | nil => simp [place]
  | cons first rest ih =>
      have ⟨smallest, ordered'⟩ := List.pairwise_cons.mp ordered
      simp only [place]
      split
      · rename_i before
        refine List.pairwise_cons.mpr ⟨fun entry member => ?_, ordered⟩
        rcases List.mem_cons.mp member with rfl | later
        · exact before
        · exact UInt32.lt_trans before (smallest entry later)
      · split
        · rename_i same
          exact List.pairwise_cons.mpr
            ⟨fun entry member => same ▸ smallest entry member, ordered'⟩
        · rename_i notBefore notSame
          refine List.pairwise_cons.mpr ⟨fun entry member => ?_, ih ordered'⟩
          rcases mem_place member with rfl | later
          · exact UInt32.lt_of_le_of_ne (UInt32.not_lt.mp notBefore) (Ne.symm notSame)
          · exact smallest entry later

def empty : WordMap α := ⟨[], .nil⟩

def find? (map : WordMap α) (key : UInt32) : Option α := lookup key map.entries

def contains (map : WordMap α) (key : UInt32) : Bool := (map.find? key).isSome

def insert (map : WordMap α) (key : UInt32) (value : α) : WordMap α :=
  ⟨place key value map.entries, place_ordered map.ordered⟩

def ofList (entries : List (UInt32 × α)) : WordMap α :=
  entries.foldl (fun map entry => map.insert entry.1 entry.2) empty

/-- Adds every entry of another map, replacing the values of common keys. -/
def override (map other : WordMap α) : WordMap α :=
  other.entries.foldl (fun map entry => map.insert entry.1 entry.2) map

def keys (map : WordMap α) : List UInt32 := map.entries.map Prod.fst

def values (map : WordMap α) : List α := map.entries.map Prod.snd

def size (map : WordMap α) : Nat := map.entries.length

def isEmpty (map : WordMap α) : Bool := map.entries.isEmpty

@[simp] theorem find?_empty (key : UInt32) : (empty : WordMap α).find? key = none := rfl

/-- No order is assumed: an entry in place of one with its key is found whatever stands around it.
-/
theorem lookup_place (key key' : UInt32) (value : α) (entries : List (UInt32 × α)) :
    lookup key' (place key value entries) =
      if key = key' then some value else lookup key' entries := by
  induction entries with
  | nil => simp [place, lookup]
  | cons first rest ih =>
      simp only [place]
      split
      · simp [lookup]
      · split
        · rename_i same
          by_cases other : key = key'
          · simp [lookup, other]
          · simp [lookup, other, ← same]
        · rename_i notSame
          by_cases other : first.1 = key'
          · have different : ¬ key = key' := fun same => notSame (same.trans other.symm)
            simp [lookup, other, different]
          · simp [lookup, other, ih]

/-- The last value given to a key is found under it, and no other key is touched. -/
@[simp] theorem find?_insert (map : WordMap α) (key key' : UInt32) (value : α) :
    (map.insert key value).find? key' = if key = key' then some value else map.find? key' :=
  lookup_place key key' value map.entries

end WordMap

end CilRecovery
