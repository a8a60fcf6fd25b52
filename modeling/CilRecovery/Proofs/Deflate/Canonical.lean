import CilRecovery.Deflate.Bits

/-!
# Canonical codes

The code that lengths describe numbers the symbols of each length one after the other, and each
length from where the shorter ones leave off.
-/

set_option autoImplicit false

namespace CilRecovery.Deflate.CodeTree

inductive Spells : CodeTree → List Bool → Nat → Prop
  | leaf {symbol : Nat} : Spells (.leaf symbol) [] symbol
  | zero {zero one : CodeTree} {bits : List Bool} {symbol : Nat} :
      Spells zero bits symbol → Spells (.fork zero one) (false :: bits) symbol
  | one {zero one : CodeTree} {bits : List Bool} {symbol : Nat} :
      Spells one bits symbol → Spells (.fork zero one) (true :: bits) symbol

variable {lengths : List Nat}

/-! ## Numbers of codes -/

def codeNumber (number : Nat) : List Bool → Nat
  | [] => number
  | bit :: bits => codeNumber (2 * number + bit.toNat) bits

/-- The number of the first code of a length: that behind the last shorter one. -/
def firstCode (lengths : List Nat) : (length : Nat) → Nat
  | 0 | 1 => 0
  | length + 2 => 2 * (firstCode lengths (length + 1) + lengths.count (length + 1))

/-- The symbols before one that have codes of a length. -/
def rank (lengths : List Nat) (length symbol : Nat) : Nat := (lengths.take symbol).count length

/-! ## Forests -/

/-- The bits lead from the root of a tree of the forest to a symbol. -/
def Leads (forest : List CodeTree) (index : Nat) (bits : List Bool) (symbol : Nat) : Prop :=
  ∃ code, forest[index]? = some code ∧ code.Spells bits symbol

theorem not_leads_nil {index symbol : Nat} {bits : List Bool} : ¬ Leads [] index bits symbol :=
  nofun

theorem leads_head {code : CodeTree} {forest : List CodeTree} {symbol : Nat} {bits : List Bool} :
    Leads (code :: forest) 0 bits symbol ↔ code.Spells bits symbol := by
  simp [Leads]

theorem leads_tail {code : CodeTree} {forest : List CodeTree} {index symbol : Nat}
    {bits : List Bool} :
    Leads (code :: forest) (index + 1) bits symbol ↔ Leads forest index bits symbol := by
  simp [Leads]

theorem leads_append {front back : List CodeTree} {index symbol : Nat} {bits : List Bool} :
    Leads (front ++ back) index bits symbol ↔
      Leads front index bits symbol ∨
        front.length ≤ index ∧ Leads back (index - front.length) bits symbol := by
  by_cases early : index < front.length
  · simp [Leads, List.getElem?_append_left early, Nat.not_le.mpr early]
  · have late := Nat.le_of_not_lt early
    simp [Leads, List.getElem?_append_right late, late]

theorem spells_fork_iff {zero one : CodeTree} {bits : List Bool} {symbol : Nat} :
    (fork zero one).Spells bits symbol ↔
      ∃ bit rest, bits = bit :: rest ∧ (if bit then one else zero).Spells rest symbol := by
  constructor
  · intro spells
    cases spells with
    | zero spells => exact ⟨false, _, rfl, spells⟩
    | one spells => exact ⟨true, _, rfl, spells⟩
  · rintro ⟨bit, rest, rfl, spells⟩
    cases bit with
    | false => exact .zero spells
    | true => exact .one spells

/-- Joining neighbours puts a bit in front of every code of a forest. -/
theorem leads_joinPairs {forest : List CodeTree} {index symbol : Nat} {bits : List Bool} :
    Leads (joinPairs forest) index bits symbol ↔
      ∃ bit rest, bits = bit :: rest ∧ Leads forest (2 * index + bit.toNat) rest symbol := by
  induction forest using joinPairs.induct generalizing index with
  | case1 => simp [joinPairs, not_leads_nil]
  | case2 last =>
      cases index with
      | zero =>
          rw [joinPairs, leads_head, spells_fork_iff]
          refine exists_congr fun bit => exists_congr fun rest => and_congr_right fun _ => ?_
          cases bit with
          | false => exact leads_head.symm
          | true => exact ⟨nofun, fun leads => absurd (leads_tail.mp leads) not_leads_nil⟩
      | succ index =>
          rw [joinPairs, leads_tail]
          constructor
          · exact fun leads => absurd leads not_leads_nil
          · intro ⟨bit, _, _, leads⟩
            have place : 2 * (index + 1) + bit.toNat = 2 * index + bit.toNat + 1 + 1 := by omega
            rw [place, leads_tail] at leads
            exact absurd leads not_leads_nil
  | case3 zero one rest ih =>
      cases index with
      | zero =>
          rw [joinPairs, leads_head, spells_fork_iff]
          refine exists_congr fun bit => exists_congr fun rest => and_congr_right fun _ => ?_
          cases bit with
          | false => exact leads_head.symm
          | true => exact (leads_tail.trans leads_head).symm
      | succ index =>
          rw [joinPairs, leads_tail, ih]
          refine exists_congr fun bit => exists_congr fun rest => and_congr_right fun _ => ?_
          have place : 2 * (index + 1) + bit.toNat = 2 * index + bit.toNat + 1 + 1 := by omega
          rw [place, leads_tail, leads_tail]

theorem rank_cons (head : Nat) (rest : List Nat) (length symbol : Nat) :
    rank (head :: rest) length (symbol + 1) =
      rank rest length symbol + if head = length then 1 else 0 := by
  simp [rank, List.count_cons]

theorem leads_leavesFrom {lengths : List Nat} {first length index symbol : Nat}
    {bits : List Bool} :
    Leads (((lengths.zipIdx first).filter fun entry => entry.1 == length).map
        fun entry => .leaf entry.2) index bits symbol ↔
      bits = [] ∧ ∃ place, symbol = first + place ∧ lengths[place]? = some length ∧
        index = rank lengths length place := by
  induction lengths generalizing first index with
  | nil => simp [not_leads_nil]
  | cons head rest ih =>
      rw [List.zipIdx_cons, List.filter_cons]
      by_cases same : head = length
      · subst same
        rw [beq_self_eq_true, if_pos rfl, List.map_cons]
        cases index with
        | zero =>
            rw [leads_head]
            constructor
            · intro spells
              cases spells
              exact ⟨rfl, 0, rfl, rfl, rfl⟩
            · rintro ⟨rfl, place, rfl, _, early⟩
              cases place with
              | zero => exact .leaf
              | succ place =>
                  rw [rank_cons, if_pos rfl] at early
                  omega
        | succ index =>
            rw [leads_tail, ih]
            constructor
            · rintro ⟨rfl, place, rfl, found, rfl⟩
              exact ⟨rfl, place + 1, by omega, found, by rw [rank_cons, if_pos rfl]⟩
            · rintro ⟨rfl, place, rfl, found, later⟩
              cases place with
              | zero => cases later
              | succ place =>
                  rw [rank_cons, if_pos rfl] at later
                  exact ⟨rfl, place, by omega, found, Nat.succ.inj later⟩
      · rw [if_neg (by simpa using same), ih]
        constructor
        · rintro ⟨rfl, place, rfl, found, rfl⟩
          exact ⟨rfl, place + 1, by omega, found, by rw [rank_cons, if_neg same, Nat.add_zero]⟩
        · rintro ⟨rfl, place, rfl, found, later⟩
          cases place with
          | zero => exact absurd (Option.some.inj found) same
          | succ place =>
              rw [rank_cons, if_neg same, Nat.add_zero] at later
              exact ⟨rfl, place, by omega, found, later⟩

theorem leads_leaves {length index symbol : Nat} {bits : List Bool} :
    Leads (leaves lengths length) index bits symbol ↔
      bits = [] ∧ lengths[symbol]? = some length ∧ index = rank lengths length symbol := by
  simp [leaves, leads_leavesFrom]

theorem length_leaves (lengths : List Nat) (length : Nat) :
    (leaves lengths length).length = lengths.count length := by
  calc
    (leaves lengths length).length = lengths.zipIdx.countP fun entry => entry.1 == length := by
      rw [leaves, List.length_map, ← List.countP_eq_length_filter]
    _ = (lengths.zipIdx.map Prod.fst).count length := by
      rw [List.count, List.countP_map]
      rfl
    _ = lengths.count length := by rw [List.zipIdx_map_fst]

theorem codeNumber_lt {length number : Nat} (small : number < firstCode lengths (length + 1))
    (bits : List Bool) :
    codeNumber number bits < firstCode lengths (length + 1 + bits.length) := by
  induction bits generalizing length number with
  | nil => exact small
  | cons bit rest ih =>
      have next : 2 * number + bit.toNat < firstCode lengths (length + 1 + 1) := by
        have digit := bit.toNat_le
        rw [firstCode]
        omega
      have size : length + 1 + (bit :: rest).length = length + 1 + 1 + rest.length := by
        rw [List.length_cons]
        omega
      rw [codeNumber, size]
      exact ih next

/-- The trees at a depth hold the symbols with codes at least as long, and a symbol is reached by
the bits behind its first `depth + 1`. The induction is on the levels below. -/
theorem leads_subtrees {below depth index symbol : Nat} {bits : List Bool} :
    Leads (subtrees lengths below (depth + 1)) index bits symbol ↔
      bits.length ≤ below ∧ lengths[symbol]? = some (depth + 1 + bits.length) ∧
        codeNumber (firstCode lengths (depth + 1) + index) bits =
          firstCode lengths (depth + 1 + bits.length) +
            rank lengths (depth + 1 + bits.length) symbol := by
  induction below generalizing depth index bits with
  | zero =>
      rw [subtrees, leads_leaves, Nat.le_zero, List.length_eq_zero_iff]
      refine and_congr_right ?_
      rintro rfl
      rw [codeNumber, List.length_nil, Nat.add_zero, Nat.add_left_cancel_iff]
  | succ below ih =>
      rw [subtrees, leads_append, leads_leaves, leads_joinPairs, length_leaves]
      cases bits with
      | nil => simp [codeNumber]
      | cons bit rest =>
          have size : depth + 1 + (bit :: rest).length = depth + 1 + 1 + rest.length := by
            rw [List.length_cons]
            omega
          have following (late : lengths.count (depth + 1) ≤ index) :
              2 * (firstCode lengths (depth + 1) + index) + bit.toNat =
                firstCode lengths (depth + 1 + 1) +
                  (2 * (index - lengths.count (depth + 1)) + bit.toNat) := by
            rw [firstCode]
            omega
          rw [size, codeNumber]
          constructor
          · rintro (⟨impossible, _⟩ | ⟨late, _, _, same, leads⟩)
            · cases impossible
            · cases same
              obtain ⟨short, found, numbered⟩ := ih.mp leads
              exact ⟨Nat.succ_le_succ short, found, following late ▸ numbered⟩
          · intro ⟨short, found, numbered⟩
            -- A code that begins with a shorter one has a number below all of its length.
            have late : lengths.count (depth + 1) ≤ index := by
              refine Nat.le_of_not_lt fun early => ?_
              have small : 2 * (firstCode lengths (depth + 1) + index) + bit.toNat <
                  firstCode lengths (depth + 1 + 1) := by
                have digit := bit.toNat_le
                rw [firstCode]
                omega
              have below := codeNumber_lt small rest
              omega
            exact .inr ⟨late, bit, rest, rfl,
              ih.mpr ⟨Nat.le_of_succ_le_succ short, found, following late ▸ numbered⟩⟩

theorem leads_root {forest : List CodeTree} {bits : List Bool} {symbol : Nat} :
    (forest.head?.getD (.fork .gap .gap)).Spells bits symbol ↔ Leads forest 0 bits symbol := by
  cases forest with
  | nil =>
      refine ⟨fun spells => ?_, fun leads => absurd leads not_leads_nil⟩
      obtain ⟨bit, rest, -, gap⟩ := spells_fork_iff.mp spells
      cases bit <;> cases gap
  | cons code rest => exact leads_head.symm

/-- The code of a symbol has the described length, and its number is that of the first code of the
length plus the number of symbols before it with codes of the length. -/
theorem spells_ofLengths_iff {bits : List Bool} {symbol : Nat} :
    (ofLengths lengths).Spells bits symbol ↔
      bits ≠ [] ∧ bits.length ≤ maxLength ∧ lengths[symbol]? = some bits.length ∧
        codeNumber 0 bits =
          firstCode lengths bits.length + rank lengths bits.length symbol := by
  rw [ofLengths, leads_root, leads_joinPairs]
  cases bits with
  | nil => simp
  | cons bit rest =>
      have size : 0 + 1 + rest.length = (bit :: rest).length := by
        rw [List.length_cons]
        omega
      have start : firstCode lengths (0 + 1) + (2 * 0 + bit.toNat) = 2 * 0 + bit.toNat := by
        rw [firstCode]
        omega
      constructor
      · rintro ⟨_, _, same, leads⟩
        cases same
        obtain ⟨short, found, numbered⟩ := leads_subtrees.mp leads
        rw [size] at found numbered
        rw [start] at numbered
        exact ⟨List.cons_ne_nil _ _, Nat.succ_le_succ short, found, numbered⟩
      · rintro ⟨_, short, found, numbered⟩
        refine ⟨bit, rest, rfl, leads_subtrees.mpr ⟨Nat.le_of_succ_le_succ short, ?_, ?_⟩⟩
        · rw [size]
          exact found
        · rw [size, start]
          exact numbered

example :
    let lengths := [3, 3, 3, 3, 3, 2, 4, 4]
    (lengths.mapIdx fun symbol length => firstCode lengths length + rank lengths length symbol) =
      [0b010, 0b011, 0b100, 0b101, 0b110, 0b00, 0b1110, 0b1111] := by
  decide

namespace Spells

variable {bits : List Bool} {symbol : Nat}

theorem ne_nil (spells : (ofLengths lengths).Spells bits symbol) : bits ≠ [] :=
  (spells_ofLengths_iff.mp spells).1

theorem lt_length (spells : (ofLengths lengths).Spells bits symbol) : symbol < lengths.length := by
  obtain ⟨-, -, found, -⟩ := spells_ofLengths_iff.mp spells
  exact (List.getElem?_eq_some_iff.mp found).1

end Spells

end CilRecovery.Deflate.CodeTree
