import CilRecovery.Proofs.Deflate.LookBack
import CilRecovery.Proofs.Except

/-!
# Inflaters of a format

An inflater realizes a format at a place in the data if it succeeds exactly on bits that stand for
bytes that fit, and runs out of space exactly on those that stand for more. Formats compose as
inflaters do.
-/

set_option autoImplicit false

namespace CilRecovery.Deflate

variable {data : Bytes} {position : Nat}

/-! ## Places in the data -/

def ahead (data : Bytes) (position : Nat) : List Bool := (bitsOf data).drop position

theorem append_prefix_ahead {front back : List Bool} :
    front ++ back <+: ahead data position ↔
      front <+: ahead data position ∧ back <+: ahead data (position + front.length) := by
  unfold ahead
  rw [← List.drop_drop]
  constructor
  · intro ⟨after, split⟩
    rw [← split, List.append_assoc, List.drop_left]
    exact ⟨List.prefix_append _ _, List.prefix_append _ _⟩
  · intro ⟨⟨after, split⟩, later⟩
    rw [← split, List.drop_left] at later
    rw [← split]
    exact (List.prefix_append_right_inj front).mpr later

theorem length_ahead_le {further : Nat} (later : position ≤ further) :
    (ahead data further).length ≤ (ahead data position).length := by
  simp only [ahead, List.length_drop]
  omega

theorem length_ahead_lt {bits : List Bool} (found : bits <+: ahead data position)
    (taken : bits ≠ []) {further : Nat} (later : position + bits.length ≤ further) :
    (ahead data further).length < (ahead data position).length := by
  have inside := found.length_le
  have positive := List.length_pos_iff.mpr taken
  simp only [ahead, List.length_drop] at inside ⊢
  omega

theorem add_length_le {bits : List Bool} (inside : position ≤ (bitsOf data).length)
    (found : bits <+: ahead data position) : position + bits.length ≤ (bitsOf data).length := by
  have short := found.length_le
  simp only [ahead, List.length_drop] at short
  omega

def Progress.reached (data : Bytes) (position : Nat) (space : Option Nat) (earlier : Bytes) :
    Progress :=
  ⟨.seek data position, space, earlier.reverse⟩

def Fits (space : Option Nat) (size : Nat) : Prop := ∀ room ∈ space, size ≤ room

def spaceLeft (space : Option Nat) (size : Nat) : Option Nat := space.map (· - size)

@[simp] theorem fits_zero (space : Option Nat) : Fits space 0 := fun _ _ => Nat.zero_le _

@[simp] theorem fits_none (size : Nat) : Fits none size := nofun

@[simp] theorem fits_some {room size : Nat} : Fits (some room) size ↔ size ≤ room := by
  simp [Fits]

@[simp] theorem spaceLeft_zero (space : Option Nat) : spaceLeft space 0 = space := by
  simp [spaceLeft]

theorem fits_add {space : Option Nat} {front back : Nat} :
    Fits space (front + back) ↔ Fits space front ∧ Fits (spaceLeft space front) back := by
  cases space with
  | none => simp [spaceLeft]
  | some room =>
      simp only [spaceLeft, Option.map_some, fits_some]
      omega

theorem spaceLeft_add (space : Option Nat) (front back : Nat) :
    spaceLeft space (front + back) = spaceLeft (spaceLeft space front) back := by
  cases space with
  | none => rfl
  | some room => simp [spaceLeft, Nat.sub_sub]

namespace Inflater

variable {earlier : Bytes} {α β : Type}

/-- Bits and the bytes that they stand for, with a value. -/
abbrev Format (α : Type) := (value : α) → (bits : List Bool) → (piece : Bytes) → Prop

structure Realizes (data : Bytes) (position : Nat) (earlier : Bytes) (inflater : Inflater α)
    (format : Format α) : Prop where
  ok_iff : ∀ space value progress,
    inflater (.reached data position space earlier) = .ok value progress ↔
      ∃ bits piece, bits <+: ahead data position ∧ format value bits piece ∧
        Fits space piece.length ∧
        progress = .reached data (position + bits.length) (spaceLeft space piece.length)
          (earlier ++ piece)
  full : ∀ space value bits piece, bits <+: ahead data position → format value bits piece →
    ¬ Fits space piece.length →
    ∃ progress, inflater (.reached data position space earlier) = .error .full progress

/-- An inflater that only reads. -/
def Consumes (data : Bytes) (position : Nat) (inflater : Inflater α)
    (format : α → List Bool → Prop) : Prop :=
  ∀ earlier, Realizes data position earlier inflater fun value bits piece =>
    format value bits ∧ piece = []

namespace Realizes

theorem congr {inflater : Inflater α} {format format' : Format α}
    (realizes : Realizes data position earlier inflater format)
    (same : ∀ value bits piece, format value bits piece ↔ format' value bits piece) :
    Realizes data position earlier inflater format' := by
  obtain rfl : format = format' := by
    funext value bits piece
    exact propext (same value bits piece)
  exact realizes

/-- Only what an inflater does at the place matters. -/
theorem agree {inflater inflater' : Inflater α} {format : Format α}
    (realizes : Realizes data position earlier inflater format)
    (same : ∀ space, inflater' (.reached data position space earlier) =
      inflater (.reached data position space earlier)) :
    Realizes data position earlier inflater' format where
  ok_iff space := same space ▸ realizes.ok_iff space
  full space := same space ▸ realizes.full space

/-- One inflater after the other, which starts behind the bits and the bytes of the first. -/
theorem bind {first : Inflater α} {next : α → Inflater β} {front : Format α}
    {back : α → List Bool → Bytes → Format β}
    (realizes : Realizes data position earlier first front)
    (realizes' : ∀ value bits piece, bits <+: ahead data position → front value bits piece →
      Realizes data (position + bits.length) (earlier ++ piece) (next value)
        (back value bits piece)) :
    Realizes data position earlier (first >>= next) fun result bits piece =>
      ∃ value bits₁ piece₁ bits₂ piece₂, bits = bits₁ ++ bits₂ ∧ piece = piece₁ ++ piece₂ ∧
        front value bits₁ piece₁ ∧ back value bits₁ piece₁ result bits₂ piece₂ where
  ok_iff space result final := by
    rw [EState.bind_eq_ok]
    constructor
    · intro ⟨value, stopped, began, continued⟩
      obtain ⟨bits₁, piece₁, found₁, format₁, fits₁, rfl⟩ := (realizes.ok_iff ..).mp began
      obtain ⟨bits₂, piece₂, found₂, format₂, fits₂, rfl⟩ :=
        ((realizes' value bits₁ piece₁ found₁ format₁).ok_iff ..).mp continued
      refine ⟨bits₁ ++ bits₂, piece₁ ++ piece₂, append_prefix_ahead.mpr ⟨found₁, found₂⟩,
        ⟨value, bits₁, piece₁, bits₂, piece₂, rfl, rfl, format₁, format₂⟩, ?_, ?_⟩
      · exact List.length_append ▸ fits_add.mpr ⟨fits₁, fits₂⟩
      · rw [List.length_append, List.length_append, spaceLeft_add, Nat.add_assoc,
          List.append_assoc]
    · rintro ⟨_, _, found, ⟨value, bits₁, piece₁, bits₂, piece₂, rfl, rfl, format₁, format₂⟩,
        fits, rfl⟩
      obtain ⟨found₁, found₂⟩ := append_prefix_ahead.mp found
      rw [List.length_append, fits_add] at fits
      refine ⟨value, _, (realizes.ok_iff ..).mpr ⟨bits₁, piece₁, found₁, format₁, fits.1, rfl⟩,
        ((realizes' value bits₁ piece₁ found₁ format₁).ok_iff ..).mpr
          ⟨bits₂, piece₂, found₂, format₂, fits.2, ?_⟩⟩
      rw [List.length_append, List.length_append, spaceLeft_add, Nat.add_assoc, List.append_assoc]
  full := by
    rintro space result _ _ found
      ⟨value, bits₁, piece₁, bits₂, piece₂, rfl, rfl, format₁, format₂⟩ overflows
    obtain ⟨found₁, found₂⟩ := append_prefix_ahead.mp found
    -- Space runs out either in the second piece or already in the first one.
    by_cases fits₁ : Fits space piece₁.length
    · have overflows₂ : ¬ Fits (spaceLeft space piece₁.length) piece₂.length :=
        fun fits₂ => overflows (List.length_append ▸ fits_add.mpr ⟨fits₁, fits₂⟩)
      have began := (realizes.ok_iff ..).mpr ⟨bits₁, piece₁, found₁, format₁, fits₁, rfl⟩
      obtain ⟨progress, stops⟩ := (realizes' value bits₁ piece₁ found₁ format₁).full
        _ result bits₂ piece₂ found₂ format₂ overflows₂
      exact ⟨progress, (EState.bind_of_ok began).trans stops⟩
    · obtain ⟨progress, stops⟩ := realizes.full space value bits₁ piece₁ found₁ format₁ fits₁
      exact ⟨progress, EState.bind_of_error stops⟩

theorem throw (stop : Stop) :
    Realizes data position earlier (throw stop : Inflater α) fun _ _ _ => False where
  ok_iff _ _ _ := ⟨nofun, fun ⟨_, _, _, never, _⟩ => never.elim⟩
  full _ _ _ _ _ never := never.elim

theorem ite {condition : Prop} [Decidable condition] {left right : Inflater α}
    {format format' : Format α} (realizes : condition → Realizes data position earlier left format)
    (realizes' : ¬ condition → Realizes data position earlier right format') :
    Realizes data position earlier (if condition then left else right) fun value bits piece =>
      if condition then format value bits piece else format' value bits piece := by
  by_cases holds : condition
  · simpa only [if_pos holds] using realizes holds
  · simpa only [if_neg holds] using realizes' holds

theorem guarded {bad : Prop} [Decidable bad] {stop : Stop} {next : Unit → Inflater α}
    {format : Format α} (realizes : ¬ bad → Realizes data position earlier (next ()) format) :
    Realizes data position earlier (if bad then MonadExcept.throw stop >>= next else next ())
      fun value bits piece => ¬ bad ∧ format value bits piece := by
  by_cases holds : bad
  · rw [if_pos holds]
    change Realizes data position earlier (MonadExcept.throw stop) _
    exact (throw stop).congr fun _ _ _ => ⟨False.elim, fun formed => formed.1 holds⟩
  · rw [if_neg holds]
    exact (realizes holds).congr fun _ _ _ => (and_iff_right holds).symm

theorem wrote {first : Inflater Unit} {next : Inflater α} {written : Bytes → Prop}
    {back : Bytes → Format α}
    (realizes : Realizes data position earlier first fun _ bits piece =>
      bits = [] ∧ written piece)
    (realizes' : ∀ piece, written piece →
      Realizes data position (earlier ++ piece) next (back piece)) :
    Realizes data position earlier (first >>= fun _ => next) fun result bits piece =>
      ∃ front others, piece = front ++ others ∧ written front ∧ back front result bits others := by
  have realizes' (_ : Unit) (bits : List Bool) (piece : Bytes) (_ : bits <+: ahead data position)
      (wrote : bits = [] ∧ written piece) :
      Realizes data (position + bits.length) (earlier ++ piece) next (back piece) := by
    rw [wrote.1]
    exact realizes' piece wrote.2
  refine (realizes.bind realizes').congr fun result bits piece => ?_
  constructor
  · rintro ⟨_, _, front, _, others, rfl, rfl, ⟨rfl, wrote⟩, formed⟩
    exact ⟨front, others, rfl, wrote, formed⟩
  · rintro ⟨front, others, rfl, wrote, formed⟩
    exact ⟨(), [], front, bits, others, rfl, rfl, ⟨rfl, wrote⟩, formed⟩

end Realizes

namespace Consumes

theorem congr {inflater : Inflater α} {format format' : α → List Bool → Prop}
    (consumes : Consumes data position inflater format)
    (same : ∀ value bits, format value bits ↔ format' value bits) :
    Consumes data position inflater format' := fun earlier =>
  (consumes earlier).congr fun value bits _ => and_congr_left' (same value bits)

theorem pure (result : α) :
    Consumes data position (pure result) fun value bits => value = result ∧ bits = [] := by
  intro earlier
  refine ⟨fun space value progress => ?_, fun space value bits piece _ formed overflows => ?_⟩
  · constructor
    · intro returned
      cases returned
      exact ⟨[], [], List.nil_prefix, ⟨⟨rfl, rfl⟩, rfl⟩, fits_zero space, by simp⟩
    · rintro ⟨_, _, _, ⟨⟨rfl, rfl⟩, rfl⟩, _, rfl⟩
      simp only [List.length_nil, Nat.add_zero, spaceLeft_zero, List.append_nil]
      rfl
  · obtain ⟨_, rfl⟩ := formed
    exact absurd (fits_zero space) overflows

theorem throw (stop : Stop) :
    Consumes data position (throw stop : Inflater α) fun _ _ => False := fun _ =>
  (Realizes.throw stop).congr fun _ _ _ => (and_iff_left_of_imp False.elim).symm

/-- An inflater that only reads may come first. The bits of both parts stand one after the other. -/
theorem followed {first : Inflater α} {next : α → Inflater β} {front : α → List Bool → Prop}
    {back : α → List Bool → Format β} (consumes : Consumes data position first front)
    (realizes : ∀ value bits, bits <+: ahead data position → front value bits →
      Realizes data (position + bits.length) earlier (next value) (back value bits)) :
    Realizes data position earlier (first >>= next) fun result bits piece =>
      ∃ value bits₁ bits₂, bits = bits₁ ++ bits₂ ∧ front value bits₁ ∧
        back value bits₁ result bits₂ piece := by
  have realizes' (value : α) (bits : List Bool) (piece : Bytes) (found : bits <+: ahead data position)
      (formed : front value bits ∧ piece = []) :
      Realizes data (position + bits.length) (earlier ++ piece) (next value) (back value bits) := by
    rw [formed.2, List.append_nil]
    exact realizes value bits found formed.1
  refine ((consumes earlier).bind realizes').congr fun result bits piece => ?_
  constructor
  · rintro ⟨value, bits₁, _, bits₂, piece₂, rfl, rfl, ⟨formed₁, rfl⟩, formed₂⟩
    exact ⟨value, bits₁, bits₂, rfl, formed₁, formed₂⟩
  · rintro ⟨value, bits₁, bits₂, rfl, formed₁, formed₂⟩
    exact ⟨value, bits₁, [], bits₂, piece, rfl, rfl, ⟨formed₁, rfl⟩, formed₂⟩

theorem bind {first : Inflater α} {next : α → Inflater β} {front : α → List Bool → Prop}
    {back : α → List Bool → β → List Bool → Prop} (consumes : Consumes data position first front)
    (consumes' : ∀ value bits, bits <+: ahead data position → front value bits →
      Consumes data (position + bits.length) (next value) (back value bits)) :
    Consumes data position (first >>= next) fun result bits =>
      ∃ value bits₁ bits₂, bits = bits₁ ++ bits₂ ∧ front value bits₁ ∧
        back value bits₁ result bits₂ := by
  intro earlier
  refine (consumes.followed fun value bits found formed =>
    consumes' value bits found formed earlier).congr fun result bits piece => ?_
  constructor
  · rintro ⟨value, bits₁, bits₂, split, formed₁, formed₂, rfl⟩
    exact ⟨⟨value, bits₁, bits₂, split, formed₁, formed₂⟩, rfl⟩
  · rintro ⟨⟨value, bits₁, bits₂, split, formed₁, formed₂⟩, rfl⟩
    exact ⟨value, bits₁, bits₂, split, formed₁, formed₂, rfl⟩

theorem guarded {bad : Prop} [Decidable bad] {stop : Stop} {next : Unit → Inflater α}
    {format : α → List Bool → Prop} (consumes : ¬ bad → Consumes data position (next ()) format) :
    Consumes data position (if bad then MonadExcept.throw stop >>= next else next ())
      fun value bits => ¬ bad ∧ format value bits := fun earlier =>
  (Realizes.guarded fun fine => consumes fine earlier).congr fun _ _ _ => and_assoc.symm

theorem ite {condition : Prop} [Decidable condition] {left right : Inflater α}
    {format format' : α → List Bool → Prop}
    (consumes : condition → Consumes data position left format)
    (consumes' : ¬ condition → Consumes data position right format') :
    Consumes data position (if condition then left else right) fun value bits =>
      if condition then format value bits else format' value bits := by
  by_cases holds : condition
  · simpa only [if_pos holds] using consumes holds
  · simpa only [if_neg holds] using consumes' holds

end Consumes

theorem Realizes.done :
    Realizes data position earlier (pure ()) fun _ bits piece => bits = [] ∧ piece = [] :=
  (Consumes.pure () earlier).congr fun _ _ _ => and_congr_left' (and_iff_right rfl)

/-! ## Input -/

theorem singleton_prefix_ahead {bit : Bool} :
    [bit] <+: ahead data position ↔ (bitsOf data)[position]? = some bit := by
  rw [ahead, ← List.head?_drop]
  cases (bitsOf data).drop position with
  | nil => simp
  | cons first rest => simp [List.cons_prefix_cons, eq_comm]

theorem consumes_bit : Consumes data position bit fun value bits => bits = [value] := by
  intro earlier
  have stepped (space : Option Nat) :
      bit (.reached data position space earlier) = match (bitsOf data)[position]? with
        | some value => .ok value (.reached data (position + 1) space earlier)
        | none => .error .starved (.reached data position space earlier) := by
    rw [bit, Progress.reached, BitStream.next?_seek]
    cases (bitsOf data)[position]? <;> rfl
  refine ⟨fun space value progress => ?_, fun space value bits piece _ formed overflows => ?_⟩
  · rw [stepped]
    constructor
    · intro returned
      cases found : (bitsOf data)[position]? with
      | none =>
          rw [found] at returned
          cases returned
      | some value' =>
          rw [found] at returned
          cases returned
          exact ⟨[value], [], singleton_prefix_ahead.mpr found, ⟨rfl, rfl⟩, fits_zero space,
            by simp⟩
    · rintro ⟨_, _, found, ⟨rfl, rfl⟩, _, rfl⟩
      simp [singleton_prefix_ahead.mp found]
  · obtain ⟨_, rfl⟩ := formed
    exact absurd (fits_zero space) overflows

theorem consumes_number (width : Nat) :
    Consumes data position (number width) fun value bits =>
      bits.length = width ∧ value = numberOf bits := by
  induction width generalizing position with
  | zero =>
      refine (Consumes.pure 0).congr fun value bits => ?_
      constructor
      · rintro ⟨rfl, rfl⟩
        exact ⟨rfl, rfl⟩
      · rintro ⟨empty, rfl⟩
        obtain rfl := List.eq_nil_of_length_eq_zero empty
        exact ⟨rfl, rfl⟩
  | succ width ih =>
      refine (consumes_bit.bind fun low _ _ _ => ih.bind fun high _ _ _ =>
        Consumes.pure (low.toNat + 2 * high)).congr fun value bits => ?_
      constructor
      · rintro ⟨low, _, _, rfl, rfl, _, digits, _, rfl, ⟨rfl, rfl⟩, rfl, rfl⟩
        exact ⟨by simp, by simp [numberOf]⟩
      · rintro ⟨width', rfl⟩
        cases bits with
        | nil => cases width'
        | cons low digits =>
            exact ⟨low, [low], digits, rfl, rfl, numberOf digits, digits, [],
              (List.append_nil _).symm, ⟨Nat.succ.inj width', rfl⟩, rfl, rfl⟩

theorem consumes_times_number (width count : Nat) :
    Consumes data position (times (number width) count) fun values bits =>
      ∃ stored : List (List Bool), bits = stored.flatten ∧ stored.length = count ∧
        (∀ digits ∈ stored, digits.length = width) ∧ values = stored.map numberOf := by
  induction count generalizing position with
  | zero =>
      refine (Consumes.pure []).congr fun values bits => ?_
      constructor
      · rintro ⟨rfl, rfl⟩
        exact ⟨[], rfl, rfl, nofun, rfl⟩
      · rintro ⟨stored, rfl, none, _, rfl⟩
        obtain rfl := List.eq_nil_of_length_eq_zero none
        exact ⟨rfl, rfl⟩
  | succ count ih =>
      refine ((consumes_number width).bind fun first _ _ _ => ih.bind fun others _ _ _ =>
        Consumes.pure (first :: others)).congr fun values bits => ?_
      constructor
      · rintro ⟨_, digits, _, rfl, ⟨wide, rfl⟩, _, _, _, rfl, ⟨stored, rfl, rfl, all, rfl⟩, rfl,
          rfl⟩
        exact ⟨digits :: stored, by simp, rfl, List.forall_mem_cons.mpr ⟨wide, all⟩, rfl⟩
      · rintro ⟨stored, rfl, counted, all, rfl⟩
        cases stored with
        | nil => cases counted
        | cons digits stored =>
            obtain ⟨wide, all⟩ := List.forall_mem_cons.mp all
            exact ⟨numberOf digits, digits, stored.flatten, rfl, ⟨wide, rfl⟩,
              stored.map numberOf, stored.flatten, [], (List.append_nil _).symm,
              ⟨stored, rfl, Nat.succ.inj counted, all, rfl⟩, rfl, rfl⟩

/-- A symbol is found by walking the tree, and every spelling of it is walked. -/
theorem consumes_symbol (code : CodeTree) :
    Consumes data position (symbol code) fun value bits => code.Spells bits value := by
  induction code generalizing position with
  | gap =>
      refine (Consumes.throw .corrupt).congr fun _ _ => ?_
      constructor
      · exact False.elim
      · nofun
  | leaf value =>
      refine (Consumes.pure value).congr fun _ _ => ?_
      constructor
      · rintro ⟨rfl, rfl⟩
        exact .leaf
      · intro spells
        cases spells
        exact ⟨rfl, rfl⟩
  | fork zero one zeroIH oneIH =>
      have chosen (isOne : Bool) {position : Nat} :
          Consumes data position (if isOne then symbol one else symbol zero) fun value bits =>
            (if isOne then one else zero).Spells bits value := by
        cases isOne
        · exact zeroIH
        · exact oneIH
      refine (consumes_bit.bind fun isOne _ _ _ => chosen isOne).congr fun value bits => ?_
      constructor
      · rintro ⟨isOne, _, bits, rfl, rfl, spells⟩
        cases isOne
        · exact .zero spells
        · exact .one spells
      · intro spells
        cases spells with
        | zero spells => exact ⟨false, _, _, rfl, rfl, spells⟩
        | one spells => exact ⟨true, _, _, rfl, rfl, spells⟩

theorem consumes_classValue (classes : List (Nat × Nat)) (index : Nat) :
    Consumes data position (classValue classes index) fun value bits =>
      IsClass classes index bits value := by
  unfold classValue IsClass
  cases classes[index]? with
  | none => exact (Consumes.throw .corrupt).congr fun _ _ => ⟨False.elim, nofun⟩
  | some entry =>
      obtain ⟨first, extra⟩ := entry
      refine ((consumes_number extra).bind fun offset _ _ _ =>
        Consumes.pure (first + offset)).congr fun value bits => ?_
      constructor
      · rintro ⟨_, digits, _, rfl, ⟨rfl, rfl⟩, rfl, rfl⟩
        exact ⟨first, by simp, by simp⟩
      · rintro ⟨_, same, rfl⟩
        obtain ⟨rfl, rfl⟩ := Prod.mk.inj (Option.some.inj same)
        exact ⟨numberOf bits, bits, [], (List.append_nil _).symm, ⟨rfl, rfl⟩, rfl, rfl⟩

theorem consumes_align (inside : position ≤ (bitsOf data).length) :
    Consumes data position align fun _ bits => bits.length < 8 ∧ 8 ∣ position + bits.length := by
  intro earlier
  refine ⟨fun space value progress => ?_, fun space value bits piece _ formed overflows => ?_⟩
  · have stepped : align (.reached data position space earlier) =
        .ok () (.reached data (8 * ((position + 7) / 8)) space earlier) := by
      have place : 8 * ((position + 7) / 8) / 8 = (position + 7) / 8 := by omega
      have aligned : 8 * ((position + 7) / 8) % 8 = 0 := by omega
      simp only [align, Progress.reached, BitStream.untouched_seek,
        BitStream.seek_eq_ofBytes aligned, place]
    rw [stepped]
    constructor
    · intro returned
      cases returned
      have enough : 8 * ((position + 7) / 8) - position ≤ (ahead data position).length := by
        rw [length_bitsOf] at inside
        rw [ahead, List.length_drop, length_bitsOf]
        omega
      refine ⟨(ahead data position).take (8 * ((position + 7) / 8) - position), [],
        List.take_prefix _ _, ⟨?_, rfl⟩, fits_zero space, ?_⟩
      · change List.length _ < 8 ∧ 8 ∣ position + List.length _
        rw [List.length_take_of_le enough]
        omega
      · rw [List.length_take_of_le enough, Nat.add_sub_cancel' (by omega)]
        simp
    · rintro ⟨bits, _, _, ⟨⟨short, aligned⟩, rfl⟩, _, rfl⟩
      have place : 8 * ((position + 7) / 8) = position + bits.length := by omega
      simp [place]
  · obtain ⟨_, rfl⟩ := formed
    exact absurd (fits_zero space) overflows

/-! ## Output -/

/-- An inflater that only writes a piece, or as much of it as fits. -/
theorem Realizes.of_writes {inflater : Inflater Unit} {piece : Bytes}
    (writes : ∀ space, Fits space piece.length →
      inflater (.reached data position space earlier) =
        .ok () (.reached data position (spaceLeft space piece.length) (earlier ++ piece)))
    (full : ∀ space, ¬ Fits space piece.length →
      ∃ progress, inflater (.reached data position space earlier) = .error .full progress) :
    Realizes data position earlier inflater fun _ bits piece' => bits = [] ∧ piece' = piece := by
  refine ⟨fun space value progress => ?_, fun space value bits piece' _ formed overflows => ?_⟩
  · by_cases fits : Fits space piece.length
    · rw [writes space fits]
      constructor
      · intro returned
        cases returned
        exact ⟨[], piece, List.nil_prefix, ⟨rfl, rfl⟩, fits, rfl⟩
      · rintro ⟨_, _, _, ⟨rfl, rfl⟩, _, rfl⟩
        rfl
    · obtain ⟨_, stops⟩ := full space fits
      rw [stops]
      constructor
      · nofun
      · rintro ⟨_, _, _, ⟨_, rfl⟩, fits', _⟩
        exact absurd fits' fits
  · obtain ⟨_, rfl⟩ := formed
    exact full space overflows

theorem realizes_emit (byte : UInt8) :
    Realizes data position earlier (emit byte) fun _ bits piece =>
      bits = [] ∧ piece = [byte] := by
  refine .of_writes (fun space fits => ?_) fun space overflows => ?_
  · have room : space ≠ some 0 := by
      rintro rfl
      exact absurd fits (by simp)
    simp [emit, Progress.reached, spaceLeft, room]
  · have room : space = some 0 := by
      cases space with
      | none => exact absurd (fits_none _) overflows
      | some room =>
          rw [fits_some, List.length_singleton] at overflows
          congr 1
          omega
    exact ⟨_, by rw [emit, Progress.reached, if_pos room]⟩

theorem fitting_eq {space : Option Nat} {size : Nat} :
    fitting space size = size ↔ Fits space size := by
  cases space with
  | none => simp [fitting]
  | some room =>
      simp only [fitting, Option.getD_some, fits_some]
      omega

theorem fitting_lt {space : Option Nat} {size : Nat} (overflows : ¬ Fits space size) :
    fitting space size < size :=
  Nat.lt_of_le_of_ne (Nat.min_le_left ..) (mt fitting_eq.mp overflows)

theorem realizes_emitAll (piece : Bytes) :
    Realizes data position earlier (emitAll piece) fun _ bits piece' =>
      bits = [] ∧ piece' = piece := by
  refine .of_writes (fun space fits => ?_) fun space overflows => ?_
  · simp [emitAll, Progress.reached, spaceLeft, fitting_eq.mpr fits]
  · exact ⟨_, by rw [emitAll, Progress.reached, if_pos (fitting_lt overflows)]⟩

/-- A distance that reaches behind the history has no piece, and copying fails. -/
theorem realizes_copy {distance : Nat} (positive : 0 < distance) (length : Nat) :
    Realizes data position earlier (copy distance length) fun _ bits piece =>
      bits = [] ∧ piece.length = length ∧ IsCopy earlier distance piece := by
  -- The copy of a length is one fixed piece, so that it is written as any other.
  by_cases reached : distance ≤ earlier.length
  · have present : (earlier.reverse.drop (distance - 1)).isEmpty = false := by
      rw [List.isEmpty_eq_false_iff, ← List.length_pos_iff, List.length_drop, List.length_reverse]
      omega
    refine ((realizes_emitAll (lookBack earlier.reverse distance length)).agree fun space => ?_).congr
      fun _ bits piece => ?_
    · simp [copy, Progress.reached, present]
    · rw [isCopy_iff_lookBack positive, and_iff_right reached]
  · have missing : (earlier.reverse.drop (distance - 1)).isEmpty = true := by
      rw [List.isEmpty_iff, List.drop_eq_nil_iff, List.length_reverse]
      omega
    refine ((Realizes.throw .corrupt).agree fun space => ?_).congr fun _ bits piece => ?_
    · simp only [copy, Progress.reached, missing, if_true]
      rfl
    · exact ⟨False.elim, fun formed => reached formed.2.2.reached⟩

/-! ## Stored data -/

theorem bitsOf_prefix_ahead {piece : Bytes} {offset : Nat} :
    bitsOf piece <+: ahead data (8 * offset) ↔ piece <+: data.drop offset := by
  rw [ahead, drop_bitsOf]
  constructor
  · intro ⟨after, split⟩
    obtain ⟨behind, split⟩ := exists_append_of_bitsOf split.symm
    exact ⟨behind, split.symm⟩
  · intro ⟨behind, split⟩
    exact ⟨bitsOf behind, by rw [← split, bitsOf_append]⟩

theorem reached_aligned {offset : Nat} {space : Option Nat} :
    Progress.reached data (8 * offset) space earlier =
      ⟨.ofBytes (data.drop offset), space, earlier.reverse⟩ := by
  rw [Progress.reached, BitStream.seek_eq_ofBytes (Nat.mul_mod_right 8 offset),
    Nat.mul_div_cancel_left offset (by decide)]

theorem transfer_append {space : Option Nat} {piece behind reversed : Bytes}
    (fits : Fits space piece.length) :
    transfer piece.length ⟨.ofBytes (piece ++ behind), space, reversed⟩ =
      .ok () ⟨.ofBytes behind, spaceLeft space piece.length, piece.reverse ++ reversed⟩ := by
  simp [transfer, BitStream.ofBytes, fitting_eq.mpr fits, spaceLeft]

theorem transfer_full {space : Option Nat} {piece behind reversed : Bytes}
    (overflows : ¬ Fits space piece.length) :
    ∃ progress, transfer piece.length ⟨.ofBytes (piece ++ behind), space, reversed⟩ =
      .error .full progress := by
  have short := fitting_lt overflows
  have size : ((piece ++ behind).take (fitting space piece.length)).length =
      fitting space piece.length := by
    rw [List.length_take, List.length_append]
    omega
  simp [transfer, BitStream.ofBytes, size, short]

theorem exists_append_of_transfer {space : Option Nat} {bytes reversed : Bytes} {length : Nat}
    {value : Unit} {progress : Progress}
    (returned : transfer length ⟨.ofBytes bytes, space, reversed⟩ = .ok value progress) :
    ∃ piece behind, bytes = piece ++ behind ∧ piece.length = length ∧ Fits space length := by
  rw [transfer] at returned
  split at returned
  · cases returned
  · split at returned
    · cases returned
    · rename_i starved overflows
      have fits : fitting space length = length :=
        Nat.le_antisymm (Nat.min_le_left ..) (Nat.le_of_not_lt overflows)
      change ¬ (bytes.take (fitting space length)).length < fitting space length at starved
      rw [fits] at starved
      exact ⟨bytes.take length, bytes.drop length, (List.take_append_drop ..).symm,
        Nat.le_antisymm (List.length_take_le ..) (Nat.le_of_not_lt starved), fitting_eq.mp fits⟩

/-- Whole bytes are taken from an aligned position, and stand for themselves. -/
theorem realizes_transfer (aligned : 8 ∣ position) (length : Nat) :
    Realizes data position earlier (transfer length) fun _ bits piece =>
      bits = bitsOf piece ∧ piece.length = length := by
  obtain ⟨offset, rfl⟩ := aligned
  have transfers {space : Option Nat} {piece behind : Bytes}
      (split : piece ++ behind = data.drop offset) (fits : Fits space piece.length) :
      transfer piece.length (.reached data (8 * offset) space earlier) =
        .ok () (.reached data (8 * offset + (bitsOf piece).length) (spaceLeft space piece.length)
          (earlier ++ piece)) := by
    rw [length_bitsOf, ← Nat.mul_add, reached_aligned, reached_aligned, ← split,
      transfer_append fits, ← List.drop_drop, ← split, List.drop_left, List.reverse_append]
  refine ⟨fun space value progress => ?_, fun space value bits piece found formed overflows => ?_⟩
  · constructor
    · intro returned
      have present := returned
      rw [reached_aligned] at present
      obtain ⟨piece, behind, split, rfl, fits⟩ := exists_append_of_transfer present
      cases (transfers split.symm fits).symm.trans returned
      exact ⟨bitsOf piece, piece, bitsOf_prefix_ahead.mpr ⟨behind, split.symm⟩, ⟨rfl, rfl⟩, fits,
        rfl⟩
    · rintro ⟨_, piece, found, ⟨rfl, rfl⟩, fits, rfl⟩
      obtain ⟨behind, split⟩ := bitsOf_prefix_ahead.mp found
      exact transfers split fits
  · obtain ⟨rfl, rfl⟩ := formed
    obtain ⟨behind, split⟩ := bitsOf_prefix_ahead.mp found
    rw [reached_aligned, ← split]
    exact transfer_full overflows

end Inflater

end CilRecovery.Deflate
