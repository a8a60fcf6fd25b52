import Mathlib.Data.List.Forall2

/-!
# Computations that may fail

What a sequence of computations comes to, with a state or without.
-/

set_option autoImplicit false

namespace CilRecovery.Except

/-!
## Without a state

A sequence of computations succeeds exactly if each of them does.
-/

variable {ε α β : Type}

theorem bind_eq_ok {first : Except ε α} {next : α → Except ε β} {result : β} :
    first >>= next = .ok result ↔ ∃ value, first = .ok value ∧ next value = .ok result := by
  constructor
  · intro succeeded
    cases first with
    | error error => cases succeeded
    | ok value => exact ⟨value, rfl, succeeded⟩
  · rintro ⟨value, rfl, succeeded⟩
    exact succeeded

theorem bind_eq_error {first : Except ε α} {next : α → Except ε β} {error : ε} :
    first >>= next = .error error ↔
      first = .error error ∨ ∃ value, first = .ok value ∧ next value = .error error := by
  constructor
  · intro failed
    cases first with
    | error error' =>
        cases failed
        exact .inl rfl
    | ok value => exact .inr ⟨value, rfl, failed⟩
  · rintro (rfl | ⟨value, rfl, failed⟩)
    · rfl
    · exact failed

/-- The values stand in the order of the items, one for each. -/
theorem mapM_eq_ok {step : α → Except ε β} {items : List α} {values : List β} :
    items.mapM step = .ok values ↔
      List.Forall₂ (fun item value => step item = .ok value) items values := by
  induction items generalizing values with
  | nil =>
      rw [List.mapM_nil, List.forall₂_nil_left_iff]
      constructor
      · intro succeeded
        cases succeeded
        rfl
      · rintro rfl
        rfl
  | cons item rest ih =>
      rw [List.mapM_cons, List.forall₂_cons_left_iff]
      constructor
      · intro succeeded
        obtain ⟨value, first, succeeded⟩ := bind_eq_ok.mp succeeded
        obtain ⟨others, later, succeeded⟩ := bind_eq_ok.mp succeeded
        cases succeeded
        exact ⟨value, others, first, ih.mp later, rfl⟩
      · rintro ⟨value, others, first, later, rfl⟩
        exact bind_eq_ok.mpr ⟨value, first, bind_eq_ok.mpr ⟨others, ih.mpr later, rfl⟩⟩

theorem exists_of_mem_mapM {step : α → Except ε β} {items : List α} {values : List β}
    (succeeded : items.mapM step = .ok values) {value : β} (member : value ∈ values) :
    ∃ item ∈ items, step item = .ok value := by
  have paired := mapM_eq_ok.mp succeeded
  clear succeeded
  induction paired with
  | nil => cases member
  | cons first _ ih =>
      rcases List.mem_cons.mp member with rfl | later
      · exact ⟨_, List.mem_cons_self, first⟩
      · obtain ⟨item, inside, computed⟩ := ih later
        exact ⟨item, List.mem_cons_of_mem _ inside, computed⟩

/-- A sequence of computations fails with the error of one of them. -/
theorem mapM_eq_error {step : α → Except ε β} {items : List α} {error : ε}
    (failed : items.mapM step = .error error) : ∃ item ∈ items, step item = .error error := by
  induction items with
  | nil => cases failed
  | cons item rest ih =>
      rw [List.mapM_cons, bind_eq_error] at failed
      rcases failed with first | ⟨value, -, later⟩
      · exact ⟨item, List.mem_cons_self, first⟩
      · rcases bind_eq_error.mp later with later | ⟨values, -, done⟩
        · obtain ⟨other, member, refused⟩ := ih later
          exact ⟨other, List.mem_cons_of_mem _ member, refused⟩
        · cases done

theorem exists_mapM_eq_ok {step : α → Except ε β} {items : List α} :
    (∃ values, items.mapM step = .ok values) ↔ ∀ item ∈ items, ∃ value, step item = .ok value := by
  constructor
  · intro ⟨values, succeeded⟩ item member
    obtain ⟨place, found⟩ := List.getElem?_of_mem member
    have paired := mapM_eq_ok.mp succeeded
    obtain ⟨inside, rfl⟩ := List.getElem?_eq_some_iff.mp found
    exact ⟨values.get ⟨place, paired.length_eq ▸ inside⟩, paired.get inside _⟩
  · intro each
    cases failed : items.mapM step with
    | ok values => exact ⟨values, rfl⟩
    | error error =>
        obtain ⟨item, member, refused⟩ := mapM_eq_error failed
        obtain ⟨value, computed⟩ := each item member
        rw [refused] at computed
        cases computed

theorem forM_eq_ok {step : α → Except ε Unit} {items : List α} :
    items.forM step = .ok () ↔ ∀ item ∈ items, step item = .ok () := by
  induction items with
  | nil => exact ⟨fun _ _ member => (List.not_mem_nil member).elim, fun _ => rfl⟩
  | cons item rest ih =>
      rw [List.forM, bind_eq_ok, List.forall_mem_cons]
      constructor
      · rintro ⟨_, first, later⟩
        exact ⟨first, ih.mp later⟩
      · rintro ⟨first, later⟩
        exact ⟨(), first, ih.mpr later⟩

/-- A walk that fails does so with the error of one of its items. -/
theorem forM_eq_error {step : α → Except ε Unit} {items : List α} {error : ε}
    (failed : items.forM step = .error error) : ∃ item ∈ items, step item = .error error := by
  induction items with
  | nil => cases failed
  | cons item rest ih =>
      rw [List.forM, bind_eq_error] at failed
      rcases failed with first | ⟨_, -, later⟩
      · exact ⟨item, List.mem_cons_self, first⟩
      · obtain ⟨other, member, refused⟩ := ih later
        exact ⟨other, List.mem_cons_of_mem _ member, refused⟩

end CilRecovery.Except

namespace CilRecovery.EState

/-!
## With a state

One computation after the other: what the two come to together, by what the first one did.
-/

variable {ε σ α β : Type} {first : EStateM ε σ α} {next : α → EStateM ε σ β}
variable {start stopped final : σ}

theorem bind_of_ok {value : α} (finished : first start = .ok value stopped) :
    (first >>= next) start = next value stopped := by
  change EStateM.bind first next start = _
  rw [EStateM.bind, finished]

theorem bind_of_error {error : ε} (failed : first start = .error error stopped) :
    (first >>= next) start = .error error stopped := by
  change EStateM.bind first next start = _
  rw [EStateM.bind, failed]

theorem bind_eq_ok {result : β} :
    (first >>= next) start = .ok result final ↔
      ∃ value stopped, first start = .ok value stopped ∧ next value stopped = .ok result final := by
  cases began : first start with
  | ok value stopped =>
      rw [bind_of_ok began]
      constructor
      · intro continued
        exact ⟨value, stopped, rfl, continued⟩
      · intro ⟨_, _, same, continued⟩
        cases same
        exact continued
  | error error stopped =>
      rw [bind_of_error began]
      exact ⟨nofun, nofun⟩

theorem bind_eq_error {error : ε} :
    (first >>= next) start = .error error final ↔
      first start = .error error final ∨
        ∃ value stopped, first start = .ok value stopped ∧
          next value stopped = .error error final := by
  cases began : first start with
  | ok value stopped =>
      rw [bind_of_ok began]
      constructor
      · intro failed
        exact .inr ⟨value, stopped, rfl, failed⟩
      · rintro (same | ⟨_, _, same, failed⟩)
        · cases same
        · cases same
          exact failed
  | error error' stopped =>
      rw [bind_of_error began]
      constructor
      · intro same
        cases same
        exact .inl rfl
      · rintro (same | ⟨_, _, same, _⟩)
        · cases same
          rfl
        · cases same

end CilRecovery.EState
