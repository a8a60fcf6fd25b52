import CilRecovery.Proofs.Reader.Accepts

/-!
# Errors that readers report

Which errors a reader can fail with follows from the errors of its parts. Moving and reading fail
with an access out of bounds only.
-/

set_option autoImplicit false

namespace CilRecovery

/-- Data does not have the form that a reading expects. -/
def Error.IsFormat (error : Error) : Prop :=
  error.family = .invalidMethodBody ∨ error.family = .malformed ∨ error.family = .outOfBounds

theorem Error.IsFormat.severity {error : Error} (format : error.IsFormat) :
    error.severity = .notApplicable := by
  rcases format with family | family | family <;> rw [Error.severity, family] <;> rfl

theorem Error.isFormat_outOfBounds : Error.outOfBounds.IsFormat := .inr (.inr rfl)

theorem Error.isFormat_malformed (fault : Malformation) : (Error.malformed fault).IsFormat :=
  .inr (.inl rfl)

namespace Reader

variable {α β : Type} {allowed : Error → Prop}

/-- A reader fails, if it does, with an allowed error. -/
def Refuses (reader : Reader α) (allowed : Error → Prop) : Prop :=
  ∀ cursor error moved, reader cursor = .error error moved → allowed error

theorem atomically_eq_ok_iff {reader : Reader α} {cursor moved : Cursor} {value : α} :
    atomically reader cursor = .ok value moved ↔ reader cursor = .ok value moved := by
  unfold Reader.atomically
  cases reader cursor with
  | ok value' moved' => exact Iff.rfl
  | error error stopped => exact ⟨nofun, nofun⟩

theorem atomically_eq_error_iff {reader : Reader α} {cursor moved : Cursor} {error : Error} :
    atomically reader cursor = .error error moved ↔
      (∃ stopped, reader cursor = .error error stopped) ∧ moved = cursor := by
  unfold Reader.atomically
  cases reader cursor with
  | ok value stopped => exact ⟨nofun, fun ⟨⟨_, impossible⟩, _⟩ => nomatch impossible⟩
  | error error' stopped =>
      constructor
      · intro failed
        cases failed
        exact ⟨⟨stopped, rfl⟩, rfl⟩
      · rintro ⟨⟨_, failed⟩, rfl⟩
        cases failed
        rfl

namespace Refuses

theorem pure (value : α) : Refuses (pure value) allowed := by
  intro cursor error moved failed
  cases failed

theorem throw {error : Error} (permitted : allowed error) :
    Refuses (throw error : Reader α) allowed := by
  intro cursor error' moved failed
  cases failed
  exact permitted

theorem bind {reader : Reader α} {next : α → Reader β} (first : Refuses reader allowed)
    (second : ∀ value, Refuses (next value) allowed) : Refuses (reader >>= next) allowed := by
  intro cursor error moved failed
  rcases EState.bind_eq_error.mp failed with failed | ⟨value, middle, _, failed⟩
  · exact first cursor error moved failed
  · exact second value middle error moved failed

theorem ite {condition : Prop} [Decidable condition] {left right : Reader α}
    (positive : Refuses left allowed) (negative : Refuses right allowed) :
    Refuses (if condition then left else right) allowed := by
  by_cases holds : condition
  · rwa [if_pos holds]
  · rwa [if_neg holds]

theorem atomically {reader : Reader α} (inner : Refuses reader allowed) :
    Refuses (atomically reader) allowed := by
  intro cursor error moved failed
  unfold Reader.atomically at failed
  cases read : reader cursor with
  | ok value middle =>
      rw [read] at failed
      cases failed
  | error error' moved' =>
      rw [read] at failed
      cases failed
      exact inner cursor error moved' read

theorem position : Refuses position allowed := by
  intro cursor error moved failed
  cases failed

theorem left : Refuses left allowed := by
  intro cursor error moved failed
  cases failed

theorem rest : Refuses rest allowed := by
  intro cursor error moved failed
  cases failed

theorem times {reader : Reader α} (inner : Refuses reader allowed) (count : Nat) :
    Refuses (times reader count) allowed := by
  induction count with
  | zero => exact pure []
  | succ count ih => exact inner.bind fun first => ih.bind fun others => pure (first :: others)

/-- Bytes that a reader does not decode are refused with one of its errors. -/
theorem decode {reader : Reader α} (inner : Refuses reader allowed) {data : Bytes} {error : Error}
    (refused : reader.decode data = .error error) : allowed error := by
  unfold Reader.decode at refused
  cases read : reader (Cursor.start data) with
  | ok value moved =>
      rw [read] at refused
      cases refused
  | error error' moved =>
      rw [read] at refused
      cases refused
      exact inner _ _ _ read

theorem check {result : Except Error α}
    (permitted : ∀ error, result = .error error → allowed error) :
    Refuses (check result) allowed := by
  intro cursor error moved failed
  cases result with
  | ok value => cases failed
  | error error' =>
      cases failed
      exact permitted error rfl

section

variable (bounds : allowed .outOfBounds)

include bounds

theorem seek (target : Nat) : Refuses (seek target) allowed := by
  intro cursor error moved failed
  unfold Reader.seek at failed
  split at failed <;> cases failed
  exact bounds

theorem skip (count : Nat) : Refuses (skip count) allowed := by
  intro cursor error moved failed
  unfold Reader.skip at failed
  split at failed <;> cases failed
  exact bounds

theorem align (alignment : Nat) (positive : 0 < alignment) :
    Refuses (align alignment positive) allowed :=
  fun cursor => skip bounds _ cursor

theorem peekByte : Refuses peekByte allowed := by
  intro cursor error moved failed
  unfold Reader.peekByte at failed
  split at failed <;> cases failed
  exact bounds

theorem take (count : Nat) : Refuses (take count) allowed := by
  intro cursor error moved failed
  unfold Reader.take at failed
  split at failed <;> cases failed
  exact bounds

theorem unsigned (width : Nat) : Refuses (unsigned width) allowed :=
  (take bounds width).bind fun _ => pure _

theorem byte : Refuses byte allowed := (unsigned bounds 1).bind fun _ => pure _

theorem uint16 : Refuses uint16 allowed := (unsigned bounds 2).bind fun _ => pure _

theorem uint32 : Refuses uint32 allowed := (unsigned bounds 4).bind fun _ => pure _

theorem word (kind : WordKind) : Refuses (word kind) allowed :=
  (unsigned bounds kind.width).bind fun _ => pure _

theorem count {counter : Counter}
    (negative : ∀ value, allowed (.malformed (.negative counter value))) :
    Refuses (count counter) allowed :=
  (word bounds .i32).bind fun value =>
    ite ((throw (negative value)).bind fun _ => pure _) (pure _)

end

end Refuses

end Reader

end CilRecovery
