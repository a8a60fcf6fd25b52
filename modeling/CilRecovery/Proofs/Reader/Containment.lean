import CilRecovery.Proofs.Reader.Programs
import CilRecovery.Proofs.Reader.Refuses

/-!
# Cursors stay inside their data

Whatever program runs from the start of the data, no call that it makes puts the cursor behind their
end, a call that fails does not move it, and what a call returns is what the bytes say that it went
over. The cursor moves back only to places that were sought.
-/

set_option autoImplicit false

namespace CilRecovery

/-- A cursor on the data, not behind their end. -/
structure Cursor.Within (cursor : Cursor) (data : Bytes) : Prop where
  buffer : cursor.buffer = data
  inside : cursor.position ≤ data.length

theorem Cursor.start_within (data : Bytes) : (Cursor.start data).Within data :=
  ⟨rfl, Nat.zero_le _⟩

namespace Reader

variable {α β : Type}

/-! ## Failures -/

def Unmoved (reader : Reader α) : Prop :=
  ∀ cursor error stopped, reader cursor = .error error stopped → stopped = cursor

namespace Unmoved

theorem atomically (reader : Reader α) : Unmoved (atomically reader) :=
  fun _ _ _ failed => (atomically_eq_error_iff.mp failed).2

theorem peek (reader : Reader α) : Unmoved (peek reader) := by
  intro cursor error stopped failed
  unfold Reader.peek at failed
  split at failed
  · cases failed
  · cases failed
    rfl

theorem last {reader : Reader α} (unmoved : Unmoved reader) (result : α → β) :
    Unmoved (reader >>= fun value => pure (result value)) := by
  intro cursor error stopped failed
  rcases EState.bind_eq_error.mp failed with failed | ⟨_, _, _, impossible⟩
  · exact unmoved _ _ _ failed
  · cases impossible

theorem map {reader : Reader α} (unmoved : Unmoved reader) (result : α → β) :
    Unmoved (result <$> reader) := by
  rw [map_eq_pure_bind]
  exact unmoved.last result

theorem position : Unmoved position := nofun

theorem left : Unmoved left := nofun

theorem rest : Unmoved rest := nofun

theorem seek (target : Nat) : Unmoved (seek target) := by
  intro cursor error stopped failed
  unfold Reader.seek at failed
  split at failed
  · cases failed
  · cases failed
    rfl

theorem skip (count : Nat) : Unmoved (skip count) := by
  intro cursor error stopped failed
  unfold Reader.skip at failed
  split at failed
  · cases failed
  · cases failed
    rfl

theorem align (alignment : Nat) (positive : 0 < alignment) : Unmoved (align alignment positive) :=
  fun cursor => skip (paddingTo alignment cursor.position) cursor

theorem peekByte : Unmoved peekByte := by
  intro cursor error stopped failed
  unfold Reader.peekByte at failed
  split at failed
  · cases failed
  · cases failed
    rfl

theorem take (count : Nat) : Unmoved (take count) := by
  intro cursor error stopped failed
  unfold Reader.take at failed
  split at failed
  · cases failed
  · cases failed
    rfl

theorem word (kind : WordKind) : Unmoved (word kind) := ((take kind.width).last _).last _

end Unmoved

/-- Operations made of several reads are no exception. -/
theorem Operation.unmoved (operation : Operation) : Unmoved operation.run := by
  cases operation with
  | position => exact Unmoved.position
  | left => exact Unmoved.left
  | seek target => exact Unmoved.seek target
  | skip count => exact Unmoved.skip count
  | align alignment positive => exact Unmoved.align alignment positive
  | peekByte => exact Unmoved.peekByte
  | peekWord kind => exact Unmoved.peek (Reader.word kind)
  | word kind => exact Unmoved.word kind
  | take count => exact Unmoved.take count
  | rest => exact Unmoved.rest
  | compressed => exact Unmoved.atomically _
  | sevenBit => exact Unmoved.atomically _
  | text => exact Unmoved.atomically _
  | skipText => exact (Unmoved.atomically _).map _
  | body => exact Unmoved.atomically _

/-! ## Successes -/

theorem peek_eq_ok_iff {reader : Reader α} {cursor moved : Cursor} {value : α} :
    peek reader cursor = .ok value moved ↔
      (∃ ahead, reader cursor = .ok value ahead) ∧ moved = cursor := by
  unfold Reader.peek
  cases reader cursor with
  | ok value' ahead =>
      constructor
      · intro same
        cases same
        exact ⟨⟨ahead, rfl⟩, rfl⟩
      · intro ⟨⟨_, same⟩, unmoved⟩
        cases same
        cases unmoved
        rfl
  | error error stopped => exact ⟨nofun, fun ⟨⟨_, impossible⟩, _⟩ => nomatch impossible⟩

/-- From a place forward, or from one of other places. -/
def Reaches (places : List Nat) (start stop : Nat) : Prop := ∃ place ∈ start :: places, place ≤ stop

theorem Reaches.forward {places : List Nat} {start stop : Nat} (forward : start ≤ stop) :
    Reaches places start stop :=
  ⟨start, List.mem_cons_self, forward⟩

theorem Reaches.behind {places : List Nat} {start stop count : Nat} (end_ : stop = start + count) :
    Reaches places start stop :=
  .forward (end_ ▸ Nat.le_add_right start count)

theorem Reaches.trans {first second : List Nat} {start middle stop : Nat}
    (before : Reaches first start middle) (after : Reaches second middle stop) :
    Reaches (first ++ second) start stop := by
  obtain ⟨place, member, reached⟩ := after
  cases member with
  | head =>
      obtain ⟨place, member, reached'⟩ := before
      have kept : place ∈ start :: first ++ second := List.mem_append_left second member
      exact ⟨place, kept, Nat.le_trans reached' reached⟩
  | tail _ member =>
      have kept : place ∈ start :: first ++ second := List.mem_append_right (start :: first) member
      exact ⟨place, kept, reached⟩

section

variable {data : Bytes} {start : Nat}

/-- A reader that accepts spans goes over one of them, which lies between the two places. -/
theorem Accepts.between {reader : Reader α} {form : Form α} (accepts : Accepts reader form)
    (inside : start ≤ data.length) {value : α} {moved : Cursor}
    (read : reader ⟨data, start⟩ = .ok value moved) :
    moved.Within data ∧ moved.position = start + (data.extract start moved.position).length ∧
      form start (data.extract start moved.position) value := by
  obtain ⟨span, after, split, formed, rfl⟩ := (accepts.at_place inside).mp read
  have total := congrArg List.length split
  rw [List.length_drop, List.length_append] at total
  have covered : data.extract start (start + span.length) = span := by
    rw [List.extract_eq_take_drop, split, Nat.add_sub_cancel_left, List.take_left]
  have bound : start + span.length ≤ data.length := by omega
  refine ⟨⟨rfl, bound⟩, ?_, ?_⟩
  · rw [covered]
  · rwa [covered]

structure Operation.Succeeds (data : Bytes) (start : Nat) (operation : Operation)
    (value : operation.Answer) (moved : Cursor) : Prop where
  within : moved.Within data
  returns : operation.Returns data start moved.position value
  reaches : Reaches operation.targets start moved.position

/-- One case for each operation. What a read returns is what the bytes between the positions say. -/
theorem Operation.succeeds (operation : Operation) (inside : start ≤ data.length)
    {value : operation.Answer} {moved : Cursor} (ran : operation.run ⟨data, start⟩ = .ok value moved) :
    operation.Succeeds data start value moved := by
  have kept : (⟨data, start⟩ : Cursor).Within data := ⟨rfl, inside⟩
  cases operation with
  | position =>
      cases ran
      exact ⟨kept, ⟨rfl, rfl⟩, .forward (Nat.le_refl start)⟩
  | left =>
      cases ran
      exact ⟨kept, ⟨rfl, rfl⟩, .forward (Nat.le_refl start)⟩
  | seek target =>
      by_cases fits : target ≤ data.length
      · have sought : Reader.seek target ⟨data, start⟩ = .ok () ⟨data, target⟩ := if_pos fits
        cases sought.symm.trans ran
        exact ⟨⟨rfl, fits⟩, rfl, target, by simp [targets], Nat.le_refl target⟩
      · have refused : Reader.seek target ⟨data, start⟩ = .error .outOfBounds ⟨data, start⟩ :=
          if_neg fits
        cases refused.symm.trans ran
  | skip count =>
      obtain ⟨within, end_, length⟩ := (Accepts.skip count).between inside ran
      exact ⟨within, length ▸ end_, .behind end_⟩
  | align alignment positive =>
      obtain ⟨within, end_, length⟩ := (Accepts.align alignment positive).between inside ran
      rw [length] at end_
      have small : paddingTo alignment start < alignment := Nat.mod_lt _ positive
      refine ⟨within, ⟨?_, ?_⟩, .forward ?_⟩
      · rw [end_, paddingTo_mod start positive]
      · omega
      · omega
  | peekByte =>
      cases found : data[start]? with
      | none =>
          have refused : Reader.peekByte ⟨data, start⟩ = .error .outOfBounds ⟨data, start⟩ := by
            simp only [Reader.peekByte, found]
          cases refused.symm.trans ran
      | some byte =>
          have peeked : Reader.peekByte ⟨data, start⟩ = .ok byte ⟨data, start⟩ := by
            simp only [Reader.peekByte, found]
          cases peeked.symm.trans ran
          exact ⟨kept, ⟨rfl, found⟩, .forward (Nat.le_refl start)⟩
  | peekWord kind =>
      obtain ⟨⟨ahead, read⟩, rfl⟩ := peek_eq_ok_iff.mp ran
      obtain ⟨within, end_, length, decoded⟩ := (Accepts.word kind).between inside read
      rw [length] at end_
      rw [end_] at decoded
      exact ⟨kept, ⟨rfl, end_ ▸ within.inside, decoded⟩, .forward (Nat.le_refl start)⟩
  | word kind =>
      obtain ⟨within, end_, length, decoded⟩ := (Accepts.word kind).between inside ran
      exact ⟨within, ⟨length ▸ end_, decoded⟩, .behind end_⟩
  | take count =>
      obtain ⟨within, end_, length, same⟩ := (Accepts.take count).between inside ran
      exact ⟨within, ⟨length ▸ end_, same⟩, .behind end_⟩
  | rest =>
      cases ran
      refine ⟨⟨rfl, Nat.le_refl _⟩, ⟨rfl, ?_⟩, .forward inside⟩
      rw [List.extract_eq_take_drop, ← List.length_drop, List.take_length]
  | compressed =>
      obtain ⟨within, end_, formed⟩ := Varint.accepts_readCompressed.between inside ran
      exact ⟨within, formed, .behind end_⟩
  | sevenBit =>
      obtain ⟨within, end_, formed⟩ := Varint.accepts_readSevenBit.between inside ran
      exact ⟨within, formed, .behind end_⟩
  | text =>
      obtain ⟨within, end_, formed⟩ := Varint.accepts_readPrefixedText.between inside ran
      exact ⟨within, formed, .behind end_⟩
  | skipText =>
      obtain ⟨within, end_, bytes, formed, _⟩ :=
        (Varint.accepts_readPrefixedBytes.map fun _ => ()).between inside ran
      exact ⟨within, ⟨bytes, formed⟩, .behind end_⟩
  | body =>
      obtain ⟨within, end_, formed⟩ := Method.Body.accepts_read.between inside ran
      exact ⟨within, formed, .behind end_⟩

end

/-! ## Calls and programs -/

section

variable {ρ : Type} {data : Bytes} {start : Cursor}

/-- A call starts inside the data. A success ends inside them, at or behind its start or a place that
was sought, with what the bytes in between say. A failure has not moved. -/
structure Call.Sound (data : Bytes) (call : Call ρ) (start : Cursor) : Prop where
  entered : start.Within data
  succeeded : ∀ value moved, call.run start = .ok value moved →
    moved.Within data ∧ call.Returns data start.position moved.position value ∧
      Reaches (call.sought start) start.position moved.position
  failed : ∀ error stopped, call.run start = .error error stopped → stopped = start

/-- All calls of a program are sound, and so is the program as one. -/
structure Program.Sound (data : Bytes) (program : Program ρ) (start : Cursor) : Prop where
  calls : ∀ call place, (call, place) ∈ program.calls start → call.Sound data place
  stopped : (settle program.run start).2.Within data
  reaches : Reaches (program.sought start) start.position (settle program.run start).2.position

theorem settle_of_ok {reader : Reader α} {cursor moved : Cursor} {value : α}
    (ran : reader cursor = .ok value moved) : settle reader cursor = (.ok value, moved) := by
  rw [settle, ran]

theorem settle_of_error {reader : Reader α} {cursor stopped : Cursor} {error : Error}
    (ran : reader cursor = .error error stopped) :
    settle reader cursor = (.error error, stopped) := by
  rw [settle, ran]

theorem Call.sound_single (operation : Operation) (within : start.Within data) :
    (Call.single operation : Call ρ).Sound data start := by
  obtain ⟨buffer, position⟩ := start
  obtain ⟨rfl, inside⟩ := within
  refine ⟨⟨rfl, inside⟩, fun value moved ran => ?_, operation.unmoved _⟩
  have outcome := operation.succeeds inside ran
  exact ⟨outcome.within, outcome.returns, outcome.reaches⟩

/-- A block that succeeds has done what its body did. -/
theorem Call.sound_block {body : Program ρ} (within : start.Within data)
    (sound : body.Sound data start) : (Call.block body).Sound data start := by
  refine ⟨within, fun value moved ran => ?_, Unmoved.atomically body.run start⟩
  have ran' : body.run start = .ok value moved := atomically_eq_ok_iff.mp ran
  have stopped := sound.stopped
  have reaches := sound.reaches
  rw [settle_of_ok ran'] at stopped reaches
  exact ⟨stopped, True.intro, reaches⟩

theorem Call.Sound.settled {call : Call ρ} (sound : call.Sound data start) :
    (settle call.run start).2.Within data ∧
      Reaches (if (settle call.run start).1.isOk then call.sought start else []) start.position
        (settle call.run start).2.position := by
  cases ran : call.run start with
  | ok value moved =>
      obtain ⟨within, -, reaches⟩ := sound.succeeded value moved ran
      rw [settle_of_ok ran]
      exact ⟨within, reaches⟩
  | error error stopped =>
      cases sound.failed error stopped ran
      rw [settle_of_error ran]
      exact ⟨sound.entered, .forward (Nat.le_refl _)⟩

/-- The induction is on the program, for every start inside the data at once. -/
theorem Program.sound (program : Program ρ) (within : start.Within data) :
    program.Sound data start := by
  -- What follows a call starts where the call has ended, which is inside the data again.
  induction program generalizing start with
  | finish result =>
      have kept : (settle (check result) start).2 = start := by
        cases result with
        | ok value => rfl
        | error error => rfl
      exact ⟨nofun, kept.symm ▸ within, kept.symm ▸ .forward (Nat.le_refl _)⟩
  | perform operation next ih =>
      have call := Call.sound_single (ρ := ρ) operation within
      obtain ⟨within', reaches⟩ := call.settled
      have rest := ih (settle operation.run start).1 within'
      refine ⟨fun other place member => ?_, rest.stopped, reaches.trans rest.reaches⟩
      cases member with
      | head => exact call
      | tail _ member => exact rest.calls other place member
  | block body next bodyIH ih =>
      have inner := bodyIH within
      have call := Call.sound_block within inner
      obtain ⟨within', reaches⟩ := call.settled
      have rest := ih (settle (atomically body.run) start).1 within'
      refine ⟨fun other place member => ?_, rest.stopped, reaches.trans rest.reaches⟩
      cases member with
      | head => exact call
      | tail _ member =>
          cases List.mem_append.mp member with
          | inl inside => exact inner.calls other place inside
          | inr later => exact rest.calls other place later

/-- From the start of the data, every call of a program, at any depth of its blocks, starts and ends
inside the data. If it fails, it has not moved. If it succeeds, it returns what the bytes between its
two places say, and it ends in front of its start only if it sought a place that is not behind its
end. -/
theorem Program.calls_sound (data : Bytes) (program : Program ρ) :
    (∀ call place, (call, place) ∈ program.calls (Cursor.start data) → call.Sound data place) ∧
      (settle program.run (Cursor.start data)).2.Within data := by
  have sound := program.sound (Cursor.start_within data)
  exact ⟨sound.calls, sound.stopped⟩

/-- Reads, fails to read, and runs two blocks that both move back, the first one in vain. -/
private def wandering : Program Unit :=
  .perform (.take 3) fun _ => .perform .sevenBit fun _ =>
    .block (.perform (.seek 1) fun _ => .perform (.take 9) fun _ => .finish (.error .outOfBounds))
      fun _ => .block (.perform (.seek 1) fun _ => .perform (.word .u8) fun _ => .finish (.ok ()))
        fun _ => .finish (.ok ())

example :
    (wandering.calls (Cursor.start [1, 2, 3, 0x80])).map (fun made => made.2.position) =
        [0, 3, 3, 3, 1, 3, 3, 1] ∧
      wandering.sought (Cursor.start [1, 2, 3, 0x80]) = [1] ∧
      (settle wandering.run (Cursor.start [1, 2, 3, 0x80])).2.position = 2 :=
  ⟨rfl, rfl, rfl⟩

end

end Reader

end CilRecovery
