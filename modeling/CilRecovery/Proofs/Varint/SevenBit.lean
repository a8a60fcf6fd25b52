import CilRecovery.Proofs.Reader.Fails
import CilRecovery.Proofs.Varint

/-!
# What seven-bit integers are read as

The groups that a reader takes and the number that they stand for, for any bytes at any position.
Up to four groups are read as their number. A fifth one has room for four bits; what it says above
them is lost.
-/

set_option autoImplicit false

namespace CilRecovery.Varint

open Reader (Accepts Fails Flaw RunsOut)

/-! ## Groups -/

def groupsNumber : Bytes → Nat
  | [] => 0
  | byte :: others => byte.toNat % 0x80 + 0x80 * groupsNumber others

/-- Every group but the last one says that another one follows. -/
inductive IsGroups : Bytes → Prop
  | last {byte : UInt8} (final : byte < 0x80) : IsGroups [byte]
  | more {byte : UInt8} {others : Bytes} (continued : ¬ byte < 0x80) (rest : IsGroups others) :
      IsGroups (byte :: others)

/-- No last group among the first ones: the data end, or there are too many groups. -/
def Endless (groups : Nat) : Flaw := fun rest error =>
  (∀ byte ∈ rest.take groups, ¬ byte < 0x80) ∧
    (rest.length < groups ∧ error = .outOfBounds ∨
      groups ≤ rest.length ∧ error = .malformed (.sevenBitOverflow maxGroups))

private theorem toNat_lead {byte : UInt8} (final : byte < 0x80) : byte.toNat % 0x80 = byte.toNat :=
  Nat.mod_eq_of_lt (UInt8.lt_iff_toNat_lt.mp final)

private theorem toNat_continued {byte : UInt8} (continued : ¬ byte < 0x80) :
    byte.toNat - 0x80 = byte.toNat % 0x80 := by
  have large : 0x80 ≤ byte.toNat := UInt8.le_iff_toNat_le.mp (UInt8.not_lt.mp continued)
  have small := byte.toNat_lt
  omega

/-- The number of a group and of those behind it, in 32 bits. -/
private theorem ofNat_groupsNumber_cons {byte : UInt8} (continued : ¬ byte < 0x80)
    (others : Bytes) :
    UInt32.ofNat (byte.toNat - 0x80) + 0x80 * UInt32.ofNat (groupsNumber others) =
      UInt32.ofNat (groupsNumber (byte :: others)) := by
  rw [groupsNumber, UInt32.ofNat_add, UInt32.ofNat_mul, toNat_continued continued]
  rfl

/-- Groups that fill all that a 32-bit number needs but four bits, and one more. -/
theorem groupsNumber_lt_iff {count : Nat} {groups : Bytes} (few : groups.length ≤ count + 1) :
    groupsNumber groups < 0x10 * Nat.pow 128 count ↔
      ∀ final, groups[count]? = some final → final.toNat % 0x80 < 0x10 := by
  induction count generalizing groups with
  | zero =>
      cases groups with
      | nil => simp [groupsNumber]
      | cons byte others =>
          have alone : others = [] := List.length_eq_zero_iff.mp (by simpa using few)
          subst alone
          simp [groupsNumber]
  | succ count ih =>
      have step : Nat.pow 128 (count + 1) = 128 * Nat.pow 128 count := Nat.mul_comm _ _
      cases groups with
      | nil =>
          have positive : 0 < 0x10 * Nat.pow 128 (count + 1) :=
            Nat.mul_pos (by decide) (Nat.pow_pos (by decide))
          exact ⟨fun _ final absent => (nomatch absent), fun _ => positive⟩
      | cons byte others =>
          have low : byte.toNat % 0x80 < 0x80 := Nat.mod_lt _ (by decide)
          rw [List.getElem?_cons_succ, ← ih (Nat.le_of_succ_le_succ few), groupsNumber, step]
          omega

/-! ## Reading -/

theorem accepts_readGroups (groups : Nat) :
    Accepts (readGroups groups) fun _ span value =>
      IsGroups span ∧ span.length ≤ groups ∧ value = UInt32.ofNat (groupsNumber span) := by
  induction groups with
  | zero =>
      refine (Accepts.throw _).congr fun _ span value => ⟨False.elim, ?_⟩
      rintro ⟨grouped, none, -⟩
      cases grouped <;> cases none
  | succ groups ih =>
      refine (Accepts.byte.bind fun byte => .ite
        (fun _ => .pure (UInt32.ofNat byte.toNat))
        fun _ => ih.bind fun high =>
          .pure (UInt32.ofNat (byte.toNat - 0x80) + 0x80 * high)).congr ?_
      intro _ span value
      constructor
      · rintro ⟨front, back, byte, rfl, rfl, formed⟩
        split at formed
        · next final =>
            obtain ⟨rfl, rfl⟩ := formed
            exact ⟨.last final, Nat.le_add_left 1 groups, by simp [groupsNumber, toNat_lead final]⟩
        · next continued =>
            obtain ⟨others, _, _, rfl, ⟨grouped, few, rfl⟩, rfl, rfl⟩ := formed
            rw [List.append_nil, List.singleton_append]
            exact ⟨.more continued grouped, Nat.succ_le_succ few,
              ofNat_groupsNumber_cons continued others⟩
      · rintro ⟨grouped, few, rfl⟩
        cases grouped with
        | @last byte final =>
            refine ⟨[byte], [], byte, rfl, rfl, ?_⟩
            rw [if_pos final]
            exact ⟨rfl, by simp [groupsNumber, toNat_lead final]⟩
        | @more byte others continued grouped =>
            refine ⟨[byte], others, byte, rfl, rfl, ?_⟩
            rw [if_neg continued]
            exact ⟨others, [], _, (List.append_nil others).symm,
              ⟨grouped, Nat.le_of_succ_le_succ few, rfl⟩, rfl,
              (ofNat_groupsNumber_cons continued others).symm⟩

/-- The induction is on the groups that may still follow. -/
theorem fails_readGroups (groups : Nat) : Fails (readGroups groups) (Endless groups) := by
  induction groups with
  | zero =>
      refine (Fails.throw _).congr fun rest error => ?_
      constructor
      · rintro rfl
        exact ⟨nofun, .inr ⟨Nat.zero_le _, rfl⟩⟩
      · rintro ⟨-, ⟨short, -⟩ | ⟨-, same⟩⟩
        · exact (Nat.not_lt_zero _ short).elim
        · exact same
  | succ groups ih =>
      refine (Fails.bind Accepts.byte (Fails.last (Fails.unsigned 1) _) fun byte => .ite
        (fun _ => .pure (UInt32.ofNat byte.toNat))
        fun _ => ih.last fun high => UInt32.ofNat (byte.toNat - 0x80) + 0x80 * high).congr ?_
      intro rest error
      cases rest with
      | nil =>
          constructor
          · rintro (⟨-, rfl⟩ | ⟨span, after, byte, split, rfl, -⟩)
            · exact ⟨nofun, .inl ⟨Nat.succ_pos groups, rfl⟩⟩
            · cases split
          · rintro ⟨-, ⟨-, rfl⟩ | ⟨enough, -⟩⟩
            · exact .inl ⟨Nat.one_pos, rfl⟩
            · exact (Nat.not_succ_le_zero groups enough).elim
      | cons byte others =>
          have first : (∀ later ∈ (byte :: others).take (groups + 1), ¬ later < 0x80) ↔
              ¬ byte < 0x80 ∧ ∀ later ∈ others.take groups, ¬ later < 0x80 := by
            rw [List.take_succ_cons, List.forall_mem_cons]
          rw [Endless, first, List.length_cons, Nat.succ_lt_succ_iff, Nat.succ_le_succ_iff]
          constructor
          · rintro (⟨short, -⟩ | ⟨span, after, byte', split, rfl, flawed⟩)
            · cases short with
              | step impossible => cases impossible
            · cases split
              split at flawed
              · exact flawed.elim
              · next continued => exact ⟨⟨continued, flawed.1⟩, flawed.2⟩
          · rintro ⟨⟨continued, endless⟩, same⟩
            refine .inr ⟨[byte], others, byte, rfl, rfl, ?_⟩
            rw [if_neg continued]
            exact ⟨endless, same⟩

theorem readSevenBit_beyond {data : Bytes} {position : Nat} (beyond : data.length < position) :
    readSevenBit ⟨data, position⟩ = .error .outOfBounds ⟨data, position⟩ := by
  have missing : data.slice? position 1 = none := if_neg (by omega)
  have taken : Reader.take 1 ⟨data, position⟩ = .error .outOfBounds ⟨data, position⟩ := by
    rw [Reader.take, missing]
  have failed : readGroups maxGroups ⟨data, position⟩ = .error .outOfBounds ⟨data, position⟩ :=
    EState.bind_of_error (EState.bind_of_error (EState.bind_of_error taken))
  rw [readSevenBit, Reader.atomically, failed]

/-- Reading takes the groups up to the last one. -/
theorem readSevenBit_eq_ok_iff {data : Bytes} {position : Nat} {value : UInt32} {moved : Cursor} :
    readSevenBit ⟨data, position⟩ = .ok value moved ↔
      ∃ groups after, data.drop position = groups ++ after ∧ IsGroups groups ∧
        groups.length ≤ maxGroups ∧ value = UInt32.ofNat (groupsNumber groups) ∧
        moved = ⟨data, position + groups.length⟩ := by
  by_cases inside : position ≤ data.length
  · rw [readSevenBit, (accepts_readGroups maxGroups).atomically.at_place inside]
    constructor
    · rintro ⟨groups, after, split, ⟨grouped, few, same⟩, end_⟩
      exact ⟨groups, after, split, grouped, few, same, end_⟩
    · rintro ⟨groups, after, split, grouped, few, same, end_⟩
      exact ⟨groups, after, split, ⟨grouped, few, same⟩, end_⟩
  · have beyond : data.length < position := Nat.lt_of_not_le inside
    rw [readSevenBit_beyond beyond, List.drop_eq_nil_of_le (Nat.le_of_lt beyond)]
    constructor
    · intro same
      cases same
    · rintro ⟨groups, after, split, grouped, -⟩
      obtain ⟨rfl, -⟩ := List.append_eq_nil_iff.mp split.symm
      cases grouped

/-- Without a last group the position stays where it was. -/
theorem readSevenBit_eq_error_iff {data : Bytes} {position : Nat} {error : Error}
    {moved : Cursor} :
    readSevenBit ⟨data, position⟩ = .error error moved ↔
      Endless maxGroups (data.drop position) error ∧ moved = ⟨data, position⟩ := by
  by_cases inside : position ≤ data.length
  · have front : (data.take position).length = position := List.length_take_of_le inside
    have failing := fails_readGroups maxGroups (data.take position) (data.drop position) error
    rw [List.take_append_drop, front] at failing
    rw [readSevenBit, Reader.atomically_eq_error_iff, failing]
  · have beyond : data.length < position := Nat.lt_of_not_le inside
    rw [readSevenBit_beyond beyond, List.drop_eq_nil_of_le (Nat.le_of_lt beyond)]
    constructor
    · intro same
      cases same
      exact ⟨⟨nofun, .inl ⟨by decide, rfl⟩⟩, rfl⟩
    · rintro ⟨⟨-, ⟨-, rfl⟩ | ⟨enough, -⟩⟩, rfl⟩
      · rfl
      · exact (Nat.not_succ_le_zero 4 enough).elim

/-! ## Groups that are cut short -/

theorem IsGroups.continued {groups : Bytes} (grouped : IsGroups groups) {count : Nat}
    (short : count < groups.length) : ∀ byte ∈ groups.take count, ¬ byte < 0x80 := by
  induction grouped generalizing count with
  | last final =>
      have none : count = 0 := Nat.lt_one_iff.mp short
      subst none
      exact nofun
  | more continued grouped ih =>
      cases count with
      | zero => exact nofun
      | succ count =>
          rw [List.take_succ_cons, List.forall_mem_cons]
          exact ⟨continued, ih (Nat.lt_of_succ_lt_succ short)⟩

theorem runsOut_readSevenBit {groups : Bytes} (grouped : IsGroups groups)
    (few : groups.length ≤ maxGroups) : RunsOut readSevenBit groups := by
  refine ((fails_readGroups maxGroups).runsOut fun count short => ?_).atomically
  have beginning : (groups.take count).length = count :=
    List.length_take_of_le (Nat.le_of_lt short)
  refine ⟨fun byte member => ?_, .inl ⟨by omega, rfl⟩⟩
  exact grouped.continued short byte (List.mem_of_mem_take member)

/-- What the encoder writes are groups, few enough to be read. -/
theorem isGroups_sevenBit (value : UInt32) :
    IsGroups (sevenBit value) ∧ (sevenBit value).length ≤ maxGroups := by
  -- They are read back without a rest, and all that is ever read are groups.
  have read := reads_sevenBit value [] []
  obtain ⟨groups, after, split, grouped, few, -, end_⟩ := readSevenBit_eq_ok_iff.mp read
  have length : (sevenBit value).length = groups.length := by
    simpa using congrArg Cursor.position end_
  have whole : sevenBit value ++ [] = groups ++ after := split
  rw [(List.append_inj whole length).1]
  exact ⟨grouped, few⟩

/-! ## Lost bits -/

/-- A 32-bit value is the number of its groups exactly if a fifth group keeps to its four bits. -/
theorem toNat_groupsNumber_iff {groups : Bytes} (few : groups.length ≤ maxGroups) :
    (UInt32.ofNat (groupsNumber groups)).toNat = groupsNumber groups ↔
      ∀ fifth, groups[4]? = some fifth → fifth.toNat % 0x80 < 0x10 := by
  rw [← groupsNumber_lt_iff few, UInt32.toNat_ofNat']
  exact ⟨fun same => same ▸ Nat.mod_lt _ (by decide), Nat.mod_eq_of_lt⟩

/-- A success takes the groups up to the last one, five at most. Its value is their number, except
exactly if a fifth group has bits above its lowest four: they are lost. A failure says that the
data end or that a fifth group is not the last, and does not move. -/
theorem readSevenBit_exact (data : Bytes) (position : Nat) :
    (∀ value moved, readSevenBit ⟨data, position⟩ = .ok value moved ↔
      ∃ groups after, data.drop position = groups ++ after ∧ IsGroups groups ∧
        groups.length ≤ maxGroups ∧ moved = ⟨data, position + groups.length⟩ ∧
        value.toNat = groupsNumber groups % UInt32.size ∧
        (value.toNat = groupsNumber groups ↔
          ∀ fifth, groups[4]? = some fifth → fifth.toNat % 0x80 < 0x10)) ∧
    ∀ error moved, readSevenBit ⟨data, position⟩ = .error error moved ↔
      Endless maxGroups (data.drop position) error ∧ moved = ⟨data, position⟩ := by
  refine ⟨fun value moved => ?_, fun error moved => readSevenBit_eq_error_iff⟩
  rw [readSevenBit_eq_ok_iff]
  constructor
  · rintro ⟨groups, after, split, grouped, few, rfl, rfl⟩
    exact ⟨groups, after, split, grouped, few, rfl, UInt32.toNat_ofNat', toNat_groupsNumber_iff few⟩
  · rintro ⟨groups, after, split, grouped, few, rfl, same, -⟩
    refine ⟨groups, after, split, grouped, few, UInt32.toNat_inj.mp ?_, rfl⟩
    rw [same, UInt32.toNat_ofNat']

/-- Five groups of a number that is one too large for 32 bits. -/
theorem readSevenBit_lost :
    IsGroups [0x80, 0x80, 0x80, 0x80, 0x10] ∧
      groupsNumber [0x80, 0x80, 0x80, 0x80, 0x10] = UInt32.size ∧
      readSevenBit ⟨[0x80, 0x80, 0x80, 0x80, 0x10], 0⟩ =
        .ok 0 ⟨[0x80, 0x80, 0x80, 0x80, 0x10], 5⟩ := by
  have grouped : IsGroups [0x80, 0x80, 0x80, 0x80, 0x10] := by
    iterate 4 refine .more (by decide) ?_
    exact .last (by decide)
  exact ⟨grouped, rfl, rfl⟩

end CilRecovery.Varint
