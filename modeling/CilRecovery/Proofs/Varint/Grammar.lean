import CilRecovery.Proofs.Varint.SevenBit

/-!
# The bytes of variable-length encodings

Compressed integers, seven-bit integers and strings as sets of byte strings, stated by bits and
lengths and without a reader. Reading accepts exactly these, also where a shorter form of the same
value exists.
-/

set_option autoImplicit false

namespace CilRecovery.Varint

open Reader (Accepts)

/-! ## Definitions -/

/-- The bytes of a compressed integer, the most significant first. The lead bits `0`, `10` and `110`
announce one, two and four bytes. -/
inductive IsCompressed : Bytes → UInt32 → Prop
  | one {lead : UInt8} (marked : lead.toNat / 0x80 = 0) :
      IsCompressed [lead] (UInt32.ofNat lead.toNat)
  | two {lead low : UInt8} (marked : lead.toNat / 0x40 = 2) :
      IsCompressed [lead, low] (UInt32.ofNat (lead.toNat % 0x40 * 0x100 + low.toNat))
  | four {lead high middle low : UInt8} (marked : lead.toNat / 0x20 = 6) :
      IsCompressed [lead, high, middle, low]
        (UInt32.ofNat
          (((lead.toNat % 0x20 * 0x100 + high.toNat) * 0x100 + middle.toNat) * 0x100 + low.toNat))

/-- The groups of a seven-bit integer and its value, of which 32 bits are kept. -/
structure IsSevenBit (groups : Bytes) (value : UInt32) : Prop where
  grouped : IsGroups groups
  few : groups.length ≤ maxGroups
  value_eq : value = UInt32.ofNat (groupsNumber groups)

/-- Bytes with a seven-bit integer in front of them that tells how many they are. -/
inductive IsPrefixed : Bytes → Bytes → Prop
  | counted {groups bytes : Bytes} {length : UInt32} (lead : IsSevenBit groups length)
      (counts : bytes.length = length.toNat) : IsPrefixed (groups ++ bytes) bytes

/-! ## Compressed integers -/

section

variable {lead : UInt8}

private theorem lt_0x80_iff_marked : lead < 0x80 ↔ lead.toNat / 0x80 = 0 := by
  simp only [UInt8.lt_iff_toNat_lt, UInt8.reduceToNat]
  omega

private theorem lt_0xC0_iff_marked (several : ¬ lead < 0x80) :
    lead < 0xC0 ↔ lead.toNat / 0x40 = 2 := by
  simp only [UInt8.lt_iff_toNat_lt, UInt8.reduceToNat] at several ⊢
  omega

private theorem lt_0xE0_iff_marked (several : ¬ lead < 0xC0) :
    lead < 0xE0 ↔ lead.toNat / 0x20 = 6 := by
  simp only [UInt8.lt_iff_toNat_lt, UInt8.reduceToNat] at several ⊢
  omega

/-- The reader takes the mark off the lead byte by subtraction. -/
private theorem unmarked_two (marked : lead.toNat / 0x40 = 2) :
    lead.toNat - 0x80 = lead.toNat % 0x40 := by
  omega

private theorem unmarked_four (marked : lead.toNat / 0x20 = 6) :
    lead.toNat - 0xC0 = lead.toNat % 0x20 := by
  omega

end

theorem accepts_readCompressed :
    Accepts readCompressed fun _ span value => IsCompressed span value := by
  refine (Accepts.atomically <| Accepts.byte.bind fun lead => .ite
    (fun _ => .pure (UInt32.ofNat lead.toNat)) fun _ => .ite
    (fun _ => Accepts.byte.bind fun low =>
      .pure (UInt32.ofNat ((lead.toNat - 0x80) * 0x100 + low.toNat))) fun _ => .ite
    (fun _ => Accepts.byte.bind fun high => Accepts.byte.bind fun middle =>
      Accepts.byte.bind fun low => .pure (UInt32.ofNat
        ((((lead.toNat - 0xC0) * 0x100 + high.toNat) * 0x100 + middle.toNat) * 0x100 + low.toNat)))
    fun _ => .throw _).congr ?_
  intro _ span value
  constructor
  · intro ⟨_, _, lead, joined, lone, formed⟩
    subst joined lone
    split at formed
    · next one =>
        obtain ⟨rfl, rfl⟩ := formed
        exact .one (lt_0x80_iff_marked.mp one)
    · next several =>
        split at formed
        · next two =>
            obtain ⟨_, _, low, rfl, rfl, rfl, rfl⟩ := formed
            have marked := (lt_0xC0_iff_marked several).mp two
            rw [unmarked_two marked]
            exact .two marked
        · next many =>
            split at formed
            · next four =>
                obtain ⟨_, _, high, rfl, rfl, _, _, middle, rfl, rfl, _, _, low, rfl, rfl, rfl,
                  rfl⟩ := formed
                have marked := (lt_0xE0_iff_marked many).mp four
                rw [unmarked_four marked]
                exact .four marked
            · exact formed.elim
  · intro compressed
    cases compressed with
    | @one lead marked =>
        refine ⟨[lead], [], lead, rfl, rfl, ?_⟩
        rw [if_pos (lt_0x80_iff_marked.mpr marked)]
        exact ⟨rfl, rfl⟩
    | @two lead low marked =>
        have several : ¬ lead < 0x80 := mt lt_0x80_iff_marked.mp (by omega)
        refine ⟨[lead], [low], lead, rfl, rfl, ?_⟩
        rw [if_neg several, if_pos ((lt_0xC0_iff_marked several).mpr marked), unmarked_two marked]
        exact ⟨[low], [], low, rfl, rfl, rfl, rfl⟩
    | @four lead high middle low marked =>
        have several : ¬ lead < 0x80 := mt lt_0x80_iff_marked.mp (by omega)
        have many : ¬ lead < 0xC0 := mt (lt_0xC0_iff_marked several).mp (by omega)
        refine ⟨[lead], [high, middle, low], lead, rfl, rfl, ?_⟩
        rw [if_neg several, if_neg many, if_pos ((lt_0xE0_iff_marked many).mpr marked),
          unmarked_four marked]
        exact ⟨[high], [middle, low], high, rfl, rfl, [middle], [low], middle, rfl, rfl,
          [low], [], low, rfl, rfl, rfl, rfl⟩

/-! ## Seven-bit integers and strings -/

/-- One to five groups. Longer forms of a value than its shortest are accepted. -/
theorem accepts_readSevenBit :
    Accepts readSevenBit fun _ span value => IsSevenBit span value := by
  refine (accepts_readGroups maxGroups).atomically.congr ?_
  intro _ span value
  constructor
  · intro ⟨grouped, few, same⟩
    exact ⟨grouped, few, same⟩
  · intro ⟨grouped, few, same⟩
    exact ⟨grouped, few, same⟩

theorem accepts_readPrefixedBytes :
    Accepts readPrefixedBytes fun _ span bytes => IsPrefixed span bytes := by
  refine (Accepts.atomically <| accepts_readSevenBit.bind fun length =>
    .take length.toNat).congr ?_
  intro _ span bytes
  constructor
  · intro ⟨groups, _, length, joined, lead, counts, same⟩
    subst joined same
    exact .counted lead counts
  · intro counted
    cases counted with
    | @counted groups _ length lead counts =>
        exact ⟨groups, bytes, length, rfl, lead, counts, rfl⟩

theorem accepts_readPrefixedText :
    Accepts readPrefixedText fun _ span text =>
      ∃ bytes, IsPrefixed span bytes ∧ Utf8.decode bytes = .ok text := by
  refine (Accepts.atomically <| Accepts.position.bind fun start =>
    accepts_readPrefixedBytes.bind fun bytes =>
      (?decoded : Accepts _ fun _ span text => span = [] ∧ Utf8.decode bytes = .ok text)).congr ?_
  case decoded =>
    cases Utf8.decode bytes with
    | ok text => exact (Accepts.pure text).congr (by simp [eq_comm])
    | error fault => exact (Accepts.throw _).congr (by simp)
  intro _ span text
  constructor
  · intro ⟨_, _, _, joined, ⟨empty, _⟩, _, _, bytes, joined', counted, empty', same⟩
    subst joined empty joined' empty'
    rw [List.nil_append, List.append_nil]
    exact ⟨bytes, counted, same⟩
  · intro ⟨bytes, counted, same⟩
    exact ⟨[], span, _, rfl, ⟨rfl, rfl⟩, span, [], bytes, (List.append_nil span).symm, counted,
      rfl, same⟩

end CilRecovery.Varint
