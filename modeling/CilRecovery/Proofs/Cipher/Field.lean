import CilRecovery.Cipher.Aes

/-!
# The field of bytes

The product of bytes is bilinear, so its laws are checked on the eight bytes with one bit. The
nonzero bytes are the powers of one of them, which makes the 254th power an inverse.
-/

set_option autoImplicit false

namespace CilRecovery.Aes

/-! ## Additive maps -/

def units : List UInt8 := [1, 2, 4, 8, 16, 32, 64, 128]

private theorem sum_units : ∀ byte : UInt8,
    (units.filter fun unit => byte &&& unit != 0).foldr (· ^^^ ·) 0 = byte := by
  decide

def Additive (change : UInt8 → UInt8) : Prop :=
  ∀ left right : UInt8, change (left ^^^ right) = change left ^^^ change right

namespace Additive

variable {change other : UInt8 → UInt8}

theorem zero (additive : Additive change) : change 0 = 0 := by
  have same := additive 0 0
  rwa [UInt8.xor_self, UInt8.xor_self] at same

theorem const_zero : Additive fun _ => 0 :=
  fun _ _ => UInt8.xor_self.symm

theorem comp (outer : Additive change) (inner : Additive other) :
    Additive fun byte => change (other byte) := by
  intro left right
  change change (other (left ^^^ right)) = _
  rw [inner, outer]

theorem sum (first : Additive change) (second : Additive other) :
    Additive fun byte => change byte ^^^ other byte := by
  intro left right
  simp only [first left right, second left right]
  ac_rfl

theorem select (place : Nat) (value : UInt8) :
    Additive fun byte => if byte.toNat.testBit place then value else 0 := by
  intro left right
  simp only [UInt8.toNat_xor, Nat.testBit_xor]
  cases left.toNat.testBit place <;> cases right.toNat.testBit place <;> simp

/-- Additive maps are determined by the bytes with one bit. -/
theorem eq_of_units (first : Additive change) (second : Additive other)
    (agree : ∀ unit ∈ units, change unit = other unit) (byte : UInt8) :
    change byte = other byte := by
  have sums : ∀ chosen : List UInt8, (∀ unit ∈ chosen, unit ∈ units) →
      change (chosen.foldr (· ^^^ ·) 0) = other (chosen.foldr (· ^^^ ·) 0) := by
    intro chosen within
    induction chosen with
    | nil => rw [List.foldr_nil, first.zero, second.zero]
    | cons unit chosen ih =>
        rw [List.foldr_cons, first, second, agree unit (within unit List.mem_cons_self),
          ih fun later member => within later (List.mem_cons_of_mem _ member)]
  rw [← sum_units byte]
  exact sums _ fun unit member => (List.mem_filter.mp member).1

end Additive

/-! ## Products -/

theorem double_additive : Additive double := by
  have selected : ∀ byte : UInt8,
      double byte = (byte <<< 1) ^^^ if byte.toNat.testBit 7 then 0x1B else 0 := by
    decide
  rw [funext selected]
  exact Additive.sum (fun _ _ => UInt8.shiftLeft_xor) (.select 7 0x1B)

theorem multiplyBits_additive_left (bits : Nat) (right : UInt8) :
    Additive fun left => multiplyBits bits left right := by
  induction bits generalizing right with
  | zero => exact .const_zero
  | succ bits ih =>
      refine Additive.sum ?_ ((ih (right / 2)).comp double_additive)
      by_cases odd : right % 2 == 1
      · simp only [if_pos odd]
        exact fun _ _ => rfl
      · simp only [if_neg odd]
        exact .const_zero

theorem multiplyBits_additive_right (bits : Nat) (left : UInt8) :
    Additive fun right => multiplyBits bits left right := by
  have odd : ∀ right : UInt8, (right % 2 == 1) = right.toNat.testBit 0 := by
    decide
  have half : Additive (· / 2) := by
    intro right right'
    apply UInt8.toNat_inj.mp
    simp only [UInt8.toNat_div, UInt8.toNat_xor]
    exact Nat.xor_div_two
  induction bits generalizing left with
  | zero => exact .const_zero
  | succ bits ih =>
      simp only [multiplyBits, odd]
      exact (Additive.select 0 left).sum ((ih (double left)).comp half)

theorem multiply_additive_left (right : UInt8) : Additive fun left => multiply left right :=
  multiplyBits_additive_left 8 right

theorem multiply_additive_right (left : UInt8) : Additive fun right => multiply left right :=
  multiplyBits_additive_right 8 left

theorem xor_multiply (left left' right : UInt8) :
    multiply (left ^^^ left') right = multiply left right ^^^ multiply left' right :=
  multiply_additive_left right left left'

theorem multiply_xor (left right right' : UInt8) :
    multiply left (right ^^^ right') = multiply left right ^^^ multiply left right' :=
  multiply_additive_right left right right'

@[simp] theorem zero_multiply (byte : UInt8) : multiply 0 byte = 0 :=
  (multiply_additive_left byte).zero

@[simp] theorem multiply_zero (byte : UInt8) : multiply byte 0 = 0 :=
  (multiply_additive_right byte).zero

@[simp] theorem multiply_one (byte : UInt8) : multiply byte 1 = byte :=
  Additive.eq_of_units (multiply_additive_left 1) (fun _ _ => rfl : Additive id)
    (by decide) byte

theorem multiply_double (left right : UInt8) :
    multiply left (double right) = double (multiply left right) := by
  have agree : ∀ left ∈ units, ∀ right ∈ units,
      multiply left (double right) = double (multiply left right) := by
    decide +kernel
  refine Additive.eq_of_units (multiply_additive_left (double right))
    (double_additive.comp (multiply_additive_left right)) (fun left within => ?_) left
  exact Additive.eq_of_units ((multiply_additive_right left).comp double_additive)
    (double_additive.comp (multiply_additive_right left)) (agree left within) right

/-! ## Powers -/

/-- The product with the byte 3, whose powers are all nonzero bytes. -/
def triple (byte : UInt8) : UInt8 := double byte ^^^ byte

/-- The powers of the byte 3. -/
def power : (exponent : Nat) → UInt8
  | 0 => 1
  | exponent + 1 => triple (power exponent)

theorem multiply_power (left right : Nat) :
    multiply (power left) (power right) = power (left + right) := by
  induction right with
  | zero => exact multiply_one _
  | succ right ih =>
      have step : power (left + (right + 1)) = triple (power (left + right)) := rfl
      rw [step, triple, ← ih, ← multiply_double, ← multiply_xor]
      rfl

theorem inverse_power (exponent : Nat) : inverse (power exponent) = power (254 * exponent) := by
  simp only [inverse, multiply_power]
  congr 1
  omega

private theorem power_multiple (count : Nat) : power (255 * count) = 1 := by
  have turn : power 255 = 1 := by
    have first : inverse (power 1) = power 254 := inverse_power 1
    have unit : multiply (inverse (power 1)) (power 1) = 1 := by decide
    rwa [first, multiply_power] at unit
  induction count with
  | zero => rfl
  | succ count ih => rw [Nat.mul_succ, ← multiply_power, ih, turn, multiply_one]

theorem power_add_multiple (exponent count : Nat) :
    power (exponent + 255 * count) = power exponent := by
  rw [← multiply_power, power_multiple, multiply_one]

private def powersFrom (byte : UInt8) : (count : Nat) → List UInt8
  | 0 => []
  | count + 1 => byte :: powersFrom (triple byte) count

private theorem powersFrom_power {exponent count : Nat} {byte : UInt8}
    (member : byte ∈ powersFrom (power exponent) count) : ∃ other, byte = power other := by
  induction count generalizing exponent with
  | zero => cases member
  | succ count ih =>
      rcases List.mem_cons.mp member with first | later
      · exact ⟨exponent, first⟩
      · exact @ih (exponent + 1) later

/-- A number with one bit for each of the bytes, so that one comparison finds all of them. -/
private def marks : List UInt8 → Nat
  | [] => 0
  | byte :: rest => 1 <<< byte.toNat ||| marks rest

private theorem mem_of_marks {byte : UInt8} {bytes : List UInt8}
    (marked : (marks bytes).testBit byte.toNat) : byte ∈ bytes := by
  induction bytes with
  | nil => simp [marks] at marked
  | cons first rest ih =>
      rw [marks, Nat.testBit_or, Bool.or_eq_true] at marked
      rcases marked with here | later
      · rw [Nat.one_shiftLeft, Nat.testBit_two_pow, decide_eq_true_eq] at here
        exact UInt8.toNat_inj.mp here ▸ List.mem_cons_self
      · exact List.mem_cons_of_mem _ (ih later)

/-- Every nonzero byte is a power. -/
theorem exists_power {byte : UInt8} (nonzero : byte ≠ 0) : ∃ exponent, byte = power exponent := by
  have all : marks (powersFrom (power 0) 255) =
      0xFFFFFFFFFFFFFFFFFFFFFFFFFFFFFFFFFFFFFFFFFFFFFFFFFFFFFFFFFFFFFFFE := by
    decide +kernel
  have marked : ∀ byte : UInt8, byte ≠ 0 → Nat.testBit
      0xFFFFFFFFFFFFFFFFFFFFFFFFFFFFFFFFFFFFFFFFFFFFFFFFFFFFFFFFFFFFFFFE byte.toNat := by
    decide
  exact powersFrom_power (mem_of_marks (all ▸ marked byte nonzero))

/-- Nonzero bytes are powers of 3, and exponents add up in any order. -/
theorem multiply_assoc (first second third : UInt8) :
    multiply (multiply first second) third = multiply first (multiply second third) := by
  by_cases zero : first = 0
  · simp [zero]
  by_cases zero' : second = 0
  · simp [zero']
  by_cases zero'' : third = 0
  · simp [zero'']
  obtain ⟨exponent, rfl⟩ := exists_power zero
  obtain ⟨exponent', rfl⟩ := exists_power zero'
  obtain ⟨exponent'', rfl⟩ := exists_power zero''
  simp only [multiply_power, Nat.add_assoc]

/-! ## The substitution -/

@[simp] theorem inverse_inverse (byte : UInt8) : inverse (inverse byte) = byte := by
  by_cases zero : byte = 0
  · simp [zero, inverse]
  · obtain ⟨exponent, rfl⟩ := exists_power zero
    rw [inverse_power, inverse_power]
    have turns : 254 * (254 * exponent) = exponent + 255 * (253 * exponent) := by omega
    rw [turns, power_add_multiple]

@[simp] theorem unaffine_affine : ∀ byte : UInt8, unaffine (affine byte) = byte := by
  decide

@[simp] theorem affine_unaffine : ∀ byte : UInt8, affine (unaffine byte) = byte := by
  decide

private theorem getD_table (entry : UInt8 → UInt8) (byte : UInt8) :
    ((List.range 256).map fun value => entry (UInt8.ofNat value)).toArray.getD byte.toNat 0 =
      entry byte := by
  have small : byte.toNat < 256 := byte.toNat_lt
  simp [Array.getD, small]

theorem substitute_eq (byte : UInt8) : substitute byte = affine (inverse byte) :=
  getD_table (fun byte => affine (inverse byte)) byte

theorem unsubstitute_eq (byte : UInt8) : unsubstitute byte = inverse (unaffine byte) :=
  getD_table (fun byte => inverse (unaffine byte)) byte

/-- Substitution composes an inverse in the field with an affine map, both of which are undone. -/
@[simp] theorem unsubstitute_substitute (byte : UInt8) :
    unsubstitute (substitute byte) = byte := by
  rw [unsubstitute_eq, substitute_eq, unaffine_affine, inverse_inverse]

@[simp] theorem substitute_unsubstitute (byte : UInt8) :
    substitute (unsubstitute byte) = byte := by
  rw [substitute_eq, unsubstitute_eq, inverse_inverse, affine_unaffine]

end CilRecovery.Aes
