import CilRecovery.Cipher.Block

/-!
# AES

The cipher of 16-byte blocks with keys of 16, 24 or 32 bytes. The substitution is the inverse in
the field of 256 elements followed by an affine map, so its table is computed and not copied.
-/

set_option autoImplicit false

namespace CilRecovery.Aes

/-! ## Field arithmetic -/

def double (byte : UInt8) : UInt8 := (byte <<< 1) ^^^ (if byte < 0x80 then 0 else 0x1B)

def multiplyBits : (bits : Nat) → (left right : UInt8) → UInt8
  | 0, _, _ => 0
  | bits + 1, left, right =>
      (if right % 2 == 1 then left else 0) ^^^ multiplyBits bits (double left) (right / 2)

def multiply (left right : UInt8) : UInt8 := multiplyBits 8 left right

/-- The inverse in the field, zero for zero: the 254th power. -/
def inverse (byte : UInt8) : UInt8 :=
  let power2 := multiply byte byte
  let power3 := multiply power2 byte
  let power6 := multiply power3 power3
  let power12 := multiply power6 power6
  let power15 := multiply power12 power3
  let power30 := multiply power15 power15
  let power60 := multiply power30 power30
  let power120 := multiply power60 power60
  let power126 := multiply power120 power6
  let power127 := multiply power126 byte
  multiply power127 power127

def rotate (byte amount : UInt8) : UInt8 := (byte <<< amount) ||| (byte >>> (8 - amount))

def affine (byte : UInt8) : UInt8 :=
  byte ^^^ rotate byte 1 ^^^ rotate byte 2 ^^^ rotate byte 3 ^^^ rotate byte 4 ^^^ 0x63

def unaffine (byte : UInt8) : UInt8 :=
  rotate byte 1 ^^^ rotate byte 3 ^^^ rotate byte 6 ^^^ 0x05

def forwardBox : Array UInt8 :=
  ((List.range 256).map fun value => affine (inverse (UInt8.ofNat value))).toArray

def backwardBox : Array UInt8 :=
  ((List.range 256).map fun value => inverse (unaffine (UInt8.ofNat value))).toArray

def substitute (byte : UInt8) : UInt8 := forwardBox.getD byte.toNat 0

def unsubstitute (byte : UInt8) : UInt8 := backwardBox.getD byte.toNat 0

/-! ## Columns and states -/

/-- Four bytes of a state, or a word of the key schedule. -/
structure Column where
  first : UInt8
  second : UInt8
  third : UInt8
  fourth : UInt8
  deriving DecidableEq

namespace Column

def map (change : UInt8 → UInt8) (column : Column) : Column :=
  ⟨change column.first, change column.second, change column.third, change column.fourth⟩

def add (left right : Column) : Column :=
  ⟨left.first ^^^ right.first, left.second ^^^ right.second, left.third ^^^ right.third,
    left.fourth ^^^ right.fourth⟩

def turn (column : Column) : Column :=
  ⟨column.second, column.third, column.fourth, column.first⟩

/-- The product with the circulant matrix whose first row is given. -/
def circulant (first second third fourth : UInt8) (column : Column) : Column :=
  let row (a b c d : UInt8) : UInt8 :=
    multiply column.first a ^^^ multiply column.second b ^^^ multiply column.third c ^^^
      multiply column.fourth d
  ⟨row first second third fourth, row fourth first second third, row third fourth first second,
    row second third fourth first⟩

def mix : Column → Column := circulant 2 3 1 1

def unmix : Column → Column := circulant 14 11 13 9

def toBytes (column : Column) : Bytes :=
  [column.first, column.second, column.third, column.fourth]

end Column

structure State where
  first : Column
  second : Column
  third : Column
  fourth : Column
  deriving DecidableEq

namespace State

def map (change : Column → Column) (state : State) : State :=
  ⟨change state.first, change state.second, change state.third, change state.fourth⟩

def add (left right : State) : State :=
  ⟨left.first.add right.first, left.second.add right.second, left.third.add right.third,
    left.fourth.add right.fourth⟩

/-- Rotates row `r` by `r` columns to the left. -/
def shiftRows (state : State) : State :=
  ⟨⟨state.first.first, state.second.second, state.third.third, state.fourth.fourth⟩,
    ⟨state.second.first, state.third.second, state.fourth.third, state.first.fourth⟩,
    ⟨state.third.first, state.fourth.second, state.first.third, state.second.fourth⟩,
    ⟨state.fourth.first, state.first.second, state.second.third, state.third.fourth⟩⟩

def unshiftRows (state : State) : State :=
  ⟨⟨state.first.first, state.fourth.second, state.third.third, state.second.fourth⟩,
    ⟨state.second.first, state.first.second, state.fourth.third, state.third.fourth⟩,
    ⟨state.third.first, state.second.second, state.first.third, state.fourth.fourth⟩,
    ⟨state.fourth.first, state.third.second, state.second.third, state.first.fourth⟩⟩

def toBytes (state : State) : Bytes :=
  state.first.toBytes ++ state.second.toBytes ++ state.third.toBytes ++ state.fourth.toBytes

/-- The state of sixteen bytes. Any other number of bytes gives the zero state. -/
def ofBytes : Bytes → State
  | [b0, b1, b2, b3, b4, b5, b6, b7, b8, b9, b10, b11, b12, b13, b14, b15] =>
      ⟨⟨b0, b1, b2, b3⟩, ⟨b4, b5, b6, b7⟩, ⟨b8, b9, b10, b11⟩, ⟨b12, b13, b14, b15⟩⟩
  | _ => ⟨⟨0, 0, 0, 0⟩, ⟨0, 0, 0, 0⟩, ⟨0, 0, 0, 0⟩, ⟨0, 0, 0, 0⟩⟩

end State

/-! ## Key schedule -/

def keyWords : Bytes → List Column
  | first :: second :: third :: fourth :: rest => ⟨first, second, third, fourth⟩ :: keyWords rest
  | _ => []

def roundConstant : (index : Nat) → UInt8
  | 0 => 0x8D
  | index + 1 => double (roundConstant index)

/-- The next word after the given ones, which are in reverse order. -/
def nextWord (keyLength index : Nat) (reversed : List Column) : Column :=
  let zero : Column := ⟨0, 0, 0, 0⟩
  let last := reversed.headD zero
  let base := reversed.getD (keyLength - 1) zero
  if index % keyLength == 0 then
    base.add ((last.turn.map substitute).add ⟨roundConstant (index / keyLength), 0, 0, 0⟩)
  else if keyLength > 6 && index % keyLength == 4 then
    base.add (last.map substitute)
  else
    base.add last

def extend (keyLength : Nat) : (count : Nat) → (index : Nat) → (reversed : List Column) →
    List Column
  | 0, _, reversed => reversed
  | count + 1, index, reversed =>
      extend keyLength count (index + 1) (nextWord keyLength index reversed :: reversed)

def roundKeys : List Column → List State
  | first :: second :: third :: fourth :: rest => ⟨first, second, third, fourth⟩ :: roundKeys rest
  | _ => []

/-- The round keys of a key: seven more than it has words. -/
def schedule (key : Bytes) : List State :=
  let words := keyWords key
  let keyLength := words.length
  roundKeys (extend keyLength (4 * (keyLength + 7) - keyLength) keyLength words.reverse).reverse

/-! ## Rounds -/

/-- The rounds after the first key addition. The last one does not mix columns. -/
def encryptRounds : List State → State → State
  | [], state => state
  | [last], state => (state.map (Column.map substitute)).shiftRows.add last
  | key :: rest, state =>
      encryptRounds rest
        ((((state.map (Column.map substitute)).shiftRows).map Column.mix).add key)

def decryptRounds : List State → State → State
  | [], state => state
  | [last], state => ((state.add last).unshiftRows).map (Column.map unsubstitute)
  | key :: rest, state =>
      ((((decryptRounds rest state).add key).map Column.unmix).unshiftRows).map
        (Column.map unsubstitute)

def encryptState : List State → State → State
  | [], state => state
  | first :: rest, state => encryptRounds rest (state.add first)

def decryptState : List State → State → State
  | [], state => state
  | first :: rest, state => (decryptRounds rest state).add first

def cipher (key : Bytes) : BlockCipher :=
  let keys := schedule key
  { blockSize := 16
    encrypt := fun block => (encryptState keys (.ofBytes block)).toBytes
    decrypt := fun block => (decryptState keys (.ofBytes block)).toBytes }

end CilRecovery.Aes
