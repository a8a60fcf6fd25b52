import CilRecovery.Cipher.Block

/-!
# DES and triple DES

The cipher of 8-byte blocks with keys of 8 bytes, of which the lowest bit of each byte is not
used, and its threefold use with a key of 24 bytes. Blocks are lists of bits, the most significant
bit of each byte first; the rounds are a network in which a half is combined with a function of
the other half, so they invert whatever that function is.
-/

set_option autoImplicit false

namespace CilRecovery.Des

/-- Bits, the first of them the most significant. -/
abbrev Bits := List Bool

/-! ## Bits and bytes -/

def bitsOf : (count : Nat) → (value : Nat) → Bits
  | 0, _ => []
  | count + 1, value => value.testBit count :: bitsOf count value

def numberOf (bits : Bits) : Nat := bits.foldl (fun value bit => 2 * value + bit.toNat) 0

def bitsOfBytes (bytes : Bytes) : Bits := bytes.flatMap fun byte => bitsOf 8 byte.toNat

def bytesOfBits : Bits → Bytes
  | b7 :: b6 :: b5 :: b4 :: b3 :: b2 :: b1 :: b0 :: rest =>
      UInt8.ofNat (numberOf [b7, b6, b5, b4, b3, b2, b1, b0]) :: bytesOfBits rest
  | _ => []

def add (left right : Bits) : Bits := List.zipWith (· ^^ ·) left right

/-- The bits at the given one-based places. -/
def select (places : List Nat) (bits : Bits) : Bits :=
  places.map fun place => bits.getD (place - 1) false

/-! ## Tables -/

def initialOrder : List Nat := [
  58, 50, 42, 34, 26, 18, 10, 2, 60, 52, 44, 36, 28, 20, 12, 4,
  62, 54, 46, 38, 30, 22, 14, 6, 64, 56, 48, 40, 32, 24, 16, 8,
  57, 49, 41, 33, 25, 17, 9, 1, 59, 51, 43, 35, 27, 19, 11, 3,
  61, 53, 45, 37, 29, 21, 13, 5, 63, 55, 47, 39, 31, 23, 15, 7]

/-- Order of the bits after the last round, the inverse of `initialOrder`. -/
def finalOrder : List Nat := [
  40, 8, 48, 16, 56, 24, 64, 32, 39, 7, 47, 15, 55, 23, 63, 31,
  38, 6, 46, 14, 54, 22, 62, 30, 37, 5, 45, 13, 53, 21, 61, 29,
  36, 4, 44, 12, 52, 20, 60, 28, 35, 3, 43, 11, 51, 19, 59, 27,
  34, 2, 42, 10, 50, 18, 58, 26, 33, 1, 41, 9, 49, 17, 57, 25]

def expansion : List Nat := [
  32, 1, 2, 3, 4, 5, 4, 5, 6, 7, 8, 9, 8, 9, 10, 11, 12, 13, 12, 13, 14, 15, 16, 17,
  16, 17, 18, 19, 20, 21, 20, 21, 22, 23, 24, 25, 24, 25, 26, 27, 28, 29, 28, 29, 30, 31, 32, 1]

def diffusion : List Nat := [
  16, 7, 20, 21, 29, 12, 28, 17, 1, 15, 23, 26, 5, 18, 31, 10,
  2, 8, 24, 14, 32, 27, 3, 9, 19, 13, 30, 6, 22, 11, 4, 25]

def keyOrder : List Nat := [
  57, 49, 41, 33, 25, 17, 9, 1, 58, 50, 42, 34, 26, 18, 10, 2, 59, 51, 43, 35, 27, 19, 11, 3,
  60, 52, 44, 36, 63, 55, 47, 39, 31, 23, 15, 7, 62, 54, 46, 38, 30, 22, 14, 6, 61, 53, 45, 37,
  29, 21, 13, 5, 28, 20, 12, 4]

def roundKeyOrder : List Nat := [
  14, 17, 11, 24, 1, 5, 3, 28, 15, 6, 21, 10, 23, 19, 12, 4, 26, 8, 16, 7, 27, 20, 13, 2,
  41, 52, 31, 37, 47, 55, 30, 40, 51, 45, 33, 48, 44, 49, 39, 56, 34, 53, 46, 42, 50, 36, 29, 32]

def turns : List Nat := [1, 1, 2, 2, 2, 2, 2, 2, 1, 2, 2, 2, 2, 2, 2, 1]

/-- The eight substitutions, row by row. -/
def boxes : List (Array Nat) := [
  #[14, 4, 13, 1, 2, 15, 11, 8, 3, 10, 6, 12, 5, 9, 0, 7,
    0, 15, 7, 4, 14, 2, 13, 1, 10, 6, 12, 11, 9, 5, 3, 8,
    4, 1, 14, 8, 13, 6, 2, 11, 15, 12, 9, 7, 3, 10, 5, 0,
    15, 12, 8, 2, 4, 9, 1, 7, 5, 11, 3, 14, 10, 0, 6, 13],
  #[15, 1, 8, 14, 6, 11, 3, 4, 9, 7, 2, 13, 12, 0, 5, 10,
    3, 13, 4, 7, 15, 2, 8, 14, 12, 0, 1, 10, 6, 9, 11, 5,
    0, 14, 7, 11, 10, 4, 13, 1, 5, 8, 12, 6, 9, 3, 2, 15,
    13, 8, 10, 1, 3, 15, 4, 2, 11, 6, 7, 12, 0, 5, 14, 9],
  #[10, 0, 9, 14, 6, 3, 15, 5, 1, 13, 12, 7, 11, 4, 2, 8,
    13, 7, 0, 9, 3, 4, 6, 10, 2, 8, 5, 14, 12, 11, 15, 1,
    13, 6, 4, 9, 8, 15, 3, 0, 11, 1, 2, 12, 5, 10, 14, 7,
    1, 10, 13, 0, 6, 9, 8, 7, 4, 15, 14, 3, 11, 5, 2, 12],
  #[7, 13, 14, 3, 0, 6, 9, 10, 1, 2, 8, 5, 11, 12, 4, 15,
    13, 8, 11, 5, 6, 15, 0, 3, 4, 7, 2, 12, 1, 10, 14, 9,
    10, 6, 9, 0, 12, 11, 7, 13, 15, 1, 3, 14, 5, 2, 8, 4,
    3, 15, 0, 6, 10, 1, 13, 8, 9, 4, 5, 11, 12, 7, 2, 14],
  #[2, 12, 4, 1, 7, 10, 11, 6, 8, 5, 3, 15, 13, 0, 14, 9,
    14, 11, 2, 12, 4, 7, 13, 1, 5, 0, 15, 10, 3, 9, 8, 6,
    4, 2, 1, 11, 10, 13, 7, 8, 15, 9, 12, 5, 6, 3, 0, 14,
    11, 8, 12, 7, 1, 14, 2, 13, 6, 15, 0, 9, 10, 4, 5, 3],
  #[12, 1, 10, 15, 9, 2, 6, 8, 0, 13, 3, 4, 14, 7, 5, 11,
    10, 15, 4, 2, 7, 12, 9, 5, 6, 1, 13, 14, 0, 11, 3, 8,
    9, 14, 15, 5, 2, 8, 12, 3, 7, 0, 4, 10, 1, 13, 11, 6,
    4, 3, 2, 12, 9, 5, 15, 10, 11, 14, 1, 7, 6, 0, 8, 13],
  #[4, 11, 2, 14, 15, 0, 8, 13, 3, 12, 9, 7, 5, 10, 6, 1,
    13, 0, 11, 7, 4, 9, 1, 10, 14, 3, 5, 12, 2, 15, 8, 6,
    1, 4, 11, 13, 12, 3, 7, 14, 10, 15, 6, 8, 0, 5, 9, 2,
    6, 11, 13, 8, 1, 4, 10, 7, 9, 5, 0, 15, 14, 2, 3, 12],
  #[13, 2, 8, 4, 6, 15, 11, 1, 10, 9, 3, 14, 5, 0, 12, 7,
    1, 15, 13, 8, 10, 3, 7, 4, 12, 5, 6, 11, 0, 14, 9, 2,
    7, 11, 4, 1, 9, 12, 14, 2, 0, 6, 10, 13, 15, 3, 5, 8,
    2, 1, 14, 7, 4, 10, 8, 13, 15, 12, 9, 0, 3, 5, 6, 11]]

/-! ## Key schedule -/

/-- The round keys that the two halves of a key give while they turn. -/
def turnKeys (left right : Bits) : List Nat → List Bits
  | [] => []
  | amount :: rest =>
      let left := left.rotateLeft amount
      let right := right.rotateLeft amount
      select roundKeyOrder (left ++ right) :: turnKeys left right rest

def schedule (key : Bytes) : List Bits :=
  let used := select keyOrder (bitsOfBytes key)
  turnKeys (used.take 28) (used.drop 28) turns

/-! ## Rounds -/

/-- Six bits at a time through one substitution after the other. The outer bits select a row. -/
def substitute : List (Array Nat) → Bits → Bits
  | box :: boxes, b5 :: b4 :: b3 :: b2 :: b1 :: b0 :: rest =>
      bitsOf 4 (box.getD (16 * numberOf [b5, b0] + numberOf [b4, b3, b2, b1]) 0) ++
        substitute boxes rest
  | _, _ => []

/-- What a round combines one half with, as a function of the other half. -/
def mixing (key half : Bits) : Bits :=
  select diffusion (substitute boxes (add (select expansion half) key))

def rounds : List Bits → Bits × Bits → Bits × Bits
  | [], halves => halves
  | key :: rest, (left, right) => rounds rest (right, add left (mixing key right))

/-- The whole cipher with the round keys in the order of their use. -/
def crypt (keys : List Bits) (block : Bytes) : Bytes :=
  let ordered := select initialOrder (bitsOfBytes block)
  let (left, right) := rounds keys (ordered.take 32, ordered.drop 32)
  bytesOfBits (select finalOrder (right ++ left))

/-- The cipher with a key of 8 bytes. Decryption uses the round keys backwards. -/
def cipher (key : Bytes) : BlockCipher :=
  let keys := schedule key
  let backwards := keys.reverse
  { blockSize := 8, encrypt := crypt keys, decrypt := crypt backwards }

/-- The cipher with three keys of 8 bytes: encrypt, decrypt, encrypt. -/
def tripleCipher (key : Bytes) : BlockCipher :=
  let first := cipher (key.take 8)
  let second := cipher ((key.drop 8).take 8)
  let third := cipher (key.drop 16)
  { blockSize := 8
    encrypt := fun block => third.encrypt (second.decrypt (first.encrypt block))
    decrypt := fun block => first.decrypt (second.encrypt (third.decrypt block)) }

end CilRecovery.Des
