import CilRecovery.Bytes.LittleEndian
import CilRecovery.Text

/-!
# Digests

The digests that keys are derived with, over data padded to whole blocks.
-/

set_option autoImplicit false

namespace CilRecovery.Digest

/-!
## Messages in blocks

The digests share one shape. A message is closed with a one bit, filled up with zeros and ended
with its length in bits; the resulting blocks are folded into a state one after the other.
-/

inductive ByteOrder
  | littleEndian
  | bigEndian

def ByteOrder.encode (order : ByteOrder) (width value : Nat) : Bytes :=
  match order with
  | .littleEndian => LittleEndian.encode width value
  | .bigEndian => (LittleEndian.encode width value).reverse

def ByteOrder.decode (order : ByteOrder) (bytes : Bytes) : Nat :=
  match order with
  | .littleEndian => LittleEndian.decode bytes
  | .bigEndian => LittleEndian.decode bytes.reverse

/-- A message with its end mark, zeros and its length in bits in a field of `lengthWidth` bytes:
a whole number of blocks. -/
def close (order : ByteOrder) (blockSize lengthWidth : Nat) (message : Bytes) : Bytes :=
  message ++ [0x80] ++ Bytes.zeros (paddingTo blockSize (message.length + 1 + lengthWidth)) ++
    order.encode lengthWidth (8 * message.length)

def blocks (order : ByteOrder) (width blockSize lengthWidth : Nat) (message : Bytes) :
    List (List (BitVec (8 * width))) :=
  ((close order blockSize lengthWidth message).chunks blockSize).map fun block =>
    (block.chunks width).map fun word => BitVec.ofNat _ (order.decode word)

end CilRecovery.Digest

namespace CilRecovery.Digest.Md5

/-! ## MD5 -/

abbrev Word := BitVec 32

structure State where
  a : Word
  b : Word
  c : Word
  d : Word

def start : State := ⟨0x67452301, 0xEFCDAB89, 0x98BADCFE, 0x10325476⟩

def constants : Array Word := #[
  0xD76AA478, 0xE8C7B756, 0x242070DB, 0xC1BDCEEE, 0xF57C0FAF, 0x4787C62A,
  0xA8304613, 0xFD469501, 0x698098D8, 0x8B44F7AF, 0xFFFF5BB1, 0x895CD7BE,
  0x6B901122, 0xFD987193, 0xA679438E, 0x49B40821, 0xF61E2562, 0xC040B340,
  0x265E5A51, 0xE9B6C7AA, 0xD62F105D, 0x02441453, 0xD8A1E681, 0xE7D3FBC8,
  0x21E1CDE6, 0xC33707D6, 0xF4D50D87, 0x455A14ED, 0xA9E3E905, 0xFCEFA3F8,
  0x676F02D9, 0x8D2A4C8A, 0xFFFA3942, 0x8771F681, 0x6D9D6122, 0xFDE5380C,
  0xA4BEEA44, 0x4BDECFA9, 0xF6BB4B60, 0xBEBFBC70, 0x289B7EC6, 0xEAA127FA,
  0xD4EF3085, 0x04881D05, 0xD9D4D039, 0xE6DB99E5, 0x1FA27CF8, 0xC4AC5665,
  0xF4292244, 0x432AFF97, 0xAB9423A7, 0xFC93A039, 0x655B59C3, 0x8F0CCC92,
  0xFFEFF47D, 0x85845DD1, 0x6FA87E4F, 0xFE2CE6E0, 0xA3014314, 0x4E0811A1,
  0xF7537E82, 0xBD3AF235, 0x2AD7D2BB, 0xEB86D391]

def turns : List Nat := [7, 12, 17, 22, 5, 9, 14, 20, 4, 11, 16, 23, 6, 10, 15, 21]

def select (step : Nat) (b c d : Word) : Word × Nat :=
  if step < 16 then ((b &&& c) ||| (~~~b &&& d), step)
  else if step < 32 then ((d &&& b) ||| (~~~d &&& c), (5 * step + 1) % 16)
  else if step < 48 then (b ^^^ c ^^^ d, (3 * step + 5) % 16)
  else (c ^^^ (b ||| ~~~d), 7 * step % 16)

def advance (words : Array Word) (state : State) (step : Nat) : State :=
  let (mixed, index) := select step state.b state.c state.d
  let sum := state.a + mixed + constants.getD step 0 + words.getD index 0
  ⟨state.d, state.b + sum.rotateLeft (turns.getD (step / 16 * 4 + step % 4) 0), state.b, state.c⟩

def compress (state : State) (block : List Word) : State :=
  let final := (List.range 64).foldl (advance block.toArray) state
  ⟨state.a + final.a, state.b + final.b, state.c + final.c, state.d + final.d⟩

def digest (message : Bytes) : Bytes :=
  let state := (blocks .littleEndian 4 64 8 message).foldl compress start
  [state.a, state.b, state.c, state.d].flatMap fun word =>
    ByteOrder.littleEndian.encode 4 word.toNat

end CilRecovery.Digest.Md5

namespace CilRecovery.Digest.Sha1

/-! ## SHA-1 -/

abbrev Word := BitVec 32

structure State where
  a : Word
  b : Word
  c : Word
  d : Word
  e : Word

def start : State := ⟨0x67452301, 0xEFCDAB89, 0x98BADCFE, 0x10325476, 0xC3D2E1F0⟩

/-- Adds `count` words to the words of a block, all of them in reverse order. -/
def extend : (count : Nat) → (reversed : List Word) → List Word
  | 0, reversed => reversed
  | count + 1, reversed =>
      let word := reversed.getD 2 0 ^^^ reversed.getD 7 0 ^^^ reversed.getD 13 0 ^^^
        reversed.getD 15 0
      extend count (word.rotateLeft 1 :: reversed)

def select (step : Nat) (b c d : Word) : Word :=
  if step < 20 then ((b &&& c) ||| (~~~b &&& d)) + 0x5A827999
  else if step < 40 then (b ^^^ c ^^^ d) + 0x6ED9EBA1
  else if step < 60 then ((b &&& c) ||| (b &&& d) ||| (c &&& d)) + 0x8F1BBCDC
  else (b ^^^ c ^^^ d) + 0xCA62C1D6

def advance (state : State) (entry : Word × Nat) : State :=
  let sum := state.a.rotateLeft 5 + select entry.2 state.b state.c state.d + state.e + entry.1
  ⟨sum, state.a, state.b.rotateLeft 30, state.c, state.d⟩

def compress (state : State) (block : List Word) : State :=
  let final := ((extend 64 block.reverse).reverse.zipIdx).foldl advance state
  ⟨state.a + final.a, state.b + final.b, state.c + final.c, state.d + final.d,
    state.e + final.e⟩

def digest (message : Bytes) : Bytes :=
  let state := (blocks .bigEndian 4 64 8 message).foldl compress start
  [state.a, state.b, state.c, state.d, state.e].flatMap fun word =>
    ByteOrder.bigEndian.encode 4 word.toNat

end CilRecovery.Digest.Sha1

namespace CilRecovery.Digest.Sha2

/-!
## SHA-256 and SHA-512

Two digests of one construction with words of different width. Their constants are leading bits
of the fractions of square and cube roots of the first primes.
-/

/-! ### Constants -/

/-- The first `count` primes are among the numbers below `bound`, which this finds. -/
def primes (bound count : Nat) : List Nat :=
  ((List.range bound).filter fun number =>
    2 ≤ number && ((List.range number).drop 2).all fun divisor => number % divisor != 0).take count

/-- The integer part of a root, found bit by bit from `bits` down. -/
def root (degree value : Nat) : (bits : Nat) → (found : Nat) → Nat
  | 0, found => found
  | bits + 1, found =>
      let candidate := found + (1 <<< bits)
      root degree value bits (if Nat.pow candidate degree ≤ value then candidate else found)

/-- The first `width` bits of the fraction of a root of a number below 512. -/
def rootFraction (width degree number : Nat) : BitVec width :=
  BitVec.ofNat width (root degree (number <<< (degree * width)) (width + 5) 0)

/-! ### Construction -/

/-- The parameters of a digest: three amounts for each of the four mixing functions, of which
the last one of the lower functions is a shift. -/
structure Variant where
  wordBytes : Nat
  rounds : Nat
  upper0 : Nat × Nat × Nat
  upper1 : Nat × Nat × Nat
  lower0 : Nat × Nat × Nat
  lower1 : Nat × Nat × Nat

def sha256 : Variant :=
  ⟨4, 64, (2, 13, 22), (6, 11, 25), (7, 18, 3), (17, 19, 10)⟩

def sha512 : Variant :=
  ⟨8, 80, (28, 34, 39), (14, 18, 41), (1, 8, 7), (19, 61, 6)⟩

namespace Variant

abbrev Word (variant : Variant) := BitVec (8 * variant.wordBytes)

def start (variant : Variant) : List variant.Word :=
  (primes 20 8).map (rootFraction _ 2)

def constants (variant : Variant) : List variant.Word :=
  (primes 410 variant.rounds).map (rootFraction _ 3)

variable {variant : Variant}

def upper (amounts : Nat × Nat × Nat) (word : variant.Word) : variant.Word :=
  word.rotateRight amounts.1 ^^^ word.rotateRight amounts.2.1 ^^^ word.rotateRight amounts.2.2

def lower (amounts : Nat × Nat × Nat) (word : variant.Word) : variant.Word :=
  word.rotateRight amounts.1 ^^^ word.rotateRight amounts.2.1 ^^^ (word >>> amounts.2.2)

/-- Adds `count` words to the words of a block, all of them in reverse order. -/
def extend : (count : Nat) → (reversed : List variant.Word) → List variant.Word
  | 0, reversed => reversed
  | count + 1, reversed =>
      let word := lower variant.lower1 (reversed.getD 1 0) + reversed.getD 6 0 +
        lower variant.lower0 (reversed.getD 14 0) + reversed.getD 15 0
      extend count (word :: reversed)

def advance (state : List variant.Word) (input : variant.Word × variant.Word) :
    List variant.Word :=
  match state with
  | [a, b, c, d, e, f, g, h] =>
      let first := h + upper variant.upper1 e + ((e &&& f) ^^^ (~~~e &&& g)) + input.1 + input.2
      let second := upper variant.upper0 a + ((a &&& b) ^^^ (a &&& c) ^^^ (b &&& c))
      [first + second, a, b, c, d + first, e, f, g]
  | _ => state

def compress (constants : List variant.Word) (state block : List variant.Word) :
    List variant.Word :=
  let words := (extend (variant.rounds - 16) block.reverse).reverse
  List.zipWith (· + ·) state ((words.zip constants).foldl advance state)

def digestWith (constants start : List variant.Word) (message : Bytes) : Bytes :=
  let words := blocks .bigEndian variant.wordBytes (16 * variant.wordBytes)
    (2 * variant.wordBytes) message
  (words.foldl (compress constants) start).flatMap fun word =>
    ByteOrder.bigEndian.encode variant.wordBytes word.toNat

end Variant

def constants256 : List sha256.Word := sha256.constants

def constants512 : List sha512.Word := sha512.constants

def digest256 (message : Bytes) : Bytes := Variant.digestWith constants256 sha256.start message

def digest512 (message : Bytes) : Bytes := Variant.digestWith constants512 sha512.start message

end CilRecovery.Digest.Sha2

namespace CilRecovery

/-!
## Named digests

Digests compare payloads with values that a protector embedded. Nothing here rests on their
strength.
-/

inductive DigestKind
  | md5
  | sha1
  | sha256
  | sha512
  deriving DecidableEq

namespace DigestKind

def name : DigestKind → String
  | .md5 => "Md5"
  | .sha1 => "Sha1"
  | .sha256 => "Sha256"
  | .sha512 => "Sha512"

def ofName? (text : String) : Option DigestKind :=
  Keyword.find? ([md5, sha1, sha256, sha512].map fun kind => (kind.name, kind)) text

def compute : DigestKind → Bytes → Bytes
  | .md5 => Digest.Md5.digest
  | .sha1 => Digest.Sha1.digest
  | .sha256 => Digest.Sha2.digest256
  | .sha512 => Digest.Sha2.digest512

def accepts (kind : DigestKind) (message expected : Bytes) : Bool :=
  kind.compute message == expected

end DigestKind

end CilRecovery
