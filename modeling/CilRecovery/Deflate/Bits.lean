import CilRecovery.Bytes

/-!
# Bits and prefix codes

Compressed data as a sequence of bits, and the trees that decode it.
-/

set_option autoImplicit false

namespace CilRecovery.Deflate

/-!
## Bit streams

Compressed data is a sequence of bits: the bits of each byte in turn, the least significant one
first.
-/

/-- Bytes, of the first of which `used` bits have already been read. -/
structure BitStream where
  bytes : Bytes
  used : Fin 8
  deriving DecidableEq

namespace BitStream

def ofBytes (bytes : Bytes) : BitStream := ⟨bytes, 0⟩

def next? (stream : BitStream) : Option (Bool × BitStream) :=
  match stream.bytes with
  | [] => none
  | byte :: rest =>
      some (byte.toNat.testBit stream.used,
        ⟨if stream.used = 7 then rest else byte :: rest, stream.used + 1⟩)

/-- The bytes of which no bit has been read. -/
def untouched (stream : BitStream) : Bytes :=
  if stream.used = 0 then stream.bytes else stream.bytes.tail

end BitStream

/-!
## Prefix codes

A prefix code is a binary tree with a symbol at each leaf. Compressed data describes it by the
code length of each symbol alone: codes of one length follow each other in the order of their
symbols, and shorter codes come before longer ones.
-/

/-- A prefix code. Bits that lead into a gap are the code of no symbol. -/
inductive CodeTree
  | gap
  | leaf (symbol : Nat)
  | fork (zero one : CodeTree)

namespace CodeTree

def maxLength : Nat := 15

def leaves (lengths : List Nat) (length : Nat) : List CodeTree :=
  (lengths.zipIdx.filter fun entry => entry.1 == length).map fun entry => .leaf entry.2

/-- Joins neighbours, the last one with a gap if it has none. -/
def joinPairs : List CodeTree → List CodeTree
  | [] => []
  | [last] => [.fork last .gap]
  | zero :: one :: rest => .fork zero one :: joinPairs rest

/-- The subtrees at a depth, from left to right, when `below` further levels hold leaves. -/
def subtrees (lengths : List Nat) : (below depth : Nat) → List CodeTree
  | 0, depth => leaves lengths depth
  | below + 1, depth => leaves lengths depth ++ joinPairs (subtrees lengths below (depth + 1))

/-- The code in which each symbol has the given length. Symbols of length zero have no code. -/
def ofLengths (lengths : List Nat) : CodeTree :=
  ((joinPairs (subtrees lengths (maxLength - 1) 1)).head?).getD (.fork .gap .gap)

/-- The part of all bit strings that begin with some code, in units of `2 ^ -15`. -/
def coverage : List Nat → Nat
  | [] => 0
  | length :: rest => (if length = 0 then 0 else 1 <<< (maxLength - length)) + coverage rest

def isComplete (lengths : List Nat) : Bool := coverage lengths == 1 <<< maxLength

/-- Whether no symbol has a code, or a single one whose code is one bit long. -/
def isTrivial (lengths : List Nat) : Bool :=
  match lengths.filter (· != 0) with
  | [] | [1] => true
  | _ => false

end CodeTree

end CilRecovery.Deflate
