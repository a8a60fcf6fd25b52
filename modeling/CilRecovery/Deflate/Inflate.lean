import CilRecovery.Bytes.LittleEndian
import CilRecovery.Deflate.Bits

/-!
# Inflating

A deflate stream is a sequence of blocks, each stored or coded with a fixed or a described pair of
prefix codes. Inflating keeps everything produced before it stopped, because a caller that needs
only the beginning of the data does not care about the rest.
-/

set_option autoImplicit false

namespace CilRecovery.Deflate

inductive Stop
  | starved
  | corrupt
  /-- The output space is used up. -/
  | full
  deriving DecidableEq

/-- Input that is left, output space that is left (unlimited if absent), and the output so far,
last byte first, in front of the history that matches may refer to. -/
structure Progress where
  input : BitStream
  space : Option Nat
  reversed : Bytes
  deriving DecidableEq

abbrev Inflater := EStateM Stop Progress

namespace Inflater

/-! ## Input -/

def bit : Inflater Bool := fun progress =>
  match progress.input.next? with
  | some (bit, input) => .ok bit { progress with input }
  | none => .error .starved progress

/-- The number whose binary digits are the next `width` bits, the lowest first. -/
def number : (width : Nat) → Inflater Nat
  | 0 => return 0
  | width + 1 => do
      let low ← bit
      let high ← number width
      return low.toNat + 2 * high

def times {α : Type} (inflater : Inflater α) : (count : Nat) → Inflater (List α)
  | 0 => return []
  | count + 1 => do
      let first ← inflater
      let others ← times inflater count
      return first :: others

def symbol : CodeTree → Inflater Nat
  | .gap => throw .corrupt
  | .leaf symbol => return symbol
  | .fork zero one => do
      let isOne ← bit
      if isOne then symbol one else symbol zero

def align : Inflater Unit := fun progress =>
  .ok () { progress with input := BitStream.ofBytes progress.input.untouched }

/-! ## Output -/

def emit (byte : UInt8) : Inflater Unit := fun progress =>
  if progress.space = some 0 then .error .full progress
  else .ok ()
    { progress with space := progress.space.map (· - 1), reversed := byte :: progress.reversed }

def fitting (space : Option Nat) (count : Nat) : Nat := min count (space.getD count)

def emitAll (bytes : Bytes) : Inflater Unit := fun progress =>
  let count := fitting progress.space bytes.length
  let progress' : Progress := { progress with
    space := progress.space.map (· - count)
    reversed := (bytes.take count).reverse ++ progress.reversed }
  if count < bytes.length then .error .full progress' else .ok () progress'

/-- The `length` bytes that start `distance` bytes before the end of the output. Bytes past the
end are the copied ones, so a short distance repeats its bytes. -/
def lookBack (reversed : Bytes) (distance length : Nat) : Bytes :=
  let source := (reversed.drop (distance - length)).take (min distance length)
  ((List.replicate (length / distance + 1) source.reverse).flatten).take length

def copy (distance length : Nat) : Inflater Unit := fun progress =>
  if (progress.reversed.drop (distance - 1)).isEmpty then .error .corrupt progress
  else emitAll (lookBack progress.reversed distance length) progress

def transfer (length : Nat) : Inflater Unit := fun progress =>
  let count := fitting progress.space length
  let piece := progress.input.bytes.take count
  let progress' : Progress := {
    input := BitStream.ofBytes (progress.input.bytes.drop count)
    space := progress.space.map (· - piece.length)
    reversed := piece.reverse ++ progress.reversed }
  if piece.length < count then .error .starved progress'
  else if count < length then .error .full progress'
  else .ok () progress'

end Inflater

/-! ## Codes -/

/-- The first length and the number of extra bits of each length symbol, from 257 on. -/
def lengthClasses : List (Nat × Nat) :=
  [(3, 0), (4, 0), (5, 0), (6, 0), (7, 0), (8, 0), (9, 0), (10, 0), (11, 1), (13, 1), (15, 1),
    (17, 1), (19, 2), (23, 2), (27, 2), (31, 2), (35, 3), (43, 3), (51, 3), (59, 3), (67, 4),
    (83, 4), (99, 4), (115, 4), (131, 5), (163, 5), (195, 5), (227, 5), (258, 0)]

/-- The first distance and the number of extra bits of each distance symbol. -/
def distanceClasses : List (Nat × Nat) :=
  [(1, 0), (2, 0), (3, 0), (4, 0), (5, 1), (7, 1), (9, 2), (13, 2), (17, 3), (25, 3), (33, 4),
    (49, 4), (65, 5), (97, 5), (129, 6), (193, 6), (257, 7), (385, 7), (513, 8), (769, 8),
    (1025, 9), (1537, 9), (2049, 10), (3073, 10), (4097, 11), (6145, 11), (8193, 12),
    (12289, 12), (16385, 13), (24577, 13)]

/-- The code lengths of literals and lengths in blocks that describe no codes. -/
def fixedLiteralLengths : List Nat :=
  List.replicate 144 8 ++ List.replicate 112 9 ++ List.replicate 24 7 ++ List.replicate 8 8

/-- The code lengths of distances in blocks that describe no codes. -/
def fixedDistanceLengths : List Nat := List.replicate 32 5

def codeLengthOrder : List Nat :=
  [16, 17, 18, 0, 8, 7, 9, 6, 10, 5, 11, 4, 12, 3, 13, 2, 14, 1, 15]

namespace Inflater

/-- The value of a class: its first value plus the extra bits. -/
def classValue (classes : List (Nat × Nat)) (index : Nat) : Inflater Nat :=
  match classes[index]? with
  | none => throw .corrupt
  | some (first, extra) => do
      let offset ← number extra
      return first + offset

/-- Reads literals and matches up to the end of the block. Each takes at least one bit. -/
def codedData (literals distances : CodeTree) : (fuel : Nat) → Inflater Unit
  | 0 => throw .starved
  | fuel + 1 => do
      let literal ← symbol literals
      if literal < 256 then
        emit (UInt8.ofNat literal)
        codedData literals distances fuel
      else if literal = 256 then
        return ()
      else
        let length ← classValue lengthClasses (literal - 257)
        let distance ← classValue distanceClasses (← symbol distances)
        copy distance length
        codedData literals distances fuel

/-- The code of the given lengths. It must be complete, unless no symbol is in use or a single one
with the shortest code. -/
def dataCode (lengths : List Nat) : Inflater CodeTree :=
  if CodeTree.isComplete lengths || CodeTree.isTrivial lengths then
    return CodeTree.ofLengths lengths
  else throw .corrupt

/-- Reads code lengths until there are `total` of them. Three symbols stand for repetitions, which
must not run over the total. -/
def codeLengths (code : CodeTree) (total : Nat) : (fuel : Nat) → (reversed : List Nat) →
    Inflater (List Nat)
  | 0, _ => throw .corrupt
  | fuel + 1, reversed => do
      if total < reversed.length then
        throw .corrupt
      else if reversed.length = total then
        return reversed.reverse
      else
        let length ← symbol code
        if length < 16 then
          codeLengths code total fuel (length :: reversed)
        else if length = 16 then
          match reversed with
          | [] => throw .corrupt
          | previous :: _ =>
              let count ← number 2
              codeLengths code total fuel (List.replicate (3 + count) previous ++ reversed)
        else if length = 17 then
          let count ← number 3
          codeLengths code total fuel (List.replicate (3 + count) 0 ++ reversed)
        else
          let count ← number 7
          codeLengths code total fuel (List.replicate (11 + count) 0 ++ reversed)

def describedCodes : Inflater (CodeTree × CodeTree) := do
  let literalCount := 257 + (← number 5)
  let distanceCount := 1 + (← number 5)
  let storedCount := 4 + (← number 4)
  if 286 < literalCount || 30 < distanceCount then throw .corrupt
  let stored ← times (number 3) storedCount
  let lengths := (List.range codeLengthOrder.length).map fun length =>
    (stored[codeLengthOrder.idxOf length]?).getD 0
  if !CodeTree.isComplete lengths then throw .corrupt
  let total := literalCount + distanceCount
  let all ← codeLengths (CodeTree.ofLengths lengths) total (total + 1) []
  let literals ← dataCode (all.take literalCount)
  let distances ← dataCode (all.drop literalCount)
  return (literals, distances)

/-- Reads a stored block: its length, the complement of that, and its bytes. -/
def storedData : Inflater Unit := do
  align
  let length ← number 16
  let complement ← number 16
  if length + complement ≠ 0xFFFF then throw .corrupt
  transfer length

/-- Reads blocks up to the last one. `bound` is at least the number of input bits. -/
def blocks (bound : Nat) : (fuel : Nat) → Inflater Unit
  | 0 => throw .starved
  | fuel + 1 => do
      let isLast ← bit
      let kind ← number 2
      if kind = 0 then
        storedData
      else if kind = 1 then
        codedData (CodeTree.ofLengths fixedLiteralLengths)
          (CodeTree.ofLengths fixedDistanceLengths) bound
      else if kind = 2 then
        let (literals, distances) ← describedCodes
        codedData literals distances bound
      else
        throw .corrupt
      if isLast then return () else blocks bound fuel

end Inflater

/-- What inflating came to: whether and why it stopped early, the output, and the bytes behind
the stream. -/
structure Outcome where
  stop : Option Stop
  output : Bytes
  rest : Bytes
  deriving DecidableEq

/-- Inflates the stream at the start of the data. Matches may refer to `history` as if it had been
produced before. -/
def inflate (data : Bytes) (space : Option Nat) (history : Bytes) : Outcome :=
  let bound := 8 * data.length + 1
  let outcome (stop : Option Stop) (progress : Progress) : Outcome :=
    { stop
      output := (progress.reversed.take (progress.reversed.length - history.length)).reverse
      rest := progress.input.untouched }
  match Inflater.blocks bound bound ⟨BitStream.ofBytes data, space, history.reverse⟩ with
  | .ok () progress => outcome none progress
  | .error stop progress => outcome (some stop) progress

end CilRecovery.Deflate
