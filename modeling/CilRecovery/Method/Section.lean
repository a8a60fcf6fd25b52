import CilRecovery.Reader

/-!
# Exception sections

Behind the code of a method follows a chain of sections that list its exception clauses. Each
section is small or fat; a bit of its first byte tells whether another one follows. A record is
measured with `Section.skipChain`, which looks at the sizes only, and its clauses are read with
`Section.readChain`.
-/

set_option autoImplicit false

namespace CilRecovery.Method

/-- An exception clause. Small clauses are widened to these fields. -/
structure Clause where
  flags : UInt16
  tryOffset : UInt32
  tryLength : UInt32
  handlerOffset : UInt32
  handlerLength : UInt32
  filterOffset : UInt32
  deriving DecidableEq

namespace Clause

def smallSize : Nat := 12

def fatSize : Nat := 24

def readSmall : Reader Clause := do
  let flags ← Reader.uint16
  let tryOffset ← Reader.uint16
  let tryLength ← Reader.byte
  let handlerOffset ← Reader.uint16
  let handlerLength ← Reader.byte
  let filterOffset ← Reader.uint32
  return ⟨flags, tryOffset.toUInt32, tryLength.toUInt32, handlerOffset.toUInt32,
    handlerLength.toUInt32, filterOffset⟩

/-- Reads a clause of a fat section, of whose flags only the low half is kept. -/
def readFat : Reader Clause := do
  let flags ← Reader.uint32
  let tryOffset ← Reader.uint32
  let tryLength ← Reader.uint32
  let handlerOffset ← Reader.uint32
  let handlerLength ← Reader.uint32
  let filterOffset ← Reader.uint32
  return ⟨flags.toUInt16, tryOffset, tryLength, handlerOffset, handlerLength, filterOffset⟩

end Clause

structure Section where
  isFat : Bool
  clauses : List Clause
  deriving DecidableEq

namespace Section

def exceptionTable : UInt8 := 0x01

def fatForm : UInt8 := 0x40

def moreFollow : UInt8 := 0x80

def undefinedBits : UInt8 := 0x3E

def checkKind (kind : UInt8) : Except Error Unit :=
  if kind &&& exceptionTable == 0 then .error (.invalidBody .sectionKind)
  else if kind &&& undefinedBits != 0 then .error (.invalidBody .sectionBits)
  else .ok ()

/-- Moves past one section and tells whether another one follows. Incomplete clauses at the end
of the announced size are not part of it. -/
def skipOne : Reader Bool := do
  Reader.align 4 (by decide)
  let start ← Reader.position
  let kind ← Reader.byte
  Reader.check (checkKind kind)
  if kind &&& fatForm != 0 then
    Reader.seek start
    let word ← Reader.uint32
    Reader.skip (word.toNat / 0x100 / Clause.fatSize * Clause.fatSize)
  else
    let size ← Reader.byte
    Reader.skip (2 + size.toNat / Clause.smallSize * Clause.smallSize)
  return kind &&& moreFollow != 0

/-- Moves past sections until one is the last. A section takes at least four bytes. -/
def skipAll : (fuel : Nat) → Reader Unit
  | 0 => throw .outOfBounds
  | fuel + 1 => do
      let more ← skipOne
      if more then skipAll fuel

/-- The exact bytes of a chain of sections, from the aligned start of the first one. -/
def skipChain : Reader Bytes := do
  Reader.align 4 (by decide)
  let start ← Reader.position
  skipAll ((← Reader.left) + 1)
  let stop ← Reader.position
  Reader.seek start
  Reader.take (stop - start)

/-- Reads one section with its clauses and tells whether another one follows. Alignment and the
two reserved bytes of a small section are passed over unchecked. -/
def readOne : Reader (Section × Bool) := do
  Reader.leap (paddingTo 4 (← Reader.position))
  let start ← Reader.position
  let kind ← Reader.byte
  Reader.check (checkKind kind)
  let more := kind &&& moreFollow != 0
  if kind &&& fatForm != 0 then
    Reader.seek start
    let word ← Reader.uint32
    let clauses ← Reader.times Clause.readFat (word.toNat / 0x100 / Clause.fatSize)
    return (⟨true, clauses⟩, more)
  else
    let size ← Reader.byte
    Reader.leap 2
    let clauses ← Reader.times Clause.readSmall (size.toNat / Clause.smallSize)
    return (⟨false, clauses⟩, more)

/-- Reads sections until one is the last. -/
def readAll : (fuel : Nat) → Reader (List Section)
  | 0 => throw .outOfBounds
  | fuel + 1 => do
      let (first, more) ← readOne
      if more then
        let others ← readAll fuel
        return first :: others
      else
        return [first]

def readChain (span : Bytes) : Except Error (List Section) :=
  Reader.decode (readAll (span.length + 1)) span

end Section

def decodeClauses (span : Bytes) : Except Error (List Clause) := do
  let sections ← Section.readChain span
  return sections.flatMap Section.clauses

end CilRecovery.Method
