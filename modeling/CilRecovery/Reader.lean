import CilRecovery.Bytes.LittleEndian
import CilRecovery.Error

/-!
# Reading and writing

Parsers with a position in the data, and writers that append to a buffer.
-/

set_option autoImplicit false

namespace CilRecovery

/-!
## Bounds-checked reading

A reader moves a cursor over a buffer. A read that would leave the buffer fails with
`Error.outOfBounds` and leaves the cursor where it was. A sequence of reads that fails half way
keeps the position it reached, unless it is run with `atomically`.
-/

/-- A buffer and the index of the next byte to read. -/
structure Cursor where
  buffer : Bytes
  position : Nat
  deriving DecidableEq

def Cursor.start (buffer : Bytes) : Cursor := ⟨buffer, 0⟩

/-- A computation that moves a cursor. A failure carries the cursor it happened at. -/
abbrev Reader := EStateM Error Cursor

namespace Reader

variable {α : Type}

def position : Reader Nat := fun cursor => .ok cursor.position cursor

def left : Reader Nat := fun cursor => .ok (cursor.buffer.length - cursor.position) cursor

/-- Moves to any index of the buffer or just past its end. -/
def seek (target : Nat) : Reader Unit := fun cursor =>
  if target ≤ cursor.buffer.length then .ok () { cursor with position := target }
  else .error .outOfBounds cursor

def skip (count : Nat) : Reader Unit := fun cursor =>
  if cursor.position + count ≤ cursor.buffer.length then
    .ok () { cursor with position := cursor.position + count }
  else .error .outOfBounds cursor

/-- Moves forward without looking at the end of the buffer. Past the end every read fails. -/
def leap (count : Nat) : Reader Unit := fun cursor =>
  .ok () { cursor with position := cursor.position + count }

def align (alignment : Nat) (_positive : 0 < alignment) : Reader Unit := fun cursor =>
  skip (paddingTo alignment cursor.position) cursor

def peekByte : Reader UInt8 := fun cursor =>
  match cursor.buffer[cursor.position]? with
  | some byte => .ok byte cursor
  | none => .error .outOfBounds cursor

def take (count : Nat) : Reader Bytes := fun cursor =>
  match cursor.buffer.slice? cursor.position count with
  | some piece => .ok piece { cursor with position := cursor.position + count }
  | none => .error .outOfBounds cursor

def rest : Reader Bytes := fun cursor =>
  .ok (cursor.buffer.drop cursor.position) { cursor with position := cursor.buffer.length }

/-- Runs a reader and, if it fails, moves back to where it began. -/
def atomically (reader : Reader α) : Reader α := fun cursor =>
  match reader cursor with
  | .ok value moved => .ok value moved
  | .error error _ => .error error cursor

def peek (reader : Reader α) : Reader α := fun cursor =>
  match reader cursor with
  | .ok value _ => .ok value cursor
  | .error error _ => .error error cursor

def check (result : Except Error α) : Reader α := fun cursor =>
  match result with
  | .ok value => .ok value cursor
  | .error error => .error error cursor

def unsigned (width : Nat) : Reader Nat := do
  let bytes ← take width
  return LittleEndian.decode bytes

def word (kind : WordKind) : Reader Int := do
  let raw ← unsigned kind.width
  return kind.interpret raw

def byte : Reader UInt8 := do
  let raw ← unsigned 1
  return UInt8.ofNat raw

def uint16 : Reader UInt16 := do
  let raw ← unsigned 2
  return UInt16.ofNat raw

def uint32 : Reader UInt32 := do
  let raw ← unsigned 4
  return UInt32.ofNat raw

/-- A signed 32-bit count, which must not be negative. -/
def count (counter : Counter) : Reader Nat := do
  let count ← word .i32
  if count < 0 then throw (.malformed (.negative counter count))
  return count.toNat

def times (reader : Reader α) : (count : Nat) → Reader (List α)
  | 0 => return []
  | count + 1 => do
      let first ← reader
      let others ← times reader count
      return first :: others

def decode (reader : Reader α) (data : Bytes) : Except Error α :=
  match reader (Cursor.start data) with
  | .ok value _ => .ok value
  | .error error _ => .error error

end Reader

/-!
## Appending to a buffer

A writer appends to the end of a buffer. A failure carries the buffer that it left behind.
-/

/-- A computation that appends to a buffer. -/
abbrev Writer := EStateM Error Bytes

namespace Writer

def put (bytes : Bytes) : Writer Unit := fun buffer => .ok () (buffer ++ bytes)

/-- Appends an encoding, provided there is one. -/
def putChecked (encoding : Except Error Bytes) : Writer Unit := fun buffer =>
  match encoding with
  | .ok bytes => .ok () (buffer ++ bytes)
  | .error error => .error error buffer

end Writer

end CilRecovery
