import CilRecovery.Proofs.Method.Grammar
import CilRecovery.Proofs.Varint.Grammar

/-!
# Programs that read

The operations on a cursor as data, and programs made of them. What a program does next may depend
on all that came before, failures included, and it may run a part of itself as a block that moves
back if it fails. Every call that a run makes is listed, with the place where it was made.
-/

set_option autoImplicit false

namespace CilRecovery.Reader

/-! ## Operations -/

inductive Operation
  | position
  | left
  | seek (target : Nat)
  | skip (count : Nat)
  | align (alignment : Nat) (positive : 0 < alignment)
  | peekByte
  | peekWord (kind : WordKind)
  | word (kind : WordKind)
  | take (count : Nat)
  | rest
  | compressed
  | sevenBit
  | text
  | skipText
  | body

namespace Operation

abbrev Answer : Operation → Type
  | .position | .left => Nat
  | .seek _ | .skip _ | .align _ _ | .skipText => Unit
  | .peekByte => UInt8
  | .peekWord _ | .word _ => Int
  | .take _ | .rest => Bytes
  | .compressed | .sevenBit => UInt32
  | .text => String
  | .body => Method.Body

def run : (operation : Operation) → Reader operation.Answer
  | .position => Reader.position
  | .left => Reader.left
  | .seek target => Reader.seek target
  | .skip count => Reader.skip count
  | .align alignment positive => Reader.align alignment positive
  | .peekByte => Reader.peekByte
  | .peekWord kind => Reader.peek (Reader.word kind)
  | .word kind => Reader.word kind
  | .take count => Reader.take count
  | .rest => Reader.rest
  | .compressed => Varint.readCompressed
  | .sevenBit => Varint.readSevenBit
  | .text => Varint.readPrefixedText
  | .skipText => (fun _ => ()) <$> Varint.readPrefixedBytes
  | .body => Method.Body.read

def targets : Operation → List Nat
  | .seek target => [target]
  | _ => []

/-- What an operation that went from one place of the data to another can have returned. A read
returns what the bytes between the two places say, a peek what those ahead of it say. -/
def Returns (data : Bytes) (start stop : Nat) : (operation : Operation) → operation.Answer → Prop
  | .position, value => stop = start ∧ value = start
  | .left, value => stop = start ∧ value = data.length - start
  | .seek target, _ => stop = target
  | .skip count, _ => stop = start + count
  | .align alignment _, _ => stop % alignment = 0 ∧ stop < start + alignment
  | .peekByte, value => stop = start ∧ data[start]? = some value
  | .peekWord kind, value =>
      stop = start ∧ start + kind.width ≤ data.length ∧
        value = kind.decode (data.extract start (start + kind.width))
  | .word kind, value => stop = start + kind.width ∧ value = kind.decode (data.extract start stop)
  | .take count, value => stop = start + count ∧ value = data.extract start stop
  | .rest, value => stop = data.length ∧ value = data.extract start stop
  | .compressed, value => Varint.IsCompressed (data.extract start stop) value
  | .sevenBit, value => Varint.IsSevenBit (data.extract start stop) value
  | .text, value =>
      ∃ bytes, Varint.IsPrefixed (data.extract start stop) bytes ∧ Utf8.decode bytes = .ok value
  | .skipText, _ => ∃ bytes, Varint.IsPrefixed (data.extract start stop) bytes
  | .body, value => Method.IsRecord start (data.extract start stop) value

end Operation

/-! ## Programs -/

/-- A program that ends with a result of its own, performs an operation or runs a block, and goes on
with the outcome. -/
inductive Program (ρ : Type)
  | finish (result : Except Error ρ)
  | perform (operation : Operation) (next : Except Error operation.Answer → Program ρ)
  | block (body : Program ρ) (next : Except Error ρ → Program ρ)

def settle {α : Type} (reader : Reader α) (cursor : Cursor) : Except Error α × Cursor :=
  match reader cursor with
  | .ok value moved => (.ok value, moved)
  | .error error stopped => (.error error, stopped)

variable {ρ : Type}

/-- Runs a program. A failure does not end it: what follows starts where the failure stopped. -/
def Program.run : Program ρ → Reader ρ
  | .finish result => Reader.check result
  | .perform operation next => fun cursor =>
      let settled := settle operation.run cursor
      (next settled.1).run settled.2
  | .block body next => fun cursor =>
      let settled := settle (atomically body.run) cursor
      (next settled.1).run settled.2

/-! ## Calls -/

inductive Call (ρ : Type)
  | single (operation : Operation)
  | block (body : Program ρ)

abbrev Call.Answer : Call ρ → Type
  | .single operation => operation.Answer
  | .block _ => ρ

def Call.run : (call : Call ρ) → Reader call.Answer
  | .single operation => operation.run
  | .block body => atomically body.run

namespace Program

/-- The calls that a run makes, those inside of blocks included, with the cursor of each. -/
def calls : Program ρ → Cursor → List (Call ρ × Cursor)
  | .finish _, _ => []
  | .perform operation next, cursor =>
      let settled := settle operation.run cursor
      (.single operation, cursor) :: (next settled.1).calls settled.2
  | .block body next, cursor =>
      let settled := settle (atomically body.run) cursor
      (.block body, cursor) :: body.calls cursor ++ (next settled.1).calls settled.2

/-- The places that a run goes to by seeking. What failed or was taken back does not count. -/
def sought : Program ρ → Cursor → List Nat
  | .finish _, _ => []
  | .perform operation next, cursor =>
      let settled := settle operation.run cursor
      (if settled.1.isOk then operation.targets else []) ++ (next settled.1).sought settled.2
  | .block body next, cursor =>
      let settled := settle (atomically body.run) cursor
      (if settled.1.isOk then body.sought cursor else []) ++ (next settled.1).sought settled.2

end Program

/-- The places that a call goes to by seeking, if it succeeds. -/
def Call.sought : Call ρ → Cursor → List Nat
  | .single operation, _ => operation.targets
  | .block body, cursor => body.sought cursor

/-- What the bytes say that a call went over. The value of a block is the program's own. -/
def Call.Returns (data : Bytes) (start stop : Nat) : (call : Call ρ) → call.Answer → Prop
  | .single operation, value => operation.Returns data start stop value
  | .block _, _ => True

end CilRecovery.Reader
