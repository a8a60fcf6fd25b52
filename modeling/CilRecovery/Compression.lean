import CilRecovery.Deflate.Container
import CilRecovery.Error
import CilRecovery.Text

/-!
# Compression of payloads

Payloads are compressed before they are encrypted: as a bare deflate stream, as a zlib container
or as a gzip member.
-/

set_option autoImplicit false

namespace CilRecovery

inductive Compression
  | none
  | deflate
  | zlib
  | gzip
  deriving DecidableEq

namespace Compression

def name : Compression → String
  | .none => "none"
  | .deflate => "deflate"
  | .zlib => "zlib"
  | .gzip => "gzip"

def ofName? (text : String) : Option Compression :=
  Keyword.find? ([Compression.none, .deflate, .zlib, .gzip].map fun kind => (kind.name, kind))
    text

/-! ## Streams and containers -/

def inflateInto (isBare : Bool) (data : Bytes) (space : Nat) : Deflate.Outcome :=
  if isBare then Deflate.inflate data (some space) [] else Deflate.Zlib.inflate data space

/-- An inflater between two calls: how much it has taken, and why it stopped in a call before. -/
structure Inflater where
  isBare : Bool
  taken : Nat
  stopped : Option Deflate.Stop

structure Inflater.Reply where
  finished : Bool
  written : Bytes
  inflater : Inflater

/-- A call with all input that is left and the space that is free, which is to finish the stream.
The first call works in that space alone. Where it stops short, later calls do not go on from there:
they do nothing if the input had run out, and fail if the space had. -/
def Inflater.call (inflater : Inflater) (input : Bytes) (space : Nat) : Except Error Reply :=
  match inflater.stopped with
  | some .starved => .ok ⟨false, [], inflater⟩
  | some _ => .error (.decompression .corrupt)
  | Option.none =>
      let outcome := inflateInto inflater.isBare input space
      let taken := inflater.taken + (input.length - outcome.rest.length)
      match outcome.stop with
      | some .corrupt => .error (.decompression .corrupt)
      | stopped => .ok ⟨stopped.isNone, outcome.output, { inflater with taken, stopped }⟩

/-- Calls an inflater until it is finished. An output that is full doubles its capacity first. A
call that takes and writes nothing, although there is space, shows that the input just ends. -/
def inflateAll (data : Bytes) : (calls : Nat) → Inflater → (output : Bytes) → (capacity : Nat) →
    Except Error Bytes
  | 0, _, _, _ => .error (.decompression .incomplete)
  | calls + 1, inflater, output, capacity => do
      let capacity := if output.length = capacity then capacity + capacity else capacity
      let reply ← inflater.call (data.drop inflater.taken) (capacity - output.length)
      let output' := output ++ reply.written
      if reply.finished then return output'
      else if reply.inflater.taken = inflater.taken ∧ output'.length = output.length ∧
          output'.length < capacity then
        throw (.decompression .incomplete)
      else inflateAll data calls reply.inflater output' capacity

def inflateSpace (length : Nat) : Nat := max 0x1000 (2 * length)

/-- Inflates a bare stream or a zlib container. What follows it does not matter. There is never a
third call. -/
def inflate (data : Bytes) (isBare : Bool) : Except Error Bytes :=
  inflateAll data 2 ⟨isBare, 0, Option.none⟩ [] (inflateSpace data.length)

/-! ## Kinds -/

def orCorrupt : Option Bytes → Except Error Bytes
  | some data => .ok data
  | Option.none => .error (.decompression .corrupt)

def gunzip (data : Bytes) : Except Error Bytes := orCorrupt (Deflate.Gzip.decompress? data)

def gunzipLeading (data : Bytes) (size : Nat) : Except Error Bytes :=
  orCorrupt (Deflate.Gzip.leading? data size)

def decompress (kind : Compression) (data : Bytes) : Except Error Bytes :=
  match kind with
  | .none => .ok data
  | .deflate => inflate data true
  | .zlib => inflate data false
  | .gzip => gunzip data

end Compression

end CilRecovery
