import CilRecovery.Bytes.LittleEndian
import CilRecovery.Deflate.Inflate

/-!
# Containers of compressed data

Around a deflate stream stand a header and a checksum of the data.
-/

set_option autoImplicit false

namespace CilRecovery.Checksum

/-! ## Checksums -/

def adlerModulus : Nat := 65521

/-- The sum of all bytes plus one, and the sum of these sums, as a 16-bit pair. -/
def adler32 (data : Bytes) : Nat :=
  let sums := data.foldl (fun (low, high) byte =>
    let low := (low + byte.toNat) % adlerModulus
    (low, (high + low) % adlerModulus)) (1, 0)
  sums.2 * 0x10000 + sums.1

def crcBit (remainder : UInt32) : UInt32 :=
  if remainder % 2 == 1 then (remainder >>> 1) ^^^ 0xEDB88320 else remainder >>> 1

def crcByte (remainder : UInt32) (byte : UInt8) : UInt32 :=
  Nat.repeat crcBit 8 (remainder ^^^ byte.toUInt32)

/-- The cyclic redundancy check, inverted before and after. -/
def crc32 (data : Bytes) : UInt32 := data.foldl crcByte 0xFFFFFFFF ^^^ 0xFFFFFFFF

end CilRecovery.Checksum

namespace CilRecovery.Deflate.Zlib

/-!
## The zlib container

Two header bytes, a deflate stream and the Adler sum of the data.
-/

/-- Whether the header announces deflate with a window of at most 32 KiB and no preset
dictionary, and passes its own check. -/
def isHeader (method flags : UInt8) : Bool :=
  (method.toNat * 256 + flags.toNat) % 31 == 0 && flags &&& 0x20 == 0 &&
    method % 16 == 8 && method / 16 ≤ 7

/-- Inflates a container into at most `space` bytes. The sum is compared once all of it is there. -/
def inflate (data : Bytes) (space : Nat) : Outcome :=
  match data with
  | method :: flags :: data =>
      if isHeader method flags then
        let outcome := Deflate.inflate data (some space) []
        if outcome.stop.isSome then outcome
        else
          match outcome.rest with
          | b3 :: b2 :: b1 :: b0 :: rest =>
              let sum := ((b3.toNat * 256 + b2.toNat) * 256 + b1.toNat) * 256 + b0.toNat
              let stop := if sum = Checksum.adler32 outcome.output then none else some .corrupt
              { outcome with stop, rest }
          | _ => { outcome with stop := some .starved, rest := [] }
      else ⟨some .corrupt, [], data⟩
  | _ => ⟨some .starved, [], []⟩

end CilRecovery.Deflate.Zlib

namespace CilRecovery.Deflate.Gzip

/-!
## The gzip container

A header with optional fields, a deflate stream, and the checksum and length of the data. Matches
may reach back into a window of zeros before the data.
-/

/-- Size of the window before the data, which is also the unit in which data is produced. -/
def windowSize : Nat := 0x8000

def maxField : Nat := 0xFFFF

def headerCheck : UInt8 := 0x02

def extraField : UInt8 := 0x04

def fileName : UInt8 := 0x08

def comment : UInt8 := 0x10

def reservedFlags : UInt8 := 0xE0

def skipExtra? : Bytes → Option Bytes
  | low :: high :: data =>
      let length := low.toNat + 256 * high.toNat
      if length ≤ data.length then some (data.drop length) else none
  | _ => none

def skipText? (data : Bytes) : Option Bytes :=
  let text := data.takeWhile (· != 0)
  if text.length ≤ maxField then (data.drop text.length).tail? else none

/-- What follows the header's checksum, if it is the checksum of the bytes before it. -/
def skipCheck? (whole data : Bytes) : Option Bytes :=
  match data with
  | low :: high :: rest =>
      let header := whole.take (whole.length - data.length)
      if low.toNat + 256 * high.toNat = (Checksum.crc32 header).toNat % 0x10000 then some rest
      else none
  | _ => none

def skipHeader? (data : Bytes) : Option Bytes :=
  match data with
  | 0x1F :: 0x8B :: 0x08 :: flags :: _ :: _ :: _ :: _ :: _ :: _ :: fields => do
      guard (flags &&& reservedFlags == 0)
      let fields ← if flags &&& extraField == 0 then some fields else skipExtra? fields
      let fields ← if flags &&& fileName == 0 then some fields else skipText? fields
      let fields ← if flags &&& comment == 0 then some fields else skipText? fields
      if flags &&& headerCheck == 0 then some fields else skipCheck? data fields
  | _ => none

def member? (data : Bytes) (space : Option Nat) : Option Outcome :=
  (skipHeader? data).map fun stream => inflate stream space (Bytes.zeros windowSize)

/-- The data of a complete member. What follows it does not matter. -/
def decompress? (data : Bytes) : Option Bytes := do
  let outcome ← member? data none
  guard outcome.stop.isNone
  let trailer ← outcome.rest.slice? 0 8
  guard (uint32OfBytes (trailer.take 4) = Checksum.crc32 outcome.output)
  guard (LittleEndian.decode (trailer.drop 4) = outcome.output.length % UInt32.size)
  return outcome.output

/-- The first `size` bytes of the data. The stream is decoded window by window, and nothing after
the windows that are needed is looked at. -/
def leading? (data : Bytes) (size : Nat) : Option Bytes :=
  if size = 0 then some []
  else do
    let windows := (size + windowSize - 1) / windowSize
    let outcome ← member? data (some (windows * windowSize))
    guard (outcome.stop ≠ some .corrupt)
    outcome.output.slice? 0 size

end CilRecovery.Deflate.Gzip
