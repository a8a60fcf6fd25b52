import CilRecovery.Reader

/-!
# Method streams

A method stream is masked, laid out in one of three ways, and does not say in which.
-/

set_option autoImplicit false

namespace CilRecovery.MethodStream

/-!
## The mask of a method stream

A 64-bit key is combined with every complete group of eight bytes. Doing that twice restores the
stream.
-/

/-- Combines the key with complete groups of eight bytes. What is left over stays as it is. -/
def mask (key : UInt64) (data : Bytes) : Bytes :=
  let keyBytes := bytesOfUInt64 key
  ((data.chunks 8).map (·.xor keyBytes)).flatten ++ data.drop (data.length / 8 * 8)

/-!
## Records of a method stream

A method stream starts with a patch count and a mode. What follows depends on the layout: dword
patches, direct writes and method bodies, in this order. Each layout has a reader and the writer
that it reads back.
-/

inductive Record
  | dword (address value : UInt32)
  /-- Bytes to be written at an address. -/
  | write (address : UInt32) (data : Bytes)
  /-- The code of the method that owns a code address. -/
  | method (codeAddress index : UInt32) (code : Bytes)
  deriving DecidableEq

/-! ### Reading -/

def readDword : Reader Record := do
  let address ← Reader.uint32
  let value ← Reader.uint32
  return .dword address value

/-- Reads records up to the end. A single last byte is no record. Each run of the reader takes at
least one byte. -/
def readWhileLeft (reader : Reader (List Record)) : (fuel : Nat) → Reader (List Record)
  | 0 => return []
  | fuel + 1 => do
      if 1 < (← Reader.left) then
        let first ← reader
        let others ← readWhileLeft reader fuel
        return first ++ others
      else
        return []

/-- Reads a token with its dword patches. The stored count is that of both words of each. -/
def readGroup : Reader (List Record) := do
  let _token ← Reader.uint32
  let words ← Reader.count .dwords
  Reader.times readDword (words / 2)

/-- Reads a direct write. One without bytes asks for nothing. -/
def readWrite : Reader (List Record) := do
  let address ← Reader.uint32
  let _token ← Reader.uint32
  let size ← Reader.word .i32
  if 0 < size then
    let data ← Reader.take size.toNat
    return [.write address data]
  else
    return []

def readMethod : Reader (List Record) := do
  let codeAddress ← Reader.uint32
  let index ← Reader.uint32
  let size ← Reader.count .methodSize
  let code ← Reader.take size
  return [.method codeAddress index code]

def readRecords (format : Format) : Reader (List Record) := do
  let count ← Reader.count .patches
  let _mode ← Reader.word .i32
  match format with
  | .legacyTokenRva =>
      Reader.skip (8 * count)
      let count ← Reader.count .patches
      let _mode ← Reader.word .i32
      let patches ← Reader.times readDword count
      let groups ← readWhileLeft readGroup (← Reader.left)
      return patches ++ groups
  | .rvaTokenSize =>
      let patches ← Reader.times readDword count
      let writes ← readWhileLeft readWrite (← Reader.left)
      return patches ++ writes
  | .rvaIndexSize =>
      let patches ← Reader.times readDword count
      let _methods ← Reader.word .i32
      let methods ← readWhileLeft readMethod (← Reader.left)
      return patches ++ methods

def records (format : Format) (stream : Bytes) : Except Error (List Record) :=
  (readRecords format).decode stream

/-! ### Writing -/

structure Dword where
  address : UInt32
  value : UInt32
  deriving DecidableEq

structure DirectWrite where
  address : UInt32
  token : Token
  data : Bytes
  deriving DecidableEq

structure MethodEntry where
  codeAddress : UInt32
  index : UInt32
  code : Bytes
  deriving DecidableEq

structure DwordGroup where
  token : Token
  dwords : List Dword
  deriving DecidableEq

def encodeCount (count : Nat) : Bytes := LittleEndian.encode 4 count

def encodeDwords (dwords : List Dword) : Bytes :=
  dwords.flatMap fun dword => bytesOfUInt32 dword.address ++ bytesOfUInt32 dword.value

def DirectWrite.encode (write : DirectWrite) : Bytes :=
  bytesOfUInt32 write.address ++ bytesOfUInt32 write.token.value ++
    encodeCount write.data.length ++ write.data

def MethodEntry.encode (method : MethodEntry) : Bytes :=
  bytesOfUInt32 method.codeAddress ++ bytesOfUInt32 method.index ++
    encodeCount method.code.length ++ method.code

def DwordGroup.encode (group : DwordGroup) : Bytes :=
  bytesOfUInt32 group.token.value ++ encodeCount (2 * group.dwords.length) ++
    encodeDwords group.dwords

def encodeWrites (mode : UInt32) (dwords : List Dword) (writes : List DirectWrite) : Bytes :=
  encodeCount dwords.length ++ bytesOfUInt32 mode ++ encodeDwords dwords ++
    writes.flatMap DirectWrite.encode

def encodeMethods (mode : UInt32) (dwords : List Dword) (methods : List MethodEntry) : Bytes :=
  encodeCount dwords.length ++ bytesOfUInt32 mode ++ encodeDwords dwords ++
    encodeCount methods.length ++ methods.flatMap MethodEntry.encode

/-- A stream with a token table: pairs of a token and an address, a second header with dword
patches, and dword patches by token. -/
def encodeGroups (mode secondMode : UInt32) (table : List (Token × UInt32)) (dwords : List Dword)
    (groups : List DwordGroup) : Bytes :=
  encodeCount table.length ++ bytesOfUInt32 mode ++
    (table.flatMap fun (token, address) => bytesOfUInt32 token.value ++ bytesOfUInt32 address) ++
    encodeCount dwords.length ++ bytesOfUInt32 secondMode ++ encodeDwords dwords ++
    groups.flatMap DwordGroup.encode

/-!
## Telling the layouts of a method stream apart

The layout is not stored. It follows from the leading table, the mode and what is known about the
protector, and is accepted only if the whole stream reads as that layout.
-/

/-- What is known about a stream that it does not say itself. -/
structure Hints where
  /-- The protector hooks the compiler, so methods are named by address and index. -/
  hooksCompiler : Bool
  /-- Direct writes are addressed by file position. -/
  fileOffsets : Bool
  /-- The mask of the stream, zero for none. -/
  maskKey : UInt64
  deriving DecidableEq

/-- The mode in which a stream holds direct writes although the compiler is hooked. -/
def directMode : Int := 1

def readHeader : Reader (Int × Int) := do
  let count ← Reader.word .i32
  let mode ← Reader.word .i32
  return (count, mode)

/-- Whether a table of `count` pairs follows the header, in each of which the first word is tagged
as a method token. -/
def hasTokenTable (stream : Bytes) (count : Int) : Bool :=
  0 < count && 8 + 8 * count.toNat ≤ stream.length &&
    (Bytes.pieces 8 count.toNat (stream.drop 8)).all fun pair =>
      pair[3]? == some Token.methodTable

def suggest (stream : Bytes) (hints : Hints) (count mode : Int) : Format :=
  if hasTokenTable stream count then .legacyTokenRva
  else if !hints.hooksCompiler || mode == directMode then .rvaTokenSize
  else .rvaIndexSize

def detect (stream : Bytes) (hints : Hints) : Except Error Format := do
  let (count, mode) ← readHeader.decode stream
  let format := suggest stream hints count mode
  match records format stream with
  | .ok _ => return format
  | .error cause => throw (.layoutMismatch format cause)

end CilRecovery.MethodStream
