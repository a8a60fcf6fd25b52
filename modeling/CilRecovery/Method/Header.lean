import CilRecovery.Reader

/-!
# Method headers

A method record begins with a tiny header of one byte or a fat header of twelve. The low bits of
the first byte tell them apart.
-/

set_option autoImplicit false

namespace CilRecovery.Method

/-- A decoded header. Of a tiny one only the format bits of the flags are kept. -/
structure Header where
  flags : UInt16
  maxStack : UInt16
  codeSize : UInt32
  localSignature : UInt32
  deriving DecidableEq

namespace Header

def tinyFormat : UInt16 := 0x2

def fatFormat : UInt16 := 0x3

def moreSections : UInt16 := 0x8

def zeroedLocals : UInt16 := 0x10

def fatSize : Nat := 12

def tinyMaxCode : Nat := 63

def tinyMaxStack : UInt16 := 8

def fatMaxCode : Nat := 0x7FFFFFFF

def isTiny (header : Header) : Bool := header.flags % 4 == tinyFormat

def size (header : Header) : Nat := if header.isTiny then 1 else fatSize

def hasSections (header : Header) : Bool :=
  !header.isTiny && header.flags &&& moreSections != 0

def initLocals (header : Header) : Bool :=
  !header.isTiny && header.flags &&& zeroedLocals != 0

def tiny (codeSize : Nat) : Except Error Header :=
  if codeSize ≤ tinyMaxCode then
    .ok ⟨tinyFormat, tinyMaxStack, UInt32.ofNat codeSize, 0⟩
  else .error (.invalidBody (.tinyCodeSize codeSize))

/-- A fat header. Format and size bits are added to `flags`. -/
def fat (flags maxStack : UInt16) (codeSize localSignature : UInt32) : Header :=
  ⟨0x3000 ||| flags ||| fatFormat, maxStack, codeSize, localSignature⟩

def validate (header : Header) : Except Error Unit :=
  if header.isTiny then
    if header.codeSize.toNat ≤ tinyMaxCode then .ok ()
    else .error (.invalidBody .tinyHeader)
  else if header.flags % 8 != fatFormat then .error (.invalidBody .headerKind)
  else if header.flags / 0x1000 != 3 then .error (.invalidBody .headerSize)
  else if fatMaxCode < header.codeSize.toNat then .error (.invalidBody .codeSize)
  else if header.localSignature != 0 &&
      Token.table ⟨header.localSignature⟩ != Token.standaloneSignatureTable then
    .error (.invalidBody .localSignature)
  else .ok ()

def encode (header : Header) : Except Error Bytes := do
  header.validate
  if header.isTiny then
    return [UInt8.ofNat (header.codeSize.toNat * 4 + 2)]
  else
    return bytesOfUInt16 header.flags ++ bytesOfUInt16 header.maxStack ++
      bytesOfUInt32 header.codeSize ++ bytesOfUInt32 header.localSignature

def read : Reader Header := do
  let first ← Reader.peekByte
  if first % 4 == 2 then
    Reader.skip 1
    Reader.check (tiny (first.toNat / 4))
  else if first % 8 == 3 then
    let flags ← Reader.uint16
    let maxStack ← Reader.uint16
    let codeSize ← Reader.uint32
    let localSignature ← Reader.uint32
    let header : Header := ⟨flags, maxStack, codeSize, localSignature⟩
    Reader.check header.validate
    return header
  else
    throw (.invalidBody .headerKind)

/-- The header size that the first one or two bytes of a record announce. A fat header gives its
size in dwords, whatever it is. -/
def announcedSize : Bytes → Except Error Nat
  | [] => .error .outOfBounds
  | first :: rest =>
      if first % 4 == 2 then .ok 1
      else if first % 8 == 3 then
        match rest with
        | [] => .error .outOfBounds
        | second :: _ => .ok (4 * (second.toNat / 16))
      else .error (.invalidBody .headerKind)

end Header

end CilRecovery.Method
