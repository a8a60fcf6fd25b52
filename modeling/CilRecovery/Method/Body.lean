import CilRecovery.Method.Header
import CilRecovery.Method.Section

/-!
# Method records

A record is a header, the code it announces and, for fat headers that say so, a chain of sections
on the next multiple of four. Reading is strict: what is accepted is exactly what the runtime
accepts.
-/

set_option autoImplicit false

namespace CilRecovery.Method

/-- A method record. `sections` is the exact span of the chain, alignment left out. -/
structure Body where
  header : Header
  code : Bytes
  sections : Option Bytes
  deriving DecidableEq

namespace Body

/-- Reads a record. Sections are aligned relative to the start of the buffer. -/
def read : Reader Body := Reader.atomically do
  let header ← Header.read
  let code ← Reader.take header.codeSize.toNat
  if header.hasSections then
    let span ← Section.skipChain
    return ⟨header, code, some span⟩
  else
    return ⟨header, code, none⟩

/-- The record at the start of the data. What follows it does not matter. -/
def parse (data : Bytes) : Except Error Body := read.decode data

def verify (data : Bytes) : Bool := (parse data).isOk

/-- The record of the given parts, tiny whenever a tiny header can express them. -/
def ofParts (maxStack : UInt16) (localSignature : UInt32) (zeroedLocals : Bool) (code : Bytes)
    (sections : Option Bytes) : Except Error Body := do
  if UInt32.size ≤ code.length then throw (.invalidBody .codeTooLarge)
  let fitsTiny := code.length ≤ Header.tinyMaxCode && maxStack ≤ Header.tinyMaxStack &&
    localSignature == 0 && !zeroedLocals && sections.isNone
  let header ←
    if fitsTiny then Header.tiny code.length
    else
      let localsFlag := if zeroedLocals then Header.zeroedLocals else 0
      let sectionsFlag := if sections.isSome then Header.moreSections else 0
      pure (Header.fat (localsFlag ||| sectionsFlag) maxStack (UInt32.ofNat code.length)
        localSignature)
  header.validate
  return ⟨header, code, sections⟩

/-- The number of bytes that the record takes from an aligned position. -/
def totalSize (body : Body) : Nat :=
  let codeEnd := body.header.size + body.code.length
  match body.sections with
  | some span => alignFour codeEnd + span.length
  | none => codeEnd

/-- The bytes of a record, zeros in the alignment gap. -/
def encode (body : Body) : Except Error Bytes := do
  if body.code.length != body.header.codeSize.toNat then throw (.invalidBody .codeLength)
  if body.header.hasSections != body.sections.isSome then throw (.invalidBody .sectionPresence)
  let header ← body.header.encode
  let start := header ++ body.code
  match body.sections with
  | some span => return start ++ Bytes.zeros (paddingTo 4 start.length) ++ span
  | none => return start

def clauses (body : Body) : Except Error (List Clause) :=
  match body.sections with
  | some span => decodeClauses span
  | none => .ok []

end Body

end CilRecovery.Method
