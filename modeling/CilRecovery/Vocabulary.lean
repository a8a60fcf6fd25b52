import CilRecovery.Text

/-!
# Tokens and names

What errors refer to: rows of metadata tables, layouts of method streams, and the kinds of
protections and payloads.
-/

set_option autoImplicit false

namespace CilRecovery

/-!
## Metadata tokens

A token names a row of a metadata table: the high byte is the table, the low 24 bits the
one-based row.
-/

structure Token where
  value : UInt32
  deriving DecidableEq

namespace Token

def methodTable : UInt8 := 0x06

/-- Table tag of standalone signatures, which local variable signatures carry. -/
def standaloneSignatureTable : UInt8 := 0x11

/-- The number of rows that a token can tell apart: what its low 24 bits hold. -/
def rowLimit : Nat := 0x1000000

def table (token : Token) : UInt8 := UInt8.ofNat (token.value.toNat / rowLimit)

/-- The row, zero for none. -/
def row (token : Token) : UInt32 := UInt32.ofNat (token.value.toNat % rowLimit)

def isNull (token : Token) : Bool := token.value == 0

def isMethod (token : Token) : Bool := token.table == methodTable && token.row != 0

/-- The method token of a row. Rows are counted modulo `rowLimit`. -/
def ofMethodRow (row : UInt32) : Token :=
  ⟨UInt32.ofNat (methodTable.toNat * rowLimit + row.toNat % rowLimit)⟩

def display (token : Token) : String := Hex.lower32 token.value

def describe (token : Token) : String :=
  s!"Token({token.display}, table: {Hex.lower8 token.table}, row: {token.row.toNat})"

end Token

end CilRecovery

namespace CilRecovery.MethodStream

/-! ## The three layouts of a method stream -/

inductive Format
  /-- A token table, a second header, then groups of dword patches. -/
  | legacyTokenRva
  /-- Dword patches, then direct writes that carry a token. -/
  | rvaTokenSize
  /-- Dword patches, a count, then method bodies that carry an index. -/
  | rvaIndexSize
  deriving DecidableEq

def Format.name : Format → String
  | .legacyTokenRva => "LegacyTokenRva"
  | .rvaTokenSize => "RvaTokenSize"
  | .rvaIndexSize => "RvaIndexSize"

end CilRecovery.MethodStream

namespace CilRecovery

/-! ## Names of schemes and payloads -/

inductive SchemeKind
  | nativeMethods
  | resource
  | memoryPatch
  | oracle
  deriving DecidableEq

namespace SchemeKind

def name : SchemeKind → String
  | .nativeMethods => "native-methods"
  | .resource => "resource"
  | .memoryPatch => "memory-patch"
  | .oracle => "oracle"

def ofName? (text : String) : Option SchemeKind :=
  Keyword.find? ([nativeMethods, resource, memoryPatch, oracle].map fun kind => (kind.name, kind))
    text

end SchemeKind

inductive PayloadKind
  | nothing
  | methodStream
  | resource
  | methods
  deriving DecidableEq

def PayloadKind.name : PayloadKind → String
  | .nothing => "Nothing"
  | .methodStream => "MethodStream"
  | .resource => "Resource"
  | .methods => "Methods"

end CilRecovery
