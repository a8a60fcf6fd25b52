import CilRecovery.Image
import CilRecovery.MethodStream
import CilRecovery.WordMap

/-!
# Method bodies that come out of a recovery

Recovered bodies by token, native code with a managed equivalent, and native code without one.
-/

set_option autoImplicit false

namespace CilRecovery

/-!
## Recovered methods

The table that a recovery hands to the writer of the output: one method body for each token,
whether it came from a method stream or from a helper.
-/

structure RecoveredMethod where
  token : Token
  address : UInt32
  body : Method.Body
  deriving DecidableEq

/-- A method with the header and the sections of `prior` and new code. A tiny header is
widened if the code does not fit. -/
def RecoveredMethod.withCode (token : Token) (address : UInt32) (prior : Method.Body)
    (code : Bytes) : Except Error RecoveredMethod :=
  if UInt32.size ≤ code.length then .error (.invalidBody .codeTooLarge)
  else
    let codeSize := UInt32.ofNat code.length
    let header :=
      if prior.header.isTiny && Method.Header.tinyMaxCode < code.length then
        Method.Header.fat 0 Method.Header.tinyMaxStack codeSize 0
      else { prior.header with codeSize }
    .ok ⟨token, address, ⟨header, code, prior.sections⟩⟩

abbrev MethodTable := WordMap RecoveredMethod

namespace MethodTable

def add (table : MethodTable) (method : RecoveredMethod) : MethodTable :=
  table.insert method.token.value method

def get? (table : MethodTable) (token : Token) : Option RecoveredMethod := table.find? token.value

end MethodTable

/-!
## Native method bodies

Some methods of a protected program are native code. Where that only returns a constant, it is
replaced by equivalent managed code; everything else is opaque.
-/

/-- A pattern of bytes, of which some may be any byte. -/
abbrev BytePattern := List (Option UInt8)

/-- Whether code has the length of a pattern and agrees with each byte that it fixes. -/
def BytePattern.accepts : BytePattern → Bytes → Bool
  | [], [] => true
  | expected :: pattern, byte :: code =>
      expected.all (· == byte) && BytePattern.accepts pattern code
  | _, _ => false

inductive NativeStub
  | returnConstant (value : UInt32)
  | returnZero
  | opaqueCode
  deriving DecidableEq

namespace NativeStub

/-- A frame around `mov eax, imm32`. -/
def constantPattern : BytePattern :=
  [some 0x55, some 0x8B, some 0xEC, some 0xB8, none, none, none, none, some 0x5D, some 0xC3]

/-- A frame around `xor eax, eax`. -/
def zeroPattern : BytePattern :=
  [some 0x55, some 0x8B, some 0xEC, some 0x33, some 0xC0, some 0x5D, some 0xC3]

/-- Managed code that throws: it stands for opaque code. -/
def placeholder : Bytes := [0x20, 0xDE, 0xC0, 0xAD, 0xDE, 0x6D, 0x7A]

def classify (code : Bytes) : NativeStub :=
  if constantPattern.accepts code then
    .returnConstant (uint32OfBytes ((code.drop 4).take 4))
  else if zeroPattern.accepts code then .returnZero
  else .opaqueCode

def managedCode : NativeStub → Bytes
  | .returnConstant value => 0x20 :: bytesOfUInt32 value ++ [0x2A]
  | .returnZero => [0x16, 0x2A]
  | .opaqueCode => placeholder

end NativeStub

/-!
## Native bodies that stay encrypted

Native code without a managed equivalent is kept by token. When the output is written, the methods
that are still there are put into a new method stream for the slot of the old one.
-/

abbrev OpaqueTable := WordMap Bytes

/-- The method index from which on the code of a method record is native. -/
def nativeIndexBase : UInt32 := 0x70000000

namespace OpaqueTable

def keep (table : OpaqueTable) (token : Token) (code : Bytes) : OpaqueTable :=
  table.insert token.value code

def get? (table : OpaqueTable) (token : Token) : Option Bytes := table.find? token.value

def toList (table : OpaqueTable) : List (Token × Bytes) :=
  table.entries.map fun (token, code) => (⟨token⟩, code)

/-- Checks that an image still has every method. -/
def rebind (table : OpaqueTable) (image : Image) : Except Error Unit :=
  match table.toList.find? fun (token, _) => !image.containsMethod token with
  | some (token, _) => .error (.methodNotFound token)
  | none => .ok ()

def streamLength : List (Token × Bytes) → Nat
  | [] => 12
  | (_, code) :: rest => 12 + code.length + streamLength rest

end OpaqueTable

end CilRecovery
