import CilRecovery.Cipher.Block
import CilRecovery.Json
import CilRecovery.Oracle.Message
import CilRecovery.Text
import CilRecovery.Vocabulary

/-!
# Errors

An error is a cause. Its wording, its family and its severity are functions of the cause: the
family says which part of a recovery gave up, the severity what a caller should conclude from it.
-/

set_option autoImplicit false

namespace CilRecovery

inductive BodyFault
  | headerKind
  | headerSize
  | codeSize
  | localSignature
  | tinyCodeSize (size : Nat)
  | tinyHeader
  | sectionKind
  | sectionBits
  | codeLength
  | sectionPresence
  | codeTooLarge
  | described (text : String)
  deriving DecidableEq

def BodyFault.message : BodyFault → String
  | .headerKind => "Invalid method header type"
  | .headerSize => "Invalid fat method header size"
  | .codeSize => "Invalid code size"
  | .localSignature => "Invalid local var sig token"
  | .tinyCodeSize size => s!"Code size {size} does not fit a tiny header"
  | .tinyHeader => "Tiny header with oversized code"
  | .sectionKind => "Not an exception section"
  | .sectionBits => "Invalid bits set"
  | .codeLength => "Code length does not match header"
  | .sectionPresence => "Extra sections do not match the header flags"
  | .codeTooLarge => "Code too large"
  | .described text => text

inductive Counter
  | patches | dwords | methodSize | resourceEntries | resourceLength
  deriving DecidableEq

def Counter.name : Counter → String
  | .patches => "patch count"
  | .dwords => "dword count"
  | .methodSize => "method size"
  | .resourceEntries => "resource entry count"
  | .resourceLength => "resource payload length"

inductive Malformation
  | compressedLead (lead : UInt8)
  | compressedRange (value : UInt32)
  | sevenBitOverflow (bytes : Nat)
  | invalidText (offset : Nat) (fault : Utf8.Fault)
  | negative (counter : Counter) (count : Int)
  | patchArity (offsets values : Nat)
  | patchTableSize (entries : Nat)
  | patchValueSize (bytes : Nat)
  | notMethodToken (token : Token)
  | unpairedSurrogate (method : Token)
  | payloadMismatch (scheme : SchemeKind) (payload : PayloadKind)
  | described (text : String)
  deriving DecidableEq

def Malformation.message : Malformation → String
  | .compressedLead lead => s!"Invalid compressed uint - {lead.toNat}"
  | .compressedRange value => s!"Value too large for compressed uint - {value.toNat}"
  | .sevenBitOverflow bytes => s!"7-bit encoded integer overflow after {bytes} bytes"
  | .invalidText offset fault => s!"Invalid UTF-8 string at offset {offset} - {fault.message}"
  | .negative counter count => s!"Negative {counter.name} {count}"
  | .patchArity offsets values => s!"Patch table has {offsets} offsets but {values} values"
  | .patchTableSize entries => s!"Unexpected patch table size {entries}"
  | .patchValueSize bytes => s!"Decrypted patch values are {bytes} bytes, not a multiple of 4"
  | .notMethodToken token => s!"{token.display} is not a method token"
  | .unpairedSurrogate method => s!"Decrypted string of {method.display} is not valid UTF-16"
  | .payloadMismatch scheme payload =>
      s!"{scheme.name} scheme cannot apply a {payload.name} payload"
  | .described text => text

inductive CipherFault
  | keySize (cipher : CipherKind) (bytes : Nat)
  | partialBlocks (cipher : CipherKind) (bytes : Nat)
  | shortVector (cipher : CipherKind) (bytes : Nat)
  | badPadding (cipher : CipherKind)
  | described (text : String)
  deriving DecidableEq

def CipherFault.message : CipherFault → String
  | .keySize cipher bytes => s!"Unsupported {cipher.name} key size: {bytes} bytes"
  | .partialBlocks cipher bytes =>
      s!"{cipher.name} ciphertext of {bytes} bytes is not a whole number of " ++
        s!"{cipher.blockSize}-byte blocks"
  | .shortVector cipher bytes => s!"{cipher.name} IV too short: {bytes} bytes"
  | .badPadding cipher => s!"Invalid {cipher.name} padding"
  | .described text => text

inductive InflateFault
  | incomplete
  | corrupt
  | described (text : String)
  deriving DecidableEq

def InflateFault.message : InflateFault → String
  | .incomplete => "Incomplete deflate stream"
  | .corrupt => "corrupt deflate stream"
  | .described text => text

inductive MissingItem
  | resource (name : String)
  | stringDecrypter (method : Token)
  | helper (runtime : Oracle.Runtime)
  | described (text : String)
  deriving DecidableEq

def MissingItem.message : MissingItem → String
  | .resource name => s!"resource '{name}'"
  | .stringDecrypter method => s!"string decrypter {method.display}"
  | .helper runtime => s!"oracle helper for runtime {runtime.name}"
  | .described text => text

inductive ProtocolFault
  | outOfOrder (phase : Oracle.Phase) (next : Oracle.Step)
  | unexpected (response : Oracle.Response)
  | reported (message : String)
  | wrongRuntime (actual needed : Oracle.Runtime)
  | messageSize (bytes limit : Nat)
  | channelClosed
  | helperClosed
  | described (text : String)
  deriving DecidableEq

def ProtocolFault.message : ProtocolFault → String
  | .outOfOrder phase next => s!"Request not allowed in state {phase.name}/{next.name}"
  | .unexpected response => s!"Unexpected response {response.describe}"
  | .reported message => message
  | .wrongRuntime actual needed => s!"Helper runs {actual.name}, target needs {needed.name}"
  | .messageSize bytes limit => s!"Message too large: {bytes} bytes (max {limit})"
  | .channelClosed => "Channel is closed"
  | .helperClosed => "Helper closed the channel"
  | .described text => text

/-- How reading or writing outside of memory failed. -/
inductive FileFault
  | endOfData
  | noProgram
  | brokenPipe
  | described (text : String)
  deriving DecidableEq

def FileFault.message : FileFault → String
  | .endOfData => "failed to fill whole buffer"
  | .noProgram => "No such file or directory (os error 2)"
  | .brokenPipe => "Broken pipe (os error 32)"
  | .described text => text

inductive ExecutableFault
  | truncated
  | dosSignature
  | imageSignature
  | overlappingHeaders
  | optionalHeader
  | sectionName
  | unmappedAddress
  | text
  | table
  deriving DecidableEq

def ExecutableFault.message : ExecutableFault → String
  | .truncated => "headers end early"
  | .dosSignature => "no DOS signature"
  | .imageSignature => "no image signature"
  | .overlappingHeaders => "headers overlap"
  | .optionalHeader => "unknown optional header"
  | .sectionName => "section name is no index"
  | .unmappedAddress => "no section holds the address"
  | .text => "no text"
  | .table => "table does not have its form"

inductive Error
  | invalidBody (fault : BodyFault)
  | malformed (fault : Malformation)
  /-- A method stream whose detected layout its records do not follow. -/
  | layoutMismatch (format : MethodStream.Format) (cause : Error)
  | outOfBounds
  | decryption (fault : CipherFault)
  | decompression (fault : InflateFault)
  | addressMiss (address : UInt32)
  | notFound (item : MissingItem)
  | protocol (stage : Oracle.Stage) (fault : ProtocolFault)
  /-- Any other error that surfaced while talking to a helper. -/
  | oracleFailure (stage : Oracle.Stage) (cause : Error)
  | oracleTimeout (stage : Oracle.Stage)
  | slotMismatch (expected actual : Nat)
  | methodNotFound (token : Token)
  | file (fault : FileFault)
  | serialization (fault : Json.Fault)
  | executable (fault : ExecutableFault)
  deriving DecidableEq

namespace Error

def message : Error → String
  | invalidBody fault => s!"Invalid method body - {fault.message}"
  | malformed fault => s!"Malformed - {fault.message}"
  | layoutMismatch format cause =>
      s!"Malformed - Method stream does not parse as {format.name} - {cause.message}"
  | outOfBounds => "Out of Bound access would have occurred!"
  | decryption fault => s!"Decryption failed - {fault.message}"
  | decompression fault => s!"Decompression failed - {fault.message}"
  | addressMiss address => s!"No method owns code address {Hex.upper32 address}"
  | notFound item => s!"Not found - {item.message}"
  | protocol stage fault => s!"Oracle protocol fault during '{stage.name}': {fault.message}"
  | oracleFailure stage cause => s!"Oracle protocol fault during '{stage.name}': {cause.message}"
  | oracleTimeout stage => s!"Oracle timed out during '{stage.name}'"
  | slotMismatch expected actual =>
      s!"Re-encrypted payload is {actual} bytes, but the resource slot holds {expected}"
  | methodNotFound token => s!"Could not find method {token.display}"
  | file fault => fault.message
  | serialization fault => fault.message
  | executable fault => fault.message

inductive Family
  | invalidMethodBody | malformed | outOfBounds | decryption | decompression | addressMiss
  | notFound | oracleProtocol | oracleTimeout | consistency | methodNotFound
  | file | serialization | executable
  deriving DecidableEq

def family : Error → Family
  | .invalidBody _ => .invalidMethodBody
  | .malformed _ | .layoutMismatch _ _ => .malformed
  | .outOfBounds => .outOfBounds
  | .decryption _ => .decryption
  | .decompression _ => .decompression
  | .addressMiss _ => .addressMiss
  | .notFound _ => .notFound
  | .protocol _ _ | .oracleFailure _ _ => .oracleProtocol
  | .oracleTimeout _ => .oracleTimeout
  | .slotMismatch _ _ => .consistency
  | .methodNotFound _ => .methodNotFound
  | .file _ => .file
  | .serialization _ => .serialization
  | .executable _ => .executable

inductive Severity
  /-- The protection that was looked for is not there. -/
  | notApplicable
  /-- The protection is there, but it could not be undone. -/
  | failed
  /-- Nothing more can be done with this file. -/
  | fatal
  deriving DecidableEq

def Family.severity : Family → Severity
  | .notFound | .invalidMethodBody | .malformed | .outOfBounds => .notApplicable
  | .oracleProtocol | .oracleTimeout | .consistency | .methodNotFound => .fatal
  | .decryption | .decompression | .addressMiss | .file | .serialization | .executable => .failed

def severity (error : Error) : Severity := error.family.severity

end Error

end CilRecovery
