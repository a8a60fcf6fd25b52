import CilRecovery.Reader

/-!
# Messages on the wire

Messages are JSON documents, and each stands in a frame of its own.
-/

set_option autoImplicit false

namespace CilRecovery.Oracle.Wire

/-!
## Messages as documents

A message is an object with a name and, if the message has content, that content. Objects may
list their members in any order and may have further ones, which are ignored; a member that is
looked for must be there exactly once. An array of the name and the content is read as well.
-/

open Json (Fault)

/-! ### Reading -/

def misfit {α : Type} (expected : String) : Except Fault α := .error (.shape expected)

def readText : Json → Except Fault String
  | .string (some text) => .ok text
  | _ => misfit "a string"

def readBelow (bound : Nat) : Json → Except Fault Nat
  | .number (.integer value) =>
      if 0 ≤ value ∧ value < bound then .ok value.toNat else misfit "an integer in range"
  | _ => misfit "an integer"

def readWord (document : Json) : Except Fault UInt32 :=
  (readBelow UInt32.size document).map UInt32.ofNat

def readByte (document : Json) : Except Fault UInt8 :=
  (readBelow UInt8.size document).map UInt8.ofNat

def readList {α : Type} (item : Json → Except Fault α) : Json → Except Fault (List α)
  | .array items => items.mapM item
  | _ => misfit "an array"

def readBytes : Json → Except Fault Bytes := readList readByte

/-- The members of an object, whose keys must all be text. -/
def readMembers : Json → Except Fault (List (String × Json))
  | .object members =>
      members.mapM fun (key, item) =>
        match key with
        | some key => .ok (key, item)
        | none => misfit "a textual key"
  | _ => misfit "an object"

def optionalMember (name : String) (members : List (String × Json)) :
    Except Fault (Option Json) :=
  match members.filter (·.1 == name) with
  | [] => .ok none
  | [(_, item)] => .ok (some item)
  | _ => misfit s!"one member {name}"

def requiredMember (name : String) (members : List (String × Json)) : Except Fault Json := do
  match ← optionalMember name members with
  | some item => return item
  | none => misfit s!"a member {name}"

/-- The name of a choice without content: the name itself, or an object in which it has a null
value. In content that was kept an empty object is a null value too. -/
def readChoice (isKept : Bool) : Json → Except Fault String
  | .string (some name) => .ok name
  | .object [(some name, .null)] => .ok name
  | .object [(some name, .object [])] => if isKept then .ok name else misfit "a null value"
  | _ => misfit "a name"

def readRuntime (isKept : Bool) (document : Json) : Except Fault Runtime := do
  let name ← readChoice isKept document
  if name = "clr20" then return .clr20
  else if name = "clr40" then return .clr40
  else misfit "a runtime"

/-- The name and the content of a message, and whether the content had to be kept because it
stands before the name. -/
structure Envelope where
  name : String
  content : Option Json
  isKept : Bool

/-- The nesting depth of content that stands before its name, which has to be kept until the name
is known. -/
def keptDepth : Nat := 126

/-- Reads an envelope with the given member names. In an array the name must be a string. -/
def readEnvelope (nameKey contentKey : String) : Json → Except Fault Envelope
  | .array [name, content] => return ⟨← readText name, some content, false⟩
  | .object members => do
      let members ← readMembers (.object members)
      let name ← readChoice false (← requiredMember nameKey members)
      let content ← optionalMember contentKey members
      let order := members.filter fun member => member.1 == nameKey || member.1 == contentKey
      match order with
      | (first, item) :: _ =>
          let isKept := first == contentKey
          if isKept && !item.isKept keptDepth then misfit "content of bounded depth"
          else return ⟨name, content, isKept⟩
      | [] => return ⟨name, content, false⟩
  | _ => misfit "a message"

def Envelope.required (envelope : Envelope) : Except Fault Json :=
  match envelope.content with
  | some content => .ok content
  | none => misfit "content"

def Envelope.checkEmpty (envelope : Envelope) : Except Fault Unit :=
  match envelope.content with
  | none | some .null => .ok ()
  | some _ => misfit "no content"

def readTarget : Json → Except Fault TargetSource
  | .object [(some "path", item)] => return .path (← readText item)
  | .object [(some "bytes", item)] => return .bytes (← readBytes item)
  | _ => misfit "a target"

/-- A captured method: an object, or an array of its fields in order. -/
def readMethod : Json → Except Fault CapturedMethod
  | .array [token, rva, body] => return ⟨← readWord token, ← readWord rva, ← readBytes body⟩
  | document => do
      let members ← readMembers document
      let token ← readWord (← requiredMember "token" members)
      let rva ← readWord (← requiredMember "rva" members)
      let body ← readBytes (← requiredMember "body" members)
      return ⟨token, rva, body⟩

def readRequest (document : Json) : Except Fault Request := do
  let envelope ← readEnvelope "method" "params" document
  if envelope.name = "install_decrypt_hook" then
    let members ← readMembers (← envelope.required)
    return .installHook (← readBytes (← requiredMember "module_cctor_bytes" members))
  else if envelope.name = "load_target" then
    return .loadTarget (← readTarget (← envelope.required))
  else if envelope.name = "decrypt_methods" then
    envelope.checkEmpty
    return .decryptMethods
  else if envelope.name = "shutdown" then
    envelope.checkEmpty
    return .shutdown
  else
    misfit "a request"

def readResponse (document : Json) : Except Fault Response := do
  let envelope ← readEnvelope "result" "data" document
  if envelope.name = "ready" then
    let members ← readMembers (← envelope.required)
    return .ready (← readRuntime envelope.isKept (← requiredMember "runtime" members))
  else if envelope.name = "ack" then
    envelope.checkEmpty
    return .ack
  else if envelope.name = "decrypted_methods" then
    return .decryptedMethods (← readList readMethod (← envelope.required))
  else if envelope.name = "error" then
    let members ← readMembers (← envelope.required)
    return .failed (← readText (← requiredMember "message" members))
  else
    misfit "a response"

/-! ### Writing -/

def bare (nameKey name : String) : Json := Json.ofMembers [(nameKey, Json.ofText name)]

def full (nameKey name contentKey : String) (content : Json) : Json :=
  Json.ofMembers [(nameKey, Json.ofText name), (contentKey, content)]

def writeTarget : TargetSource → Json
  | .path path => Json.ofMembers [("path", Json.ofText path)]
  | .bytes image => Json.ofMembers [("bytes", Json.ofBytes image)]

def writeMethod (method : CapturedMethod) : Json :=
  Json.ofMembers [("token", Json.ofNat method.token.toNat), ("rva", Json.ofNat method.rva.toNat),
    ("body", Json.ofBytes method.body)]

def writeRequest : Request → Json
  | .installHook initializer =>
      full "method" "install_decrypt_hook" "params"
        (Json.ofMembers [("module_cctor_bytes", Json.ofBytes initializer)])
  | .loadTarget target => full "method" "load_target" "params" (writeTarget target)
  | .decryptMethods => bare "method" "decrypt_methods"
  | .shutdown => bare "method" "shutdown"

def writeResponse : Response → Json
  | .ready runtime =>
      full "result" "ready" "data" (Json.ofMembers [("runtime", Json.ofText runtime.name)])
  | .ack => bare "result" "ack"
  | .decryptedMethods methods =>
      full "result" "decrypted_methods" "data" (.array (methods.map writeMethod))
  | .failed message =>
      full "result" "error" "data" (Json.ofMembers [("message", Json.ofText message)])

/-! ### Text -/

def parse {α : Type} (read : Json → Except Fault α) (text : Bytes) : Except Error α :=
  (Json.parse text >>= read).mapError .serialization

def parseRequest : Bytes → Except Error Request := parse readRequest

def parseResponse : Bytes → Except Error Response := parse readResponse

def renderRequest (request : Request) : Bytes := Utf8.encode (writeRequest request).render

def renderResponse (response : Response) : Bytes := Utf8.encode (writeResponse response).render

end CilRecovery.Oracle.Wire

namespace CilRecovery.Oracle.Frame

/-!
## Frames

Each message is preceded by its length in four bytes, the most significant first. Both sides
refuse messages above a limit.
-/

def defaultLimit : Nat := 256 * 1024 * 1024

def encodeLength (length : Nat) : Bytes := (LittleEndian.encode 4 length).reverse

def decodeLength (bytes : Bytes) : Nat := LittleEndian.decode bytes.reverse

/-- Writes a message as a frame. The length and the text are written one after the other, once it
is known that both can be. -/
def write {α : Type} (render : α → Bytes) (limit : Nat) (message : α) : Writer Unit := do
  let text := render message
  if limit < text.length ∨ UInt32.size ≤ text.length then
    throw (.protocol .write (.messageSize text.length limit))
  Writer.put (encodeLength text.length)
  Writer.put text

/-- The message of the first frame of a stream, and the stream after it. A length above the limit
is taken off the stream; a message that ends early takes the whole stream with it. -/
def next (limit : Nat) (stream : Bytes) : Except Error Bytes × Bytes :=
  if stream.length < 4 then (.error (.file .endOfData), [])
  else
    let length := decodeLength (stream.take 4)
    let rest := stream.drop 4
    if limit < length then (.error (.protocol .read (.messageSize length limit)), rest)
    else if rest.length < length then (.error (.file .endOfData), [])
    else (.ok (rest.take length), rest.drop length)

/-- Whether the first frame of a stream can be judged before more of the stream arrives. -/
def isDecided (limit : Nat) (stream : Bytes) : Bool :=
  4 ≤ stream.length &&
    (limit < decodeLength (stream.take 4) ||
      4 + decodeLength (stream.take 4) ≤ stream.length)

def nextMessage {α : Type} (parse : Bytes → Except Error α) (limit : Nat) (stream : Bytes) :
    Except Error α × Bytes :=
  let (message, rest) := next limit stream
  (message >>= parse, rest)

end CilRecovery.Oracle.Frame
