import CilRecovery.Error
import CilRecovery.Text
import CilRecovery.WordMap

/-!
# String decrypters

Each string decrypter of a program has a constant of its own. Its sum with the argument of a call
starts a key that grows by one for each byte; both bytes of a unit are combined with the key and
change places.
-/

set_option autoImplicit false

namespace CilRecovery

namespace RollingKey

def unitOf (high low : UInt8) : UInt16 := (high.toUInt16 <<< 8) ||| low.toUInt16

/-- Decrypts units, the key being `key` for the first byte. -/
def decryptFrom (key : UInt8) : List UInt16 → List UInt16
  | [] => []
  | unit :: rest =>
      unitOf (unit.toUInt8 ^^^ key) ((unit >>> 8).toUInt8 ^^^ (key + 1)) ::
        decryptFrom (key + 2) rest

def encryptFrom (key : UInt8) : List UInt16 → List UInt16
  | [] => []
  | unit :: rest =>
      unitOf (unit.toUInt8 ^^^ (key + 1)) ((unit >>> 8).toUInt8 ^^^ key) ::
        encryptFrom (key + 2) rest

def start (magic value : Int32) : UInt8 := (magic + value).toUInt32.toUInt8

def decrypt (magic value : Int32) (units : List UInt16) : List UInt16 :=
  decryptFrom (start magic value) units

def encrypt (magic value : Int32) (units : List UInt16) : List UInt16 :=
  encryptFrom (start magic value) units

end RollingKey

/-- The constants of the string decrypters of a program, by method token. -/
abbrev StringDecrypters := WordMap Int32

namespace StringDecrypters

def add (decrypters : StringDecrypters) (method : Token) (magic : Int32) : StringDecrypters :=
  decrypters.insert method.value magic

def magic? (decrypters : StringDecrypters) (method : Token) : Option Int32 :=
  decrypters.find? method.value

/-- Decrypts the units of a call as the runtime would, unpaired surrogates included. -/
def decryptUnits (decrypters : StringDecrypters) (method : Token) (units : List UInt16)
    (value : Int32) : Except Error (List UInt16) :=
  match decrypters.magic? method with
  | some magic => .ok (RollingKey.decrypt magic value units)
  | none => .error (.notFound (.stringDecrypter method))

def decrypt (decrypters : StringDecrypters) (method : Token) (encrypted : String)
    (value : Int32) : Except Error String := do
  let units ← decrypters.decryptUnits method (Utf16.encode encrypted) value
  match Utf16.decode units with
  | some text => return text
  | none => throw (.malformed (.unpairedSurrogate method))

end StringDecrypters

end CilRecovery
