import CilRecovery.Cipher.Aes
import CilRecovery.Cipher.Block
import CilRecovery.Cipher.Des
import CilRecovery.Error

/-!
# Payload encryption

Payloads are encrypted with a block cipher in chained mode.
-/

set_option autoImplicit false

namespace CilRecovery.Chained

/-!
## Chained blocks with padding

In chained mode each block is combined with the ciphertext block before it, the first one with
the initialisation vector. The plaintext is padded to whole blocks by bytes that say how many of
them there are, at least one.
-/

def encryptBlocks (cipher : BlockCipher) (previous : Bytes) : List Bytes → List Bytes
  | [] => []
  | block :: rest =>
      let encrypted := cipher.encrypt (block.xor previous)
      encrypted :: encryptBlocks cipher encrypted rest

def decryptBlocks (cipher : BlockCipher) (previous : Bytes) : List Bytes → List Bytes
  | [] => []
  | block :: rest => (cipher.decrypt block).xor previous :: decryptBlocks cipher block rest

/-- Fills the last block up, or adds one if it is full. -/
def pad (blockSize : Nat) (data : Bytes) : Bytes :=
  let count := blockSize - data.length % blockSize
  data ++ List.replicate count (UInt8.ofNat count)

/-- Takes the padding off, if that is what the data ends in. -/
def unpad? (blockSize : Nat) (data : Bytes) : Option Bytes :=
  match data.getLast? with
  | none => none
  | some last =>
      let kept := data.length - last.toNat
      if 1 ≤ last.toNat && last.toNat ≤ blockSize && (data.drop kept).all (· == last) then
        some (data.take kept)
      else none

def encrypt (cipher : BlockCipher) (vector data : Bytes) : Bytes :=
  (encryptBlocks cipher vector ((pad cipher.blockSize data).chunks cipher.blockSize)).flatten

def decrypt? (cipher : BlockCipher) (vector data : Bytes) : Option Bytes :=
  unpad? cipher.blockSize
    (decryptBlocks cipher vector (data.chunks cipher.blockSize)).flatten

end CilRecovery.Chained

namespace CilRecovery.CipherKind

/-!
## Encryption of a payload

Payloads are encrypted with a block cipher in chained mode. Everything that the ciphers cannot
work with is refused, and of a vector that is too long the first bytes are used.
-/

def keyed (kind : CipherKind) (key : Bytes) : BlockCipher :=
  match kind with
  | .aes => Aes.cipher key
  | .tripleDes => Des.tripleCipher key
  | .des => Des.cipher key

def encrypt (kind : CipherKind) (key vector data : Bytes) : Except Error Bytes :=
  if !kind.acceptsKeySize key.length then
    .error (.decryption (.keySize kind key.length))
  else if vector.length < kind.blockSize then
    .error (.decryption (.shortVector kind vector.length))
  else
    .ok (Chained.encrypt (kind.keyed key) (vector.take kind.blockSize) data)

def decrypt (kind : CipherKind) (key vector data : Bytes) : Except Error Bytes :=
  if !kind.acceptsKeySize key.length then
    .error (.decryption (.keySize kind key.length))
  else if data.isEmpty || data.length % kind.blockSize != 0 then
    .error (.decryption (.partialBlocks kind data.length))
  else if vector.length < kind.blockSize then
    .error (.decryption (.shortVector kind vector.length))
  else
    match Chained.decrypt? (kind.keyed key) (vector.take kind.blockSize) data with
    | some plain => .ok plain
    | none => .error (.decryption (.badPadding kind))

end CilRecovery.CipherKind
