import CilRecovery.Text

/-!
# Block ciphers

The ciphers that a configuration can name, and what a cipher is once its key is applied.
-/

set_option autoImplicit false

namespace CilRecovery

/-! ## Names and sizes -/

inductive CipherKind
  | aes
  | tripleDes
  | des
  deriving DecidableEq

namespace CipherKind

def name : CipherKind → String
  | .aes => "aes"
  | .tripleDes => "tripledes"
  | .des => "des"

def ofName? (text : String) : Option CipherKind :=
  Keyword.find? [("aes", .aes), ("rijndael", .aes), ("tripledes", .tripleDes),
    ("3des", .tripleDes), ("des", .des)] text

/-- Size of a block in bytes, which is also the size of the initialisation vector. -/
def blockSize : CipherKind → Nat
  | .aes => 16
  | .tripleDes | .des => 8

def acceptsKeySize : CipherKind → Nat → Bool
  | .aes, size => size == 16 || size == 24 || size == 32
  | .tripleDes, size => size == 24
  | .des, size => size == 8

end CipherKind

/-!
## Keyed ciphers

A block cipher with its key applied: two functions on blocks of one size. `Lawful` is what a mode
of operation may rely on.
-/

/-- A keyed cipher on byte strings of `blockSize` bytes. -/
structure BlockCipher where
  blockSize : Nat
  encrypt : Bytes → Bytes
  decrypt : Bytes → Bytes

/-- On blocks, both directions keep the size and undo each other. -/
structure BlockCipher.Lawful (cipher : BlockCipher) : Prop where
  length_encrypt : ∀ block : Bytes, block.length = cipher.blockSize →
    (cipher.encrypt block).length = cipher.blockSize
  length_decrypt : ∀ block : Bytes, block.length = cipher.blockSize →
    (cipher.decrypt block).length = cipher.blockSize
  decrypt_encrypt : ∀ block : Bytes, block.length = cipher.blockSize →
    cipher.decrypt (cipher.encrypt block) = block
  encrypt_decrypt : ∀ block : Bytes, block.length = cipher.blockSize →
    cipher.encrypt (cipher.decrypt block) = block

end CilRecovery
