import CilRecovery.Bytes.LittleEndian

/-!
# XTEA and XXTEA

Two ciphers on 32-bit words with a key of four words. All arithmetic is modulo `2 ^ 32`. XTEA
works on pairs, XXTEA on blocks of any number of words, each of which is mixed with both of its
neighbours. Encryption stands beside decryption because it defines what decryption undoes.
-/

set_option autoImplicit false

namespace CilRecovery

structure TeaKey where
  first : UInt32
  second : UInt32
  third : UInt32
  fourth : UInt32
  deriving DecidableEq

def TeaKey.word (key : TeaKey) (index : UInt32) : UInt32 :=
  if index % 4 == 0 then key.first
  else if index % 4 == 1 then key.second
  else if index % 4 == 2 then key.third
  else key.fourth

/-- What the running sum grows by in each round. -/
def teaDelta : UInt32 := 0x9E3779B9

namespace Xtea

/-- The part of a round that depends on the other word of the pair. -/
def mix (word : UInt32) : UInt32 := ((word <<< 4) ^^^ (word >>> 5)) + word

/-- Encrypts for `rounds` rounds, the sum being `sum` before the first. -/
def encryptFrom (key : TeaKey) : (rounds : Nat) → (sum : UInt32) → UInt32 × UInt32 →
    UInt32 × UInt32
  | 0, _, pair => pair
  | rounds + 1, sum, (first, second) =>
      let first := first + (mix second ^^^ (sum + key.word sum))
      let sum := sum + teaDelta
      let second := second + (mix first ^^^ (sum + key.word (sum >>> 11)))
      encryptFrom key rounds sum (first, second)

/-- Decrypts for `rounds` rounds, the sum being `sum` before the first. -/
def decryptFrom (key : TeaKey) : (rounds : Nat) → (sum : UInt32) → UInt32 × UInt32 →
    UInt32 × UInt32
  | 0, _, pair => pair
  | rounds + 1, sum, (first, second) =>
      let second := second - (mix first ^^^ (sum + key.word (sum >>> 11)))
      let sum := sum - teaDelta
      let first := first - (mix second ^^^ (sum + key.word sum))
      decryptFrom key rounds sum (first, second)

def encrypt (key : TeaKey) (rounds : UInt32) (pair : UInt32 × UInt32) : UInt32 × UInt32 :=
  encryptFrom key rounds.toNat 0 pair

def decrypt (key : TeaKey) (rounds : UInt32) (pair : UInt32 × UInt32) : UInt32 × UInt32 :=
  decryptFrom key rounds.toNat (teaDelta * rounds) pair

end Xtea

namespace Xxtea

/-- What is added to the word at an index, from its neighbours before and after it. -/
def mix (key : TeaKey) (sum : UInt32) (index : Nat) (before after : UInt32) : UInt32 :=
  (((before >>> 5) ^^^ (after <<< 2)) + ((after >>> 3) ^^^ (before <<< 4))) ^^^
    ((sum ^^^ after) + (key.word (UInt32.ofNat (index % 4) ^^^ ((sum >>> 2) % 4)) ^^^ before))

/-- Encrypts the words from `index` on. `before` is the new word before them and `wrap` the new
first word of the block, which follows the last one. -/
def encryptTail (key : TeaKey) (sum : UInt32) (wrap : UInt32) :
    (index : Nat) → (before : UInt32) → List UInt32 → List UInt32
  | _, _, [] => []
  | index, before, [last] => [last + mix key sum index before wrap]
  | index, before, word :: after :: rest =>
      let word := word + mix key sum index before after
      word :: encryptTail key sum wrap (index + 1) word (after :: rest)

def encryptRound (key : TeaKey) (sum : UInt32) : List UInt32 → List UInt32
  | first :: after :: rest =>
      let first := first + mix key sum 0 ((after :: rest).getLastD 0) after
      first :: encryptTail key sum first 1 first (after :: rest)
  | block => block

/-- Decrypts the words from `index` on, the last one first. `before` is the old word before them
and `wrap` the old first word of the block, which follows the last one. -/
def decryptTail (key : TeaKey) (sum : UInt32) (wrap : UInt32) :
    (index : Nat) → (before : UInt32) → List UInt32 → List UInt32
  | _, _, [] => []
  | index, before, word :: rest =>
      let rest := decryptTail key sum wrap (index + 1) word rest
      (word - mix key sum index before (rest.headD wrap)) :: rest

/-- One round of decryption, from the last word to the first. A single word is its own
neighbour. -/
def decryptRound (key : TeaKey) (sum : UInt32) : List UInt32 → List UInt32
  | [] => []
  | first :: rest =>
      let rest := decryptTail key sum first 1 first rest
      (first - mix key sum 0 (rest.getLastD first) (rest.headD first)) :: rest

def roundCount (words : Nat) : Nat := 6 + 52 / words

/-- Encrypts for `rounds` rounds, the sum being `sum` before the first. -/
def encryptFrom (key : TeaKey) : (rounds : Nat) → (sum : UInt32) → List UInt32 → List UInt32
  | 0, _, block => block
  | rounds + 1, sum, block =>
      encryptFrom key rounds (sum + teaDelta) (encryptRound key (sum + teaDelta) block)

/-- Decrypts for `rounds` rounds, the sum being `sum` in the first. -/
def decryptFrom (key : TeaKey) : (rounds : Nat) → (sum : UInt32) → List UInt32 → List UInt32
  | 0, _, block => block
  | rounds + 1, sum, block => decryptFrom key rounds (sum - teaDelta) (decryptRound key sum block)

/-- Encrypts a block. Blocks of fewer than two words are left as they are. -/
def encrypt (key : TeaKey) (block : List UInt32) : List UInt32 :=
  if block.length < 2 then block else encryptFrom key (roundCount block.length) 0 block

def decrypt (key : TeaKey) (block : List UInt32) : List UInt32 :=
  if block.isEmpty then block
  else
    let rounds := roundCount block.length
    decryptFrom key rounds (UInt32.ofNat rounds * teaDelta) block

end Xxtea

end CilRecovery
