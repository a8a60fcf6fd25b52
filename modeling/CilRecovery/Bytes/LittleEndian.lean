import CilRecovery.Bytes

/-!
# Little-endian words

Fixed-width integers stored with the least significant byte first. Encoding to a width keeps the
value modulo the number of values that fit, and decoding the encoding gives that residue back.
-/

set_option autoImplicit false

namespace CilRecovery

namespace LittleEndian

/-- The number whose base-256 digits are `bytes`, the least significant first. -/
def decode : Bytes → Nat
  | [] => 0
  | byte :: rest => byte.toNat + 256 * decode rest

/-- The `width` lowest base-256 digits of `value`, the least significant first. -/
def encode : (width : Nat) → (value : Nat) → Bytes
  | 0, _ => []
  | width + 1, value => UInt8.ofNat value :: encode width (value / 256)

def capacity : (width : Nat) → Nat
  | 0 => 1
  | width + 1 => 256 * capacity width

@[simp] theorem length_encode (width value : Nat) : (encode width value).length = width := by
  induction width generalizing value with
  | zero => rfl
  | succ width ih => simp [encode, ih]

theorem decode_lt (bytes : Bytes) : decode bytes < capacity bytes.length := by
  induction bytes with
  | nil => simp [decode, capacity]
  | cons byte rest ih =>
      have small : byte.toNat < 256 := byte.toNat_lt
      simp only [decode, List.length_cons, capacity]
      omega

/-- A number that does not fit its width loses the digits above it. -/
theorem decode_encode (width value : Nat) :
    decode (encode width value) = value % capacity width := by
  induction width generalizing value with
  | zero => simp [encode, decode, capacity, Nat.mod_one]
  | succ width ih =>
      have low : (UInt8.ofNat value).toNat = value % 256 := UInt8.toNat_ofNat'
      rw [encode, decode, capacity, ih, low, Nat.mod_mul]

theorem encode_decode (bytes : Bytes) : encode bytes.length (decode bytes) = bytes := by
  induction bytes with
  | nil => rfl
  | cons byte rest ih =>
      have small : byte.toNat < 256 := byte.toNat_lt
      have quotient : (byte.toNat + 256 * decode rest) / 256 = decode rest := by omega
      have digit : UInt8.ofNat (byte.toNat + 256 * decode rest) = byte := by
        apply UInt8.toNat_inj.mp
        rw [UInt8.toNat_ofNat']
        omega
      simp only [List.length_cons, encode, decode, quotient, digit, ih]

end LittleEndian

/-- The fixed-width integer types of an image: four widths, unsigned and signed. -/
inductive WordKind
  | u8 | i8 | u16 | i16 | u32 | i32 | u64 | i64
  deriving DecidableEq

namespace WordKind

def width : WordKind → Nat
  | .u8 | .i8 => 1
  | .u16 | .i16 => 2
  | .u32 | .i32 => 4
  | .u64 | .i64 => 8

def isSigned : WordKind → Bool
  | .i8 | .i16 | .i32 | .i64 => true
  | .u8 | .u16 | .u32 | .u64 => false

def range (kind : WordKind) : Nat := LittleEndian.capacity kind.width

/-- The integer that an unsigned reading stands for: two's complement when signed. -/
def interpret (kind : WordKind) (raw : Nat) : Int :=
  if kind.isSigned && kind.range ≤ 2 * raw then (raw : Int) - kind.range else raw

/-- The bytes of a value, taken modulo the range of the type. -/
def encode (kind : WordKind) (value : Int) : Bytes :=
  LittleEndian.encode kind.width (value % kind.range).toNat

def decode (kind : WordKind) (bytes : Bytes) : Int := kind.interpret (LittleEndian.decode bytes)

end WordKind

def bytesOfUInt16 (value : UInt16) : Bytes := LittleEndian.encode 2 value.toNat

def bytesOfUInt32 (value : UInt32) : Bytes := LittleEndian.encode 4 value.toNat

def bytesOfUInt64 (value : UInt64) : Bytes := LittleEndian.encode 8 value.toNat

/-- The 32-bit word with the given bytes; more than four are taken modulo `2 ^ 32`. -/
def uint32OfBytes (bytes : Bytes) : UInt32 := UInt32.ofNat (LittleEndian.decode bytes)

/-- The words of complete groups of four bytes. Trailing bytes are dropped. -/
def wordsOfBytes (data : Bytes) : List UInt32 := (data.chunks 4).map uint32OfBytes

def bytesOfWords (words : List UInt32) : Bytes := words.flatMap bytesOfUInt32

@[simp] theorem length_bytesOfUInt16 (value : UInt16) : (bytesOfUInt16 value).length = 2 :=
  LittleEndian.length_encode 2 _

@[simp] theorem length_bytesOfUInt32 (value : UInt32) : (bytesOfUInt32 value).length = 4 :=
  LittleEndian.length_encode 4 _

@[simp] theorem length_bytesOfUInt64 (value : UInt64) : (bytesOfUInt64 value).length = 8 :=
  LittleEndian.length_encode 8 _

@[simp] theorem decode_bytesOfUInt16 (value : UInt16) :
    LittleEndian.decode (bytesOfUInt16 value) = value.toNat := by
  rw [bytesOfUInt16, LittleEndian.decode_encode]
  exact Nat.mod_eq_of_lt value.toNat_lt

@[simp] theorem decode_bytesOfUInt32 (value : UInt32) :
    LittleEndian.decode (bytesOfUInt32 value) = value.toNat := by
  rw [bytesOfUInt32, LittleEndian.decode_encode]
  exact Nat.mod_eq_of_lt value.toNat_lt

theorem bytesOfUInt16_ofNat_decode {bytes : Bytes} (length : bytes.length = 2) :
    bytesOfUInt16 (UInt16.ofNat (LittleEndian.decode bytes)) = bytes := by
  have small := LittleEndian.decode_lt bytes
  rw [length] at small
  rw [bytesOfUInt16, UInt16.toNat_ofNat_of_lt' small, ← length, LittleEndian.encode_decode]

theorem bytesOfUInt32_ofNat_decode {bytes : Bytes} (length : bytes.length = 4) :
    bytesOfUInt32 (UInt32.ofNat (LittleEndian.decode bytes)) = bytes := by
  have small := LittleEndian.decode_lt bytes
  rw [length] at small
  rw [bytesOfUInt32, UInt32.toNat_ofNat_of_lt' small, ← length, LittleEndian.encode_decode]

end CilRecovery
