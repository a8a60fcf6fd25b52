import CilRecovery.Proofs.Bytes
import CilRecovery.Proofs.MethodStream.Layout

/-!
# Telling written streams apart

A stream that was written in a layout reads as that layout. It is also recognised as that layout,
unless its leading dword patches look like a table of method tokens.
-/

set_option autoImplicit false

namespace CilRecovery.MethodStream

open Reader (Reads ReadsToEnd)

/-! ## Records -/

def DirectWrite.record (write : DirectWrite) : Record := .write write.address write.data

def DwordGroup.records (group : DwordGroup) : List Record := group.dwords.map Dword.record

/-- Token tables and dword patches alike. -/
def encodePairs (pairs : List (UInt32 × UInt32)) : Bytes :=
  pairs.flatMap fun pair => bytesOfUInt32 pair.1 ++ bytesOfUInt32 pair.2

theorem encodeDwords_eq (dwords : List Dword) :
    encodeDwords dwords = encodePairs (dwords.map fun dword => (dword.address, dword.value)) := by
  rw [encodePairs, List.flatMap_map]
  rfl

theorem encodeTable_eq (table : List (Token × UInt32)) :
    (table.flatMap fun (token, address) => bytesOfUInt32 token.value ++ bytesOfUInt32 address) =
      encodePairs (table.map fun pair => (pair.1.value, pair.2)) := by
  rw [encodePairs, List.flatMap_map]

/-! ## Streams -/

/-- What is written in one of the three layouts. The count of methods is whatever was stored. -/
inductive Content
  | grouped (mode secondMode : UInt32) (table : List (Token × UInt32)) (dwords : List Dword)
      (groups : List DwordGroup)
  | direct (mode : UInt32) (dwords : List Dword) (writes : List DirectWrite)
  | indexed (mode total : UInt32) (dwords : List Dword) (entries : List MethodEntry)

namespace Content

def format : Content → Format
  | .grouped .. => .legacyTokenRva
  | .direct .. => .rvaTokenSize
  | .indexed .. => .rvaIndexSize

def encode : Content → Bytes
  | .grouped mode secondMode table dwords groups =>
      encodeGroups mode secondMode table dwords groups
  | .direct mode dwords writes => encodeWrites mode dwords writes
  | .indexed mode total dwords entries =>
      encodeCount dwords.length ++ bytesOfUInt32 mode ++ encodeDwords dwords ++
        bytesOfUInt32 total ++ entries.flatMap MethodEntry.encode

def records : Content → List Record
  | .grouped _ _ _ dwords groups => dwords.map Dword.record ++ groups.flatMap DwordGroup.records
  | .direct _ dwords writes => dwords.map Dword.record ++ writes.map DirectWrite.record
  | .indexed _ _ dwords entries => dwords.map Dword.record ++ entries.map MethodEntry.record

/-- No count or size has its sign bit set, and every direct write has bytes. -/
def Storable : Content → Prop
  | .grouped _ _ table dwords groups =>
      table.length < countLimit ∧ dwords.length < countLimit ∧
        ∀ group ∈ groups, 2 * group.dwords.length < countLimit
  | .direct _ dwords writes =>
      dwords.length < countLimit ∧
        ∀ write ∈ writes, write.data ≠ [] ∧ write.data.length < countLimit
  | .indexed _ _ dwords entries =>
      dwords.length < countLimit ∧ ∀ entry ∈ entries, entry.code.length < countLimit

def leadingPairs : Content → List (UInt32 × UInt32)
  | .grouped _ _ table _ _ => table.map fun pair => (pair.1.value, pair.2)
  | .direct _ dwords _ | .indexed _ _ dwords _ =>
      dwords.map fun dword => (dword.address, dword.value)

variable {hints : Hints} {content : Content}

def mode : Content → UInt32
  | .grouped mode .. | .direct mode .. | .indexed mode .. => mode

def header (content : Content) : Bytes :=
  encodeCount content.leadingPairs.length ++ bytesOfUInt32 content.mode

private theorem length_header (content : Content) : content.header.length = 8 := by
  rw [header, List.length_append, encodeCount, LittleEndian.length_encode, length_bytesOfUInt32]

private theorem encode_eq (content : Content) :
    ∃ rest, content.encode = content.header ++ (encodePairs content.leadingPairs ++ rest) := by
  cases content with
  | grouped mode secondMode table dwords groups =>
      simp only [encode, encodeGroups, encodeTable_eq, header, leadingPairs, List.length_map,
        List.append_assoc]
      exact ⟨_, rfl⟩
  | direct mode dwords writes =>
      simp only [encode, encodeWrites, encodeDwords_eq, header, leadingPairs, List.length_map,
        List.append_assoc]
      exact ⟨_, rfl⟩
  | indexed mode total dwords entries =>
      simp only [encode, encodeDwords_eq, header, leadingPairs, List.length_map,
        List.append_assoc]
      exact ⟨_, rfl⟩

end Content

end CilRecovery.MethodStream
