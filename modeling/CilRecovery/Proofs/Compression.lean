import CilRecovery.Compression
import CilRecovery.Proofs.Deflate.Inflate
import CilRecovery.Proofs.Deflate.Space

/-!
# Payloads that inflate

A bare stream and a zlib container give back their text only if it fits the space that their own
length calls for. A gzip member gives it back whatever its length.
-/

set_option autoImplicit false

namespace CilRecovery

variable {stream text : Bytes}

/-! ## Containers -/

namespace Checksum

theorem adler32_lt (data : Bytes) : adler32 data < 0x100000000 := by
  have small {sums : Nat × Nat} (both : sums.1 < adlerModulus ∧ sums.2 < adlerModulus) :
      sums.2 * 0x10000 + sums.1 < 0x100000000 := by
    simp only [adlerModulus] at both
    omega
  exact small (List.foldlRecOn
    (motive := fun sums : Nat × Nat => sums.1 < adlerModulus ∧ sums.2 < adlerModulus) data _
    ⟨by decide, by decide⟩ fun _ _ _ _ =>
      ⟨Nat.mod_lt _ (by decide), Nat.mod_lt _ (by decide)⟩)

end Checksum

namespace Deflate

namespace Zlib

/-- The Adler sum of the text, the most significant byte first. -/
def trailer (text : Bytes) : Bytes := (LittleEndian.encode 4 (Checksum.adler32 text)).reverse

theorem trailer_eq (text : Bytes) : ∃ b3 b2 b1 b0, trailer text = [b3, b2, b1, b0] ∧
    ((b3.toNat * 256 + b2.toNat) * 256 + b1.toNat) * 256 + b0.toNat = Checksum.adler32 text := by
  have small := Checksum.adler32_lt text
  refine ⟨_, _, _, _, rfl, ?_⟩
  simp only [UInt8.toNat_ofNat']
  omega

/-- A container whose text fits is inflated and its sum agrees; otherwise the space runs out before
the sum is looked at. -/
theorem inflate_container {method flags : UInt8} (header : isHeader method flags = true)
    (encodes : Encodes [] stream text) (space : Nat) :
    (text.length ≤ space →
        inflate (method :: flags :: (stream ++ trailer text)) space = ⟨none, text, []⟩) ∧
      (¬ text.length ≤ space →
        (inflate (method :: flags :: (stream ++ trailer text)) space).stop = some .full) := by
  rw [inflate, if_pos header]
  constructor
  · intro fits
    obtain ⟨b3, b2, b1, b0, bytes, sum⟩ := trailer_eq text
    have inflated := inflate_append encodes (fits_some.mpr fits) (trailer text)
    rw [bytes] at inflated ⊢
    simp only [inflated, sum, Option.isSome_none, Bool.false_eq_true, if_false, if_true]
  · intro overflows
    have stopped := inflate_full encodes (mt fits_some.mp overflows) (trailer text)
    simp only [stopped, Option.isSome_some, if_true]

end Zlib

namespace Gzip

/-- The checksum of the text and its length. -/
def trailer (text : Bytes) : Bytes :=
  bytesOfUInt32 (Checksum.crc32 text) ++ LittleEndian.encode 4 text.length

@[simp] theorem length_trailer (text : Bytes) : (trailer text).length = 8 := by
  simp [trailer]

theorem crc_trailer (text : Bytes) :
    uint32OfBytes ((trailer text).take 4) = Checksum.crc32 text := by
  rw [trailer, List.take_left' (length_bytesOfUInt32 _), uint32OfBytes, decode_bytesOfUInt32,
    UInt32.ofNat_toNat]

theorem size_trailer (text : Bytes) :
    LittleEndian.decode ((trailer text).drop 4) = text.length % UInt32.size := by
  rw [trailer, List.drop_left' (length_bytesOfUInt32 _), LittleEndian.decode_encode]
  rfl

theorem guard_eq_some {check : Prop} [Decidable check] (holds : check) :
    guard check = some () := if_pos holds

/-- A member behind any header is read up to its trailer, whatever its size. -/
theorem decompress?_of_encodes {member : Bytes}
    (header : skipHeader? member = some (stream ++ trailer text))
    (encodes : Encodes [] stream text) : decompress? member = some text := by
  have encodes' : Encodes (Bytes.zeros windowSize) stream text :=
    List.append_nil (Bytes.zeros windowSize) ▸ encodes.behind _
  have found : member? member none = some ⟨none, text, trailer text⟩ := by
    rw [member?, header, Option.map_some, inflate_append encodes' (fits_none _) (trailer text)]
  have whole : (trailer text).slice? 0 8 = some (trailer text) := by
    rw [Bytes.slice?, if_pos (by simp), List.drop_zero, List.take_of_length_le (by simp)]
  exact Option.bind_eq_some_iff.mpr ⟨_, found, Option.bind_eq_some_iff.mpr
    ⟨(), guard_eq_some rfl, Option.bind_eq_some_iff.mpr ⟨_, whole, Option.bind_eq_some_iff.mpr
      ⟨(), guard_eq_some (crc_trailer text), Option.bind_eq_some_iff.mpr
        ⟨(), guard_eq_some (size_trailer text), rfl⟩⟩⟩⟩⟩

end Gzip

end Deflate

namespace Compression

open Deflate

/-! ## The growing output -/

theorem length_inflateInto (isBare : Bool) (data : Bytes) (space : Nat) :
    (inflateInto isBare data space).output.length ≤ space ∧
      ((inflateInto isBare data space).stop = some .full →
        (inflateInto isBare data space).output.length = space) := by
  cases isBare with
  | true => exact length_output data space
  | false => exact Zlib.length_output data space

/-- The error for a stream that stopped early. Only input that just ends is told apart. -/
def stopError : Stop → Error
  | .starved => .decompression .incomplete
  | .corrupt | .full => .decompression .corrupt

section

variable {data output : Bytes} {inflater : Inflater} {capacity : Nat}

/-- Input that had run out does not come back: the next call takes and writes nothing, and that ends
the loop with whatever calls are left. -/
theorem inflateAll_of_starved (starved : inflater.stopped = some .starved) (positive : 0 < capacity)
    (within : output.length ≤ capacity) (calls : Nat) :
    inflateAll data (calls + 1) inflater output capacity = .error (.decompression .incomplete) := by
  have free : output.length < if output.length = capacity then capacity + capacity else capacity := by
    split <;> omega
  have idle (input : Bytes) (space : Nat) :
      inflater.call input space = .ok ⟨false, [], inflater⟩ := by
    rw [Inflater.call, starved]
  simp [inflateAll, idle, free, bind, Except.bind]
  rfl

/-- Once the space had run out in the first call, more of it does not help. -/
theorem inflateAll_of_full (full : inflater.stopped = some .full) (calls : Nat) :
    inflateAll data (calls + 1) inflater output capacity = .error (.decompression .corrupt) := by
  have failed (input : Bytes) (space : Nat) :
      inflater.call input space = .error (.decompression .corrupt) := by
    rw [Inflater.call, full]
  simp only [inflateAll, failed, bind, Except.bind]

/-- What all calls come to is decided by the first one. -/
theorem inflateAll_eq (data : Bytes) (isBare : Bool) {calls capacity : Nat} (enough : 2 ≤ calls)
    (positive : 0 < capacity) :
    inflateAll data calls ⟨isBare, 0, Option.none⟩ [] capacity =
      match (inflateInto isBare data capacity).stop with
      | some stop => .error (stopError stop)
      | Option.none => .ok (inflateInto isBare data capacity).output := by
  obtain ⟨calls, rfl⟩ := Nat.exists_eq_add_of_le' enough
  obtain ⟨within, fills⟩ := length_inflateInto isBare data capacity
  rw [inflateAll]
  simp only [Inflater.call, List.length_nil, if_neg (Nat.ne_of_lt positive),
    List.drop_zero, Nat.sub_zero, List.nil_append]
  generalize inflateInto isBare data capacity = outcome at *
  obtain ⟨stop, output, rest⟩ := outcome
  cases stop with
  | none => rfl
  | some stop =>
    cases stop with
    | corrupt => rfl
    | starved =>
        simp only [bind, Except.bind, Option.isNone_some, Bool.false_eq_true, if_false]
        split
        · rfl
        · refine inflateAll_of_starved ?_ positive within calls
          rfl
    | full =>
        have filled := fills rfl
        simp only [bind, Except.bind, Option.isNone_some, Bool.false_eq_true, if_false]
        rw [if_neg fun stalled => Nat.ne_of_lt stalled.2.2 filled]
        refine inflateAll_of_full ?_ calls
        rfl

end

/-- The loop comes to its first call. What that call writes into the first space is everything that
is ever written. -/
theorem inflate_eq (data : Bytes) (isBare : Bool) :
    inflate data isBare =
      match (inflateInto isBare data (inflateSpace data.length)).stop with
      | some stop => .error (stopError stop)
      | Option.none => .ok (inflateInto isBare data (inflateSpace data.length)).output :=
  inflateAll_eq data isBare (Nat.le_refl 2) (Nat.lt_of_lt_of_le (by decide) (Nat.le_max_left _ _))

/-! ## Payloads -/

theorem inflate_of_encodes (encodes : Encodes [] stream text) :
    inflate stream true =
        (if text.length ≤ inflateSpace stream.length then .ok text
        else .error (.decompression .corrupt)) ∧
      (∀ method flags, Zlib.isHeader method flags = true →
        inflate (method :: flags :: (stream ++ Zlib.trailer text)) false =
          if text.length ≤ inflateSpace (stream.length + 6) then .ok text
          else .error (.decompression .corrupt)) ∧
      ∀ member, Gzip.skipHeader? member = some (stream ++ Gzip.trailer text) →
        gunzip member = .ok text := by
  refine ⟨?_, fun method flags header => ?_, fun member header => ?_⟩
  · rw [inflate_eq, inflateInto, if_pos rfl]
    by_cases fits : text.length ≤ inflateSpace stream.length
    · have inflated := inflate_append encodes (fits_some.mpr fits) []
      rw [List.append_nil] at inflated
      rw [inflated, if_pos fits]
    · have stopped := inflate_full encodes (mt fits_some.mp fits) []
      rw [List.append_nil] at stopped
      rw [stopped, if_neg fits]
      rfl
  · have size : (method :: flags :: (stream ++ Zlib.trailer text)).length = stream.length + 6 := by
      simp [Zlib.trailer]
    obtain ⟨inflated, stopped⟩ :=
      Zlib.inflate_container header encodes (inflateSpace (stream.length + 6))
    rw [inflate_eq, inflateInto, if_neg nofun, size]
    by_cases fits : text.length ≤ inflateSpace (stream.length + 6)
    · rw [inflated fits, if_pos fits]
    · rw [stopped fits, if_neg fits]
      rfl
  · rw [gunzip, Gzip.decompress?_of_encodes header encodes, orCorrupt]

theorem inflate_of_encodes_zeros :
    Encodes [] [0x63, 0x60, 0x80, 0x01, 0x00] (Bytes.zeros 10) ∧
      inflate [0x63, 0x60, 0x80, 0x01, 0x00] true = .ok (Bytes.zeros 10) := by
  have encodes : Encodes [] [0x63, 0x60, 0x80, 0x01, 0x00] (Bytes.zeros 10) :=
    encodes_iff.mpr (by decide +kernel)
  exact ⟨encodes, (inflate_of_encodes encodes).1.trans (if_pos (by decide))⟩

/-- A stream of 4097 zeros, one more than there is space for. -/
def manyZeros : Bytes :=
  [0xED, 0xC1, 0x01, 0x0D, 0x00, 0x00, 0x00, 0xC2, 0xA0, 0xF7, 0x4F, 0x6D, 0x0F, 0x07, 0x14, 0x00,
    0x00, 0x00, 0x70, 0x6F]

theorem encodes_manyZeros : Encodes [] manyZeros (Bytes.zeros 4097) := by
  have computed : let outcome := Deflate.inflate manyZeros Option.none []
      outcome.stop = Option.none ∧ outcome.rest = [] ∧ outcome.output.drop 4096 = [0] ∧
        outcome.output.all (· == 0) = true := by
    decide +kernel
  generalize same : Deflate.inflate manyZeros Option.none [] = outcome at computed
  obtain ⟨stop, output, rest⟩ := outcome
  obtain ⟨rfl, rfl, (last : output.drop 4096 = [0]), all⟩ := computed
  have size : output.length = 4097 := by
    have behind := congrArg List.length last
    rw [List.length_drop, List.length_singleton] at behind
    omega
  have zeros : output = Bytes.zeros 4097 :=
    List.eq_replicate_iff.mpr
      ⟨size, fun byte mem => beq_iff_eq.mp (List.all_eq_true.mp all byte mem)⟩
  exact encodes_iff.mpr (zeros ▸ same)

/-- A stream is refused although it is complete, because its text compresses well. -/
theorem inflate_manyZeros :
    Encodes [] manyZeros (Bytes.zeros 4097) ∧
      inflate manyZeros true = .error (.decompression .corrupt) := by
  have overflows : ¬ Fits (some (inflateSpace manyZeros.length)) (Bytes.zeros 4097).length := by
    rw [fits_some, Bytes.length_zeros]
    decide
  have stopped := inflate_full encodes_manyZeros overflows []
  rw [List.append_nil] at stopped
  refine ⟨encodes_manyZeros, ?_⟩
  rw [inflate_eq, inflateInto, if_pos rfl, stopped]
  rfl

end Compression

end CilRecovery
