import CilRecovery.Proofs.Compression
import CilRecovery.Proofs.Except
import CilRecovery.Proofs.Reader.Refuses
import CilRecovery.Resource

/-!
# Errors of encrypted resources

What is wrong with a resource tells how far its recovery came. Ciphers and decompressors have
errors of their own; before and after them, only the form of the data can be wrong.
-/

set_option autoImplicit false

namespace CilRecovery

open Error (isFormat_malformed isFormat_outOfBounds)
open Reader (Refuses)

/-! ## Variable-length encodings -/

namespace Varint

private theorem refuses_readGroups (groups : Nat) : Refuses (readGroups groups) Error.IsFormat := by
  induction groups with
  | zero => exact .throw (isFormat_malformed _)
  | succ groups ih =>
      exact (Refuses.byte isFormat_outOfBounds).bind fun byte =>
        .ite (.pure _) (ih.bind fun high => .pure _)

theorem refuses_readPrefixedBytes : Refuses readPrefixedBytes Error.IsFormat :=
  .atomically <| (Refuses.atomically (refuses_readGroups _)).bind fun _ =>
    .take isFormat_outOfBounds _

theorem refuses_readPrefixedText : Refuses readPrefixedText Error.IsFormat := by
  refine .atomically (Refuses.position.bind fun start => ?_)
  refine refuses_readPrefixedBytes.bind fun bytes => ?_
  cases Utf8.decode bytes with
  | ok text => exact .pure text
  | error fault => exact .throw (isFormat_malformed _)

end Varint

/-! ## Decryption and decompression -/

/-- The material of a protection was found, but it cannot be decrypted. -/
def Error.IsPayload (error : Error) : Prop :=
  error.family = .decryption ∨ error.family = .decompression

theorem CipherKind.decrypt_error {kind : CipherKind} {key vector data : Bytes} {error : Error}
    (refused : kind.decrypt key vector data = .error error) : error.family = .decryption := by
  unfold decrypt at refused
  split at refused
  · exact (Except.error.inj refused) ▸ rfl
  · split at refused
    · exact (Except.error.inj refused) ▸ rfl
    · split at refused
      · exact (Except.error.inj refused) ▸ rfl
      · split at refused
        · cases refused
        · exact (Except.error.inj refused) ▸ rfl

private theorem stopError_family (stop : Deflate.Stop) :
    (Compression.stopError stop).family = .decompression := by
  cases stop <;> rfl

private theorem inflate_error {data : Bytes} {isBare : Bool} {error : Error}
    (refused : Compression.inflate data isBare = .error error) :
    error.family = .decompression := by
  rw [Compression.inflate_eq] at refused
  split at refused
  · exact (Except.error.inj refused) ▸ stopError_family _
  · cases refused

theorem Compression.decompress_error {kind : Compression} {data : Bytes} {error : Error}
    (refused : kind.decompress data = .error error) : error.family = .decompression := by
  cases kind with
  | none => cases refused
  | deflate => exact inflate_error refused
  | zlib => exact inflate_error refused
  | gzip =>
      simp only [decompress, gunzip] at refused
      cases expanded : Deflate.Gzip.decompress? data with
      | some plain =>
          rw [expanded] at refused
          cases refused
      | none =>
          rw [expanded] at refused
          exact (Except.error.inj refused) ▸ rfl

/-- Cipher and compression refuse what is there; whether it is there is settled before. -/
theorem ResourceContext.decrypt_error {context : ResourceContext} {data : Bytes} {error : Error}
    (refused : context.decrypt data = .error error) : error.IsPayload := by
  rcases Except.bind_eq_error.mp refused with refused | ⟨plain, -, refused⟩
  · exact .inl (CipherKind.decrypt_error refused)
  · exact .inr (Compression.decompress_error refused)

/-! ## Resources -/

namespace Resource

theorem find_error {image : Image} {name : String} {error : Error}
    (refused : find image name = .error error) : error.IsFormat := by
  unfold find at refused
  split at refused
  · cases refused
  · split at refused
    · cases refused
    · exact (Except.error.inj refused) ▸ isFormat_outOfBounds

private theorem refuses_saltedCount (counter : Counter) (salt : UInt32) :
    Refuses (saltedCount counter salt) Error.IsFormat :=
  (Refuses.uint32 isFormat_outOfBounds).bind fun _ =>
    .ite ((Refuses.throw (isFormat_malformed _)).bind fun _ => .pure _) (.pure _)

private theorem refuses_readFrame (countSalt lengthSalt : Option UInt32) :
    Refuses (readFrame countSalt lengthSalt) Error.IsFormat := by
  refine (refuses_saltedCount _ _).bind fun count => ?_
  refine (Varint.refuses_readPrefixedBytes.times count).bind fun names => ?_
  cases lengthSalt with
  | none => exact .rest
  | some salt => exact (refuses_saltedCount _ salt).bind fun _ => .take isFormat_outOfBounds _

theorem unframe_error {countSalt lengthSalt : Option UInt32} {data : Bytes} {error : Error}
    (refused : unframe countSalt lengthSalt data = .error error) : error.IsFormat :=
  (refuses_readFrame countSalt lengthSalt).decode refused

theorem readKeyed_error {data : Bytes} {error : Error}
    (refused : readKeyed.decode data = .error error) : error.IsFormat :=
  (Varint.refuses_readPrefixedText.bind fun _ => Refuses.rest.bind fun _ => .pure _).decode refused

end Resource

end CilRecovery
