import CilRecovery.Proofs.Cipher.Chained
import CilRecovery.Proofs.Except
import CilRecovery.Proofs.Resource.Framing
import CilRecovery.Resource

/-!
# Recovering what was protected

Encryption, framing and storage in front of the recovery cancel out: what comes back is the payload
that was put in, and nothing comes back exactly where the image has no such resource.
-/

set_option autoImplicit false

namespace CilRecovery.Resource

open Reader (Reads ReadsToEnd)

/-! ## Stored resources -/

structure Stores (image : Image) (name : String) (location : ResourceLocation) (data : Bytes) :
    Prop where
  located : image.resource? name = some location
  bytes : image.data.slice? location.offset location.length = some data

variable {image : Image} {name : String} {location : ResourceLocation} {data : Bytes}

theorem find_of_stores (stores : Stores image name location data) :
    find image name = .ok (some (location, data)) := by
  obtain ⟨same, fits⟩ := Bytes.slice?_eq_some stores.bytes
  have slot : image.resourceSlot? name = some location := by
    rw [Image.resourceSlot?, stores.located, Option.filter_some, if_pos (by simpa using fits)]
  rw [find, stores.located, Image.resourceData?, slot, same]
  rfl

theorem stores_of_append {before after : Bytes} (located : image.resource? name = some location)
    (split : image.data = before ++ data ++ after) (offset : location.offset = before.length)
    (length : location.length = data.length) : Stores image name location data := by
  refine ⟨located, ?_⟩
  rw [split, offset, length, Bytes.slice?, if_pos (by simp), List.append_assoc, List.drop_left,
    List.take_left]

theorem find_eq_none_iff : find image name = .ok none ↔ image.resource? name = none := by
  unfold find
  cases image.resource? name with
  | none => exact ⟨fun _ => rfl, fun _ => rfl⟩
  | some location => cases image.resourceData? name <;> exact ⟨nofun, nofun⟩

/-! ## Framed resources -/

/-- The payload comes out of any frame, with whatever names and with whatever behind it. -/
theorem recover_of_isFrame {context : ResourceContext} {names : List Bytes}
    {payload plain : Bytes} (uncompressed : context.compression = .none)
    (short : ∀ name ∈ names, name.length < UInt32.size)
    (framed : IsFrame context.countSalt names payload context.lengthSalt plain)
    (encrypted : context.encrypt plain = .ok data)
    (stores : Stores image context.name location data) :
    recover image context = .ok (some ⟨context.name, location, payload⟩) := by
  have decrypted : context.decrypt data = .ok plain := by
    rw [ResourceContext.decrypt, CipherKind.decrypt_of_encrypt encrypted, uncompressed]
    rfl
  have opened : decrypt image context = .ok (some (location, plain)) := by
    simp only [decrypt, find_of_stores stores, decrypted, bind, Except.bind]
    rfl
  simp only [recover, opened, unframe_of_isFrame short framed, bind, Except.bind]
  rfl

/-- Without a resource of that name there is nothing to recover, and that is the only way in which
nothing is found. -/
theorem decrypt_eq_none_iff {context : ResourceContext} :
    decrypt image context = .ok none ↔ image.resource? context.name = none := by
  rw [← find_eq_none_iff, decrypt, Except.bind_eq_ok]
  constructor
  · rintro ⟨_ | ⟨location, data⟩, found, opened⟩
    · exact found
    · obtain ⟨plain, -, opened⟩ := Except.bind_eq_ok.mp opened
      cases opened
  · exact fun absent => ⟨none, absent, rfl⟩

theorem recover_eq_none_iff {context : ResourceContext} :
    recover image context = .ok none ↔ image.resource? context.name = none := by
  rw [← decrypt_eq_none_iff, recover, Except.bind_eq_ok]
  constructor
  · rintro ⟨_ | ⟨location, plain⟩, opened, recovered⟩
    · exact opened
    · obtain ⟨payload, -, recovered⟩ := Except.bind_eq_ok.mp recovered
      cases recovered
  · exact fun absent => ⟨none, absent, rfl⟩

/-! ## Resources with their key in front -/

theorem readKeyed_prefixedText {key : String} (short : (Utf8.encode key).length < UInt32.size)
    (data : Bytes) :
    readKeyed.decode (Varint.prefixedText key ++ data) = .ok (Utf8.encode key, data) :=
  ReadsToEnd.decode ((Varint.reads_prefixedText short).toEnd ((ReadsToEnd.rest data).last rfl))

theorem recoverKeyPrefixed_of_encrypt {key : String} {payload : Bytes}
    (short : (Utf8.encode key).length < UInt32.size)
    (encrypted : CipherKind.des.encrypt (Utf8.encode key) (Utf8.encode key) payload = .ok data)
    (stores : Stores image name location (Varint.prefixedText key ++ data)) :
    recoverKeyPrefixed image name = .ok (some ⟨name, location, payload⟩) := by
  have decrypted := CipherKind.decrypt_of_encrypt encrypted
  simp only [recoverKeyPrefixed, find_of_stores stores, readKeyed_prefixedText short, decrypted,
    bind, Except.bind]
  rfl

theorem recoverKeyPrefixed_eq_none_iff :
    recoverKeyPrefixed image name = .ok none ↔ image.resource? name = none := by
  rw [← find_eq_none_iff, recoverKeyPrefixed, Except.bind_eq_ok]
  constructor
  · rintro ⟨_ | ⟨location, data⟩, found, recovered⟩
    · exact found
    · obtain ⟨keyed, -, recovered⟩ := Except.bind_eq_ok.mp recovered
      obtain ⟨payload, -, recovered⟩ := Except.bind_eq_ok.mp recovered
      cases recovered
  · exact fun absent => ⟨none, absent, rfl⟩

/-! ## Both kinds -/

/-- Recovery gives back what was protected: the payload of an encrypted frame, whatever the names
in front of it and the bytes behind it are, and the payload that was encrypted with the key in
front of it. It gives nothing exactly if the image has no resource of the name. -/
theorem recover_protected (image : Image) :
    (∀ (context : ResourceContext) (names : List Bytes) (payload plain data : Bytes)
        (location : ResourceLocation),
      context.compression = .none → (∀ name ∈ names, name.length < UInt32.size) →
      IsFrame context.countSalt names payload context.lengthSalt plain →
      context.encrypt plain = .ok data → Stores image context.name location data →
      recover image context = .ok (some ⟨context.name, location, payload⟩)) ∧
    (∀ (name key : String) (payload data : Bytes) (location : ResourceLocation),
      (Utf8.encode key).length = 8 →
      CipherKind.des.encrypt (Utf8.encode key) (Utf8.encode key) payload = .ok data →
      Stores image name location (Varint.prefixedText key ++ data) →
      recoverKeyPrefixed image name = .ok (some ⟨name, location, payload⟩)) ∧
    (∀ context, recover image context = .ok none ↔ image.resource? context.name = none) ∧
    ∀ name, recoverKeyPrefixed image name = .ok none ↔ image.resource? name = none := by
  refine ⟨?_, ?_, fun _ => recover_eq_none_iff, fun _ => recoverKeyPrefixed_eq_none_iff⟩
  · intro context names payload plain data location uncompressed short framed encrypted stores
    exact recover_of_isFrame uncompressed short framed encrypted stores
  · intro name key payload data location length encrypted stores
    have short : (Utf8.encode key).length < UInt32.size := by
      rw [length]
      decide
    exact recoverKeyPrefixed_of_encrypt short encrypted stores

private def sealedContext : ResourceContext :=
  ⟨"blob", .aes, [0, 1, 2, 3, 4, 5, 6, 7, 8, 9, 10, 11, 12, 13, 14, 15],
    [15, 14, 13, 12, 11, 10, 9, 8, 7, 6, 5, 4, 3, 2, 1, 0, 0xEE], some 0x55, some 0x80000077, .none⟩

/-- Two names, one of them no text and one of them empty, a payload and a stray byte. -/
private def sealedFrame : Bytes :=
  frame sealedContext.countSalt sealedContext.lengthSalt [[0xFF, 0xC0], []] [0x4D, 0x5A, 0] ++ [9]

private def sealedData : Bytes := (sealedContext.encrypt sealedFrame).toOption.getD []

private def keyText : String := "Schlüs!"

private def keyedData : Bytes :=
  (CipherKind.des.encrypt (Utf8.encode keyText) (Utf8.encode keyText) [0x4D, 0x5A]).toOption.getD []

/-- Both kinds of protected resources, one behind the other. -/
private def sealedImage : Image :=
  ⟨[0] ++ sealedData ++ (Varint.prefixedText keyText ++ keyedData), [], [],
    [("blob", ⟨1, 32⟩), ("keyed", ⟨33, 17⟩)], 0⟩

private theorem sealedImage_stores :
    Stores sealedImage "blob" ⟨1, 32⟩ sealedData ∧
      Stores sealedImage "keyed" ⟨33, 17⟩ (Varint.prefixedText keyText ++ keyedData) := by
  have length : sealedData.length = 32 := by decide +kernel
  have length' : (Varint.prefixedText keyText ++ keyedData).length = 17 := by decide +kernel
  refine ⟨stores_of_append rfl rfl rfl length.symm, ?_⟩
  exact stores_of_append rfl (List.append_nil _).symm (by simp [length]) length'.symm

theorem recover_protected_both :
    recover sealedImage sealedContext = .ok (some ⟨"blob", ⟨1, 32⟩, [0x4D, 0x5A, 0]⟩) ∧
      recoverKeyPrefixed sealedImage "keyed" = .ok (some ⟨"keyed", ⟨33, 17⟩, [0x4D, 0x5A]⟩) ∧
      recoverKeyPrefixed sealedImage "other" = .ok none := by
  obtain ⟨framed, keyed, -, absent⟩ := recover_protected sealedImage
  obtain ⟨stores, stores'⟩ := sealedImage_stores
  have isFrame := @isFrame_frame sealedContext.countSalt sealedContext.lengthSalt
    [[0xFF, 0xC0], []] [0x4D, 0x5A, 0] [9] (by decide) (by decide) nofun
  refine ⟨?_, ?_, (absent "other").mpr rfl⟩
  · exact framed sealedContext _ _ sealedFrame sealedData ⟨1, 32⟩ rfl (by decide) isFrame rfl stores
  · exact keyed "keyed" keyText _ keyedData ⟨33, 17⟩ (by decide +kernel) rfl stores'

end CilRecovery.Resource
