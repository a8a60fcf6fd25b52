import CilRecovery.Proofs.Oracle.Faults
import CilRecovery.Proofs.PatchEngine.Faults
import CilRecovery.Proofs.ProtectedModule.Run
import CilRecovery.Proofs.Resource.Faults
import CilRecovery.ProtectedModule

/-!
# What the failure of a module is taken for

A batch tells modules without protection from those whose protection it could not remove by the
error alone. The two are told apart rightly only where a cipher, a decompressor or a helper fails;
a bound scheme whose material has the wrong form counts as no protection at all.
-/

set_option autoImplicit false

namespace CilRecovery

variable {harvest : Harvest} {image : Image} {scheme : Scheme} {error : Error}

/-! ## Schemes -/

/-- The material of a scheme is there and does not give way: its cipher or its compression refuses
it, or its helper fails. -/
inductive Scheme.Resists (harvest : Harvest) (image : Image) : Scheme → Error → Prop
  | nativeMethods {context : ResourceContext} {engine : PatchEngine} {location : ResourceLocation}
      {data : Bytes} {error : Error}
      (found : Resource.find image context.name = .ok (some (location, data)))
      (refused : context.decrypt data = .error error) :
      Resists harvest image (.nativeMethods context engine) error
  | framed {context : ResourceContext} {location : ResourceLocation} {data : Bytes} {error : Error}
      (found : Resource.find image context.name = .ok (some (location, data)))
      (refused : context.decrypt data = .error error) :
      Resists harvest image (.resource (.framed context)) error
  | keyPrefixed {name : String} {location : ResourceLocation} {data key encrypted : Bytes}
      {error : Error} (found : Resource.find image name = .ok (some (location, data)))
      (read : Resource.readKeyed.decode data = .ok (key, encrypted))
      (refused : CipherKind.des.decrypt key key encrypted = .error error) :
      Resists harvest image (.resource (.keyPrefixed name)) error
  | oracle {config : Oracle.Config} {runtime : Oracle.Runtime} {initializer : Bytes}
      {error : Error}
      (failed : harvest config runtime (.bytes image.data) initializer = .error error) :
      Resists harvest image (.oracle config runtime initializer) error

private theorem Resource.decrypt_error {context : ResourceContext}
    (failed : Resource.decrypt image context = .error error) :
    (∃ location data, Resource.find image context.name = .ok (some (location, data)) ∧
      context.decrypt data = .error error) ∨ error.IsFormat := by
  rcases Except.bind_eq_error.mp failed with failed | ⟨found?, found, failed⟩
  · exact .inr (Resource.find_error failed)
  · cases found? with
    | none => cases failed
    | some stored =>
        obtain ⟨location, data⟩ := stored
        rcases Except.bind_eq_error.mp failed with refused | ⟨plain, -, done⟩
        · exact .inl ⟨location, data, found, refused⟩
        · cases done

private theorem Scheme.decrypt_native_error {context : ResourceContext} {engine : PatchEngine}
    (failed : (Scheme.nativeMethods context engine).decrypt harvest image = .error error) :
    (Scheme.nativeMethods context engine).Resists harvest image error ∨ error.IsFormat := by
  rcases Except.bind_eq_error.mp failed with failed | ⟨stream?, -, done⟩
  · exact (Resource.decrypt_error failed).imp_left
      fun ⟨_, _, found, refused⟩ => .nativeMethods found refused
  · cases stream? <;> cases done

private theorem Scheme.decrypt_framed_error {context : ResourceContext}
    (failed : (Scheme.resource (.framed context)).decrypt harvest image = .error error) :
    (Scheme.resource (.framed context)).Resists harvest image error ∨ error.IsFormat := by
  rcases Except.bind_eq_error.mp failed with failed | ⟨recovered?, -, done⟩
  · rcases Except.bind_eq_error.mp failed with failed | ⟨plain?, -, failed⟩
    · exact (Resource.decrypt_error failed).imp_left
        fun ⟨_, _, found, refused⟩ => .framed found refused
    · cases plain? with
      | none => cases failed
      | some plain =>
          rcases Except.bind_eq_error.mp failed with failed | ⟨payload, -, done⟩
          · exact .inr (Resource.unframe_error failed)
          · cases done
  · cases recovered? <;> cases done

private theorem Scheme.decrypt_keyPrefixed_error {name : String}
    (failed : (Scheme.resource (.keyPrefixed name)).decrypt harvest image = .error error) :
    (Scheme.resource (.keyPrefixed name)).Resists harvest image error ∨ error.IsFormat := by
  rcases Except.bind_eq_error.mp failed with failed | ⟨recovered?, -, done⟩
  · rcases Except.bind_eq_error.mp failed with failed | ⟨found?, found, failed⟩
    · exact .inr (Resource.find_error failed)
    · cases found? with
      | none => cases failed
      | some stored =>
          obtain ⟨location, data⟩ := stored
          rcases Except.bind_eq_error.mp failed with failed | ⟨⟨key, encrypted⟩, read, failed⟩
          · exact .inr (Resource.readKeyed_error failed)
          · rcases Except.bind_eq_error.mp failed with refused | ⟨payload, -, done⟩
            · exact .inl (.keyPrefixed found read refused)
            · cases done
  · cases recovered? <;> cases done

/-- A scheme fails because its material resists or because of the form of the material. -/
theorem Scheme.decrypt_error (failed : scheme.decrypt harvest image = .error error) :
    scheme.Resists harvest image error ∨ error.IsFormat := by
  cases scheme with
  | nativeMethods context engine => exact decrypt_native_error failed
  | resource layout =>
      cases layout with
      | framed context => exact decrypt_framed_error failed
      | keyPrefixed name => exact decrypt_keyPrefixed_error failed
  | memoryPatch table addressing => cases failed
  | oracle config runtime initializer =>
      rcases Except.bind_eq_error.mp failed with failed | ⟨methods, -, done⟩
      · exact .inl (.oracle failed)
      · cases done

/-- Once decrypted, material can only have the wrong form. -/
theorem Scheme.patch_error {payload : Payload} {target : Bytes}
    (failed : (scheme.patch image payload target).result = .error error) : error.IsFormat := by
  unfold patch at failed
  split at failed
  · cases failed
  · rename_i context engine stream
    dsimp only at failed
    cases applied : (engine.apply stream image target).result with
    | ok outcome =>
        rw [applied] at failed
        cases failed
    | error error' =>
        rw [applied] at failed
        cases failed
        exact PatchEngine.apply_error applied
  · cases failed
  · cases failed
  · split at failed
    · cases failed
    · rename_i refused
      cases failed
      exact PatchTable.apply_error refused ▸ Error.isFormat_outOfBounds
  · cases failed
  · cases failed
    exact Error.isFormat_malformed _

private theorem Scheme.turn_error (failed : scheme.turn harvest image = .error error) :
    scheme.Resists harvest image error ∨ error.IsFormat := by
  rcases Scheme.turn_eq_error_iff.mp failed with failed | ⟨payload, -, failed⟩
  · exact Scheme.decrypt_error failed
  · exact .inr (Scheme.patch_error failed)

theorem Scheme.rebind_error (failed : scheme.rebind image = .error error) :
    error.family = .methodNotFound := by
  cases scheme with
  | nativeMethods context engine =>
      simp only [rebind, OpaqueTable.rebind] at failed
      split at failed
      · cases failed
        rfl
      · cases failed
  | resource layout => cases failed
  | memoryPatch table addressing => cases failed
  | oracle config runtime initializer => cases failed

/-- Resistance never looks like the absence of a protection, as long as that of a helper does
not. -/
theorem Scheme.Resists.severity (resists : scheme.Resists harvest image error)
    (helped : ∀ config runtime initializer, scheme = .oracle config runtime initializer →
      harvest config runtime (.bytes image.data) initializer = .error error →
      error.severity ≠ .notApplicable) :
    error.severity ≠ .notApplicable := by
  have payload (payload : error.IsPayload) : error.severity ≠ .notApplicable := by
    rcases payload with family | family <;> rw [Error.severity, family] <;> decide
  cases resists with
  | nativeMethods found refused => exact payload (ResourceContext.decrypt_error refused)
  | framed found refused => exact payload (ResourceContext.decrypt_error refused)
  | keyPrefixed found read refused => exact payload (.inl (CipherKind.decrypt_error refused))
  | oracle failed => exact helped _ _ _ rfl failed

/-! ## Modules -/

namespace AnalyzedModule

/-- Why a module was given up: a scheme resisted in its turn, or the final image lacks a method
that a scheme refers to. -/
inductive Stalled (harvest : Harvest) (module_ : AnalyzedModule) (error : Error) : Prop
  | resisted {earlier later : List Scheme} {scheme : Scheme} {turns : List Turn} {middle : Image}
      (split : module_.schemes = earlier ++ scheme :: later)
      (before : Runs harvest module_.image earlier turns middle)
      (resists : scheme.Resists harvest middle error)
  | lost {turns : List Turn} {turn : Turn} {final : Image}
      (runs : Runs harvest module_.image module_.schemes turns final) (taken : turn ∈ turns)
      (refused : turn.scheme.rebind final = .error error)

theorem stalled_or_isFormat {module_ : AnalyzedModule}
    (failed : module_.decrypt harvest = .error error) :
    module_.Stalled harvest error ∨ error.IsFormat := by
  obtain ⟨earlier, scheme, later, turns, middle, split, before, failed⟩ |
    ⟨turns, final, runs, turn, taken, refused⟩ := decrypt_eq_error failed
  · exact (Scheme.turn_error failed).imp_left (.resisted split before)
  · exact .inl (.lost runs taken refused)

open Batch (Outcome)
open Oracle (Channel Launch harvestOver)

variable {state : Type} {launch : Launch state} {host : Channel state}

/-- The schemes that analysis binds have a helper where they need one. -/
private theorem configured_of_bound {candidates : List Scheme} {config : Oracle.Config}
    {runtime : Oracle.Runtime} {initializer : Bytes}
    (bound : .oracle config runtime initializer ∈ (analyze image candidates).schemes) :
    (config.helper? runtime).isSome := by
  have present := (List.mem_filter.mp bound).2
  exact (Bool.and_eq_true_iff.mp present).1

private theorem Stalled.severity (sound : launch.Sound) {candidates : List Scheme}
    (stalled : (analyze image candidates).Stalled (harvestOver launch host) error) :
    error.severity ≠ .notApplicable := by
  cases stalled with
  | @resisted earlier later scheme turns middle split before resists =>
      refine resists.severity fun config runtime initializer same failed => ?_
      have bound : scheme ∈ (analyze image candidates).schemes := by
        rw [split]
        exact List.mem_append_right _ List.mem_cons_self
      exact Oracle.harvestOver_error sound (configured_of_bound (same ▸ bound)) failed
  | lost runs taken refused =>
      rw [Error.severity, Scheme.rebind_error refused]
      decide

/-- The failure of a protected module counts as one exactly where a scheme stalled. Every other
failure, that of a bound scheme included, is taken for the absence of any protection. -/
theorem classify_decrypt_eq_failed_iff (sound : launch.Sound) {candidates : List Scheme}
    (failed : (analyze image candidates).decrypt (harvestOver launch host) = .error error) :
    let outcome : Outcome DecryptedModule := .classify (.finished (.error error))
    (outcome = .failed error ↔
      (analyze image candidates).Stalled (harvestOver launch host) error) ∧
    (outcome = .notApplicable error ↔
      ¬ (analyze image candidates).Stalled (harvestOver launch host) error) := by
  dsimp only [Outcome.classify]
  by_cases stalled : (analyze image candidates).Stalled (harvestOver launch host) error
  · rw [if_neg (stalled.severity sound)]
    exact ⟨⟨fun _ => stalled, fun _ => rfl⟩, ⟨nofun, fun none => absurd stalled none⟩⟩
  · have format := (stalled_or_isFormat failed).resolve_left stalled
    rw [if_pos format.severity]
    exact ⟨⟨nofun, fun stalled' => absurd stalled' stalled⟩, ⟨fun _ => stalled, fun _ => rfl⟩⟩

private abbrev helpers : Harvest :=
  harvestOver Oracle.HelperScript.start Oracle.HelperProcess.channel

/-- Four bytes, and a table that patches the last two of them and two more. -/
private def patchedPastEnd : AnalyzedModule :=
  analyze (.ofBytes [0, 0, 0, 0]) [.memoryPatch [⟨2, 0x04030201⟩] .virtualAddress]

/-- A resource whose cipher has no key. -/
private def keyless : AnalyzedModule :=
  analyze ⟨[0, 0, 0, 0], [], [], [("data", ⟨0, 4⟩)], 0⟩
    [.resource (.framed ⟨"data", .aes, [], [], none, none, .none⟩)]

theorem classify_decrypt_eq_failed_iff_keyless :
    patchedPastEnd.decrypt helpers = .error .outOfBounds ∧
      ¬ patchedPastEnd.Stalled helpers .outOfBounds ∧
      keyless.decrypt helpers = .error (.decryption (.keySize .aes 0)) ∧
      keyless.Stalled helpers (.decryption (.keySize .aes 0)) := by
  have outside : patchedPastEnd.decrypt helpers = .error .outOfBounds := rfl
  have refused : keyless.decrypt helpers = .error (.decryption (.keySize .aes 0)) := rfl
  exact ⟨outside,
    (classify_decrypt_eq_failed_iff Oracle.sound_start outside).2.mp rfl,
    refused, (classify_decrypt_eq_failed_iff Oracle.sound_start refused).1.mp rfl⟩

/-- A bound scheme fails, and the batch reports that there was no protection. -/
theorem decrypt_protected_notApplicable :
    patchedPastEnd.isProtected = true ∧
      patchedPastEnd.decrypt Oracle.harvest = .error .outOfBounds ∧
      (Outcome.classify (.finished (patchedPastEnd.decrypt Oracle.harvest)) :
        Outcome DecryptedModule) = .notApplicable .outOfBounds :=
  ⟨rfl, rfl, rfl⟩

end AnalyzedModule

end CilRecovery
