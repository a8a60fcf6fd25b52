import CilRecovery.Proofs.Except
import CilRecovery.ProtectedModule

/-!
# Runs of schemes

What a scheme makes of an image depends on the image alone, not on what earlier schemes recovered.
A run of schemes is therefore a sequence of turns, each on the image that the one before left.
-/

set_option autoImplicit false

namespace CilRecovery

variable {harvest : Harvest} {image final : Image} {scheme : Scheme}
  {module_ result : DecryptedModule} {error : Error}

/-! ## Patching -/

/-- What a scheme can do to a copy of the image with a payload: the copy and the scheme before, the
contribution, and the copy and the scheme after. -/
inductive Scheme.Patches (image : Image) :
    Bytes → Scheme → Payload → Contribution → Bytes → Scheme → Prop
  | withoutMethods {target : Bytes} {context : ResourceContext} {engine : PatchEngine} :
      Patches image target (.nativeMethods context engine) .nothing .none target
        (.nativeMethods context engine)
  | methods {target stream : Bytes} {context : ResourceContext} {engine : PatchEngine}
      {outcome : PatchEngine.Outcome}
      (applied : (engine.apply stream image target).result = .ok outcome) :
      Patches image target (.nativeMethods context engine) (.methodStream stream)
        ⟨outcome.methods, [], outcome.writes⟩ (engine.apply stream image target).target
        (.nativeMethods context (engine.apply stream image target).engine)
  | withoutResource {target : Bytes} {layout : ResourceLayout} :
      Patches image target (.resource layout) .nothing .none target (.resource layout)
  | resource {target : Bytes} {layout : ResourceLayout} {found : RecoveredResource} :
      Patches image target (.resource layout) (.resource found) ⟨.empty, [found], 0⟩ target
        (.resource layout)
  | words {target patched : Bytes} {table : PatchTable} {addressing : Addressing}
      (applied : table.apply image addressing target = .ok patched) :
      Patches image target (.memoryPatch table addressing) .nothing ⟨.empty, [], table.length⟩
        patched (.memoryPatch table addressing)
  | observed {target initializer : Bytes} {config : Oracle.Config} {runtime : Oracle.Runtime}
      {methods : MethodTable} :
      Patches image target (.oracle config runtime initializer) (.methods methods)
        ⟨methods, [], 0⟩ target (.oracle config runtime initializer)

theorem Scheme.patches_of_patch {payload : Payload} {target : Bytes} {contribution : Contribution}
    (patched : (scheme.patch image payload target).result = .ok contribution) :
    Patches image target scheme payload contribution (scheme.patch image payload target).target
      (scheme.patch image payload target).scheme := by
  unfold patch at patched ⊢
  split at patched
  · cases patched
    exact .withoutMethods
  · rename_i context engine stream
    dsimp only at patched ⊢
    cases applied : (engine.apply stream image target).result with
    | error error =>
        rw [applied] at patched
        cases patched
    | ok outcome =>
        rw [applied] at patched
        cases patched
        exact .methods applied
  · cases patched
    exact .withoutResource
  · cases patched
    exact .resource
  · rename_i table addressing
    cases applied : table.apply image addressing target with
    | error error =>
        rw [applied] at patched
        cases patched
    | ok changed =>
        rw [applied] at patched
        cases patched
        exact .words applied
  · cases patched
    exact .observed
  · cases patched

/-! ## Turns -/

structure Turn where
  before : Image
  contribution : Contribution
  target : Bytes
  scheme : Scheme

def Turn.after (turn : Turn) : Image :=
  if 0 < turn.contribution.writes then turn.before.reload turn.target else turn.before

def Scheme.turn (harvest : Harvest) (scheme : Scheme) (image : Image) : Except Error Turn := do
  let payload ← scheme.decrypt harvest image
  let patched := scheme.patch image payload image.data
  let contribution ← patched.result
  return ⟨image, contribution, patched.target, patched.scheme⟩

theorem Scheme.turn_eq_ok {turn : Turn} (taken : scheme.turn harvest image = .ok turn) :
    turn.before = image ∧ ∃ payload,
      scheme.decrypt harvest image = .ok payload ∧
        Patches image image.data scheme payload turn.contribution turn.target turn.scheme := by
  obtain ⟨payload, decrypted, taken⟩ := Except.bind_eq_ok.mp taken
  obtain ⟨contribution, patched, taken⟩ := Except.bind_eq_ok.mp taken
  cases taken
  exact ⟨rfl, payload, decrypted, Scheme.patches_of_patch patched⟩

/-- A turn fails in decryption or in patching. -/
theorem Scheme.turn_eq_error_iff :
    scheme.turn harvest image = .error error ↔
      scheme.decrypt harvest image = .error error ∨
        ∃ payload, scheme.decrypt harvest image = .ok payload ∧
          (scheme.patch image payload image.data).result = .error error := by
  rw [turn, Except.bind_eq_error]
  refine or_congr_right (exists_congr fun payload => and_congr_right fun _ => ?_)
  rw [Except.bind_eq_error]
  constructor
  · rintro (failed | ⟨contribution, -, done⟩)
    · exact failed
    · cases done
  · exact .inl

def DecryptedModule.add (module_ : DecryptedModule) (turn : Turn) : DecryptedModule where
  image := turn.after
  methods := module_.methods.override turn.contribution.methods
  resources := module_.resources ++ turn.contribution.resources
  schemes := module_.schemes ++ [turn.scheme]

namespace AnalyzedModule

theorem runScheme_eq (harvest : Harvest) (module_ : DecryptedModule) (scheme : Scheme) :
    runScheme harvest module_ scheme = (scheme.turn harvest module_.image).map module_.add := by
  rw [runScheme, Scheme.turn]
  cases scheme.decrypt harvest module_.image with
  | error error => rfl
  | ok payload =>
      simp only [bind, Except.bind]
      cases (scheme.patch module_.image payload module_.image.data).result <;> rfl

end AnalyzedModule

/-! ## Runs -/

/-- Schemes take their turns one after the other, from one image to another. -/
inductive Runs (harvest : Harvest) : Image → List Scheme → List Turn → Image → Prop
  | nil {image : Image} : Runs harvest image [] [] image
  | cons {image final : Image} {scheme : Scheme} {schemes : List Scheme} {turn : Turn}
      {turns : List Turn} (first : scheme.turn harvest image = .ok turn)
      (others : Runs harvest turn.after schemes turns final) :
      Runs harvest image (scheme :: schemes) (turn :: turns) final

namespace DecryptedModule

def start (image : Image) : DecryptedModule := ⟨image, .empty, [], []⟩

def addAll (module_ : DecryptedModule) (turns : List Turn) : DecryptedModule :=
  turns.foldl add module_

theorem schemes_addAll (module_ : DecryptedModule) (turns : List Turn) :
    (module_.addAll turns).schemes = module_.schemes ++ turns.map Turn.scheme := by
  induction turns generalizing module_ with
  | nil => exact (List.append_nil _).symm
  | cons turn turns ih => exact (ih (module_.add turn)).trans (List.append_assoc _ _ _)

end DecryptedModule

theorem Runs.image_addAll {schemes : List Scheme} {turns : List Turn}
    (runs : Runs harvest image schemes turns final) (starts : module_.image = image) :
    (module_.addAll turns).image = final := by
  induction runs generalizing module_ with
  | nil => exact starts
  | @cons image final scheme schemes turn turns first others ih =>
      exact @ih (module_.add turn) rfl

namespace AnalyzedModule

variable {schemes : List Scheme}

/-- The fold succeeds exactly if there is a run, which determines the result. -/
theorem foldlM_runScheme_eq_ok_iff :
    schemes.foldlM (runScheme harvest) module_ = .ok result ↔
      ∃ turns, Runs harvest module_.image schemes turns result.image ∧
        result = module_.addAll turns := by
  induction schemes generalizing module_ with
  | nil =>
      constructor
      · intro done
        cases done
        exact ⟨[], .nil, rfl⟩
      · rintro ⟨turns, runs, rfl⟩
        cases runs
        rfl
  | cons scheme schemes ih =>
      rw [List.foldlM_cons, runScheme_eq]
      cases taken : scheme.turn harvest module_.image with
      | error error =>
          constructor
          · intro done
            cases done
          · rintro ⟨turns, runs, -⟩
            cases runs with
            | cons first others =>
                rw [taken] at first
                cases first
      | ok turn =>
          refine (@ih (module_.add turn)).trans ?_
          constructor
          · rintro ⟨turns, runs, same⟩
            exact ⟨turn :: turns, .cons taken runs, same⟩
          · rintro ⟨turns, runs, same⟩
            cases runs with
            | cons first others =>
                rw [taken] at first
                cases first
                exact ⟨_, others, same⟩

/-- The first scheme that fails, after the turns of those before it. -/
theorem foldlM_runScheme_eq_error
    (failed : schemes.foldlM (runScheme harvest) module_ = .error error) :
    ∃ earlier scheme later turns middle, schemes = earlier ++ scheme :: later ∧
      Runs harvest module_.image earlier turns middle ∧
      scheme.turn harvest middle = .error error := by
  induction schemes generalizing module_ with
  | nil => cases failed
  | cons scheme schemes ih =>
      rw [List.foldlM_cons, runScheme_eq] at failed
      cases taken : scheme.turn harvest module_.image with
      | error error' =>
          rw [taken] at failed
          cases failed
          exact ⟨[], scheme, schemes, [], _, rfl, .nil, taken⟩
      | ok turn =>
          rw [taken] at failed
          obtain ⟨earlier, other, later, turns, middle, rfl, runs, refused⟩ :=
            @ih (module_.add turn) failed
          exact ⟨scheme :: earlier, other, later, turn :: turns, middle, rfl, .cons taken runs,
            refused⟩

/-- All schemes take their turns first, and only then is each checked against the final image. -/
theorem decrypt_eq_ok_iff :
    decrypt harvest ⟨image, schemes⟩ = .ok result ↔
      ∃ turns, Runs harvest image schemes turns result.image ∧
        result = (DecryptedModule.start image).addAll turns ∧
        ∀ turn ∈ turns, turn.scheme.rebind result.image = .ok () := by
  rw [decrypt, Except.bind_eq_ok]
  constructor
  · rintro ⟨decrypted, ran, checked⟩
    obtain ⟨_, bound, checked⟩ := Except.bind_eq_ok.mp checked
    cases checked
    obtain ⟨turns, runs, same⟩ := foldlM_runScheme_eq_ok_iff.mp ran
    refine ⟨turns, runs, same, fun turn member => ?_⟩
    refine Except.forM_eq_ok.mp bound turn.scheme ?_
    rw [same, DecryptedModule.schemes_addAll]
    exact List.mem_map_of_mem member
  · rintro ⟨turns, runs, same, bound⟩
    refine ⟨result, foldlM_runScheme_eq_ok_iff.mpr ⟨turns, runs, same⟩,
      Except.bind_eq_ok.mpr ⟨(), Except.forM_eq_ok.mpr ?_, rfl⟩⟩
    rw [same, DecryptedModule.schemes_addAll, ← same]
    intro scheme member
    obtain ⟨turn, listed, rfl⟩ := List.mem_map.mp member
    exact bound turn listed

/-- A module is given up in the turn of a scheme, or for a method that the final image lost. -/
theorem decrypt_eq_error (failed : decrypt harvest ⟨image, schemes⟩ = .error error) :
    (∃ earlier scheme later turns middle, schemes = earlier ++ scheme :: later ∧
      Runs harvest image earlier turns middle ∧ scheme.turn harvest middle = .error error) ∨
    ∃ turns final, Runs harvest image schemes turns final ∧
      ∃ turn ∈ turns, turn.scheme.rebind final = .error error := by
  rcases Except.bind_eq_error.mp failed with failed | ⟨decrypted, ran, failed⟩
  · exact .inl (foldlM_runScheme_eq_error failed)
  · obtain ⟨turns, runs, same⟩ := foldlM_runScheme_eq_ok_iff.mp ran
    rcases Except.bind_eq_error.mp failed with failed | ⟨_, _, done⟩
    · obtain ⟨scheme, member, refused⟩ := Except.forM_eq_error failed
      rw [same, DecryptedModule.schemes_addAll] at member
      obtain ⟨turn, listed, rfl⟩ := List.mem_map.mp member
      exact .inr ⟨turns, decrypted.image, runs, turn, listed, refused⟩
    · cases done

end AnalyzedModule

end CilRecovery
