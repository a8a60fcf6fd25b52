import CilRecovery.Proofs.PatchEngine.Rebinding
import CilRecovery.Proofs.PatchEngine.Writes
import CilRecovery.Proofs.ProtectedModule.Run
import CilRecovery.Proofs.WordMap

/-!
# Running schemes one after the other

Running two lists of schemes in a row is running the first and then the second on what the first
left. No change is lost on the way: the bytes that a scheme wrote are those that the next one
sees, and a scheme that counts no writes has none to lose.
-/

set_option autoImplicit false

namespace CilRecovery

variable {harvest : Harvest} {image middle final : Image} {scheme : Scheme} {turn : Turn}
  {schemes first second : List Scheme} {turns : List Turn}

/-! ## Layouts -/

/-- Two images differ in nothing but their bytes and generations. -/
structure Image.SameLayout (left right : Image) : Prop where
  length : left.data.length = right.data.length
  sections : left.sections = right.sections
  methodAddresses : left.methodAddresses = right.methodAddresses
  resources : left.resources = right.resources

namespace Image.SameLayout

theorem refl (image : Image) : image.SameLayout image := ⟨rfl, rfl, rfl, rfl⟩

theorem trans {left right : Image} (before : left.SameLayout middle)
    (after : middle.SameLayout right) : left.SameLayout right where
  length := before.length.trans after.length
  sections := before.sections.trans after.sections
  methodAddresses := before.methodAddresses.trans after.methodAddresses
  resources := before.resources.trans after.resources

end Image.SameLayout

/-! ## Turns -/

/-- A turn changed its copy in place, and only if it counted writes. -/
structure Turn.Faithful (turn : Turn) : Prop where
  length : turn.target.length = turn.before.data.length
  untouched : turn.contribution.writes = 0 → turn.target = turn.before.data

private theorem PatchEngine.apply_faithful {engine : PatchEngine} {stream target : Bytes}
    {outcome : PatchEngine.Outcome}
    (applied : (engine.apply stream image target).result = .ok outcome) :
    (engine.apply stream image target).target.length = target.length ∧
      (outcome.writes = 0 → (engine.apply stream image target).target = target) := by
  obtain ⟨records, writes, seen, prepared, chain, -⟩ := collectsAll_of_apply applied
  rw [apply_of_collectsAll prepared chain] at applied ⊢
  have counted : writes.length = outcome.writes := congrArg Outcome.writes (Except.ok.inj applied)
  obtain ⟨plans, rfl⟩ := prepare_eq_ok_iff.mp prepared
  refine ⟨plans.written.length, fun none => ?_⟩
  rw [List.length_eq_zero_iff.mp (counted.trans none)]
  rfl

private theorem Scheme.Patches.faithful {payload : Payload} {contribution : Contribution}
    {target patched : Bytes} {after : Scheme}
    (patches : Patches image target scheme payload contribution patched after) :
    patched.length = target.length ∧ (contribution.writes = 0 → patched = target) := by
  cases patches with
  | withoutMethods => exact ⟨rfl, fun _ => rfl⟩
  | methods applied => exact PatchEngine.apply_faithful applied
  | withoutResource => exact ⟨rfl, fun _ => rfl⟩
  | resource => exact ⟨rfl, fun _ => rfl⟩
  | words applied =>
      refine ⟨PatchTable.length_apply applied, fun none => ?_⟩
      cases List.length_eq_zero_iff.mp none
      exact PatchTable.apply_nil applied
  | observed => exact ⟨rfl, fun _ => rfl⟩

/-- No kind of scheme changes bytes without counting writes. -/
theorem Scheme.turn_faithful (taken : scheme.turn harvest image = .ok turn) : turn.Faithful := by
  obtain ⟨before, payload, -, patches⟩ := Scheme.turn_eq_ok taken
  obtain ⟨length, untouched⟩ := patches.faithful
  exact ⟨before ▸ length, fun none => before ▸ untouched none⟩

namespace Turn

/-- The next scheme sees all that was written. -/
theorem Faithful.data_after (faithful : turn.Faithful) : turn.after.data = turn.target := by
  unfold after
  by_cases wrote : 0 < turn.contribution.writes
  · rw [if_pos wrote]
    rfl
  · rw [if_neg wrote, faithful.untouched (Nat.eq_zero_of_not_pos wrote)]

theorem Faithful.after_sameLayout (faithful : turn.Faithful) :
    turn.after.SameLayout turn.before := by
  have length : turn.after.data.length = turn.before.data.length := by
    rw [faithful.data_after, faithful.length]
  by_cases wrote : 0 < turn.contribution.writes
  · have reloaded : turn.after = turn.before.reload turn.target := if_pos wrote
    rw [reloaded] at length ⊢
    exact ⟨length, rfl, rfl, rfl⟩
  · rw [after, if_neg wrote]
    exact .refl _

theorem generation_after (turn : Turn) :
    turn.after.generation =
      turn.before.generation + if 0 < turn.contribution.writes then 1 else 0 := by
  unfold after
  split <;> rfl

end Turn

/-! ## Fresh schemes -/

/-- A scheme as it is built, whose engine has not seen anything. -/
def Scheme.IsFresh : Scheme → Prop
  | .nativeMethods _ engine => engine = .ofHints engine.hints
  | _ => True

private theorem PatchEngine.run_of_fresh {context : ResourceContext} {engine : PatchEngine}
    (fresh : (Scheme.nativeMethods context engine).IsFresh) (image : Image) :
    PatchEngine.Run engine.hints image engine [] := by
  have same : engine = .ofHints engine.hints := fresh
  exact same ▸ .fresh

/-- What a fresh scheme refers to after its turn is in every image with the same rows. -/
private theorem Scheme.Patches.rebind {payload : Payload} {contribution : Contribution}
    {target patched : Bytes} {after : Scheme}
    (patches : Patches image target scheme payload contribution patched after)
    (fresh : scheme.IsFresh) (few : image.methodAddresses.length < Token.rowLimit) {other : Image}
    (rows : other.methodAddresses = image.methodAddresses) : after.rebind other = .ok () := by
  cases patches with
  | withoutMethods => exact (PatchEngine.run_of_fresh fresh image).rebind_kept few rows
  | methods applied =>
      exact ((PatchEngine.run_of_fresh fresh image).apply applied).rebind_kept few rows
  | withoutResource => rfl
  | resource => rfl
  | words => rfl
  | observed => rfl

/-! ## Runs -/

/-- A run went by the book: each turn found the layout of the first image and changed bytes only
if it counted writes, its bytes were carried on, every turn with writes made a generation, and
what the schemes refer to is still there in the end. -/
structure Accounted (image : Image) (turns : List Turn) (final : Image) : Prop where
  layouts : ∀ turn ∈ turns, turn.before.SameLayout image
  layout : final.SameLayout image
  faithful : ∀ turn ∈ turns, turn.Faithful
  carried : ∀ turn ∈ turns, turn.after.data = turn.target
  generation : final.generation =
    image.generation + turns.countP fun turn => 0 < turn.contribution.writes
  bound : ∀ turn ∈ turns, turn.scheme.rebind final = .ok ()

/-- Rebinding succeeds because the tokens of fresh engines are those of rows, which no turn changes.
-/
theorem Runs.accounted (runs : Runs harvest image schemes turns final)
    (fresh : ∀ scheme ∈ schemes, scheme.IsFresh)
    (few : image.methodAddresses.length < Token.rowLimit) : Accounted image turns final := by
  induction runs with
  | nil =>
      exact ⟨List.forall_mem_nil _, .refl _, List.forall_mem_nil _, List.forall_mem_nil _, rfl,
        List.forall_mem_nil _⟩
  | @cons image final scheme schemes turn turns first others ih =>
      obtain ⟨rfl, payload, -, patches⟩ := Scheme.turn_eq_ok first
      have faithful := Scheme.turn_faithful first
      have after := faithful.after_sameLayout
      have rest := ih (fun other member => fresh other (List.mem_cons_of_mem _ member))
        (after.methodAddresses ▸ few)
      have layout := rest.layout.trans after
      refine ⟨List.forall_mem_cons.mpr ⟨.refl _, fun other member =>
        (rest.layouts other member).trans after⟩, layout,
        List.forall_mem_cons.mpr ⟨faithful, rest.faithful⟩,
        List.forall_mem_cons.mpr ⟨faithful.data_after, rest.carried⟩, ?_,
        List.forall_mem_cons.mpr ⟨?_, rest.bound⟩⟩
      · rw [rest.generation, turn.generation_after, List.countP_cons]
        simp only [decide_eq_true_eq]
        omega
      · -- The check is against the last image, of which the rows are those of this one.
        exact patches.rebind (fresh scheme List.mem_cons_self) few layout.methodAddresses

/-- A run over two lists is a run over the first one and, from where it ends, one over the second.
-/
theorem Runs.append_iff :
    Runs harvest image (first ++ second) turns final ↔
      ∃ before middle after, turns = before ++ after ∧ Runs harvest image first before middle ∧
        Runs harvest middle second after final := by
  induction first generalizing image turns with
  | nil =>
      constructor
      · intro runs
        exact ⟨[], image, turns, rfl, .nil, runs⟩
      · rintro ⟨before, middle, after, rfl, none, runs⟩
        cases none
        exact runs
  | cons scheme first ih =>
      constructor
      · intro runs
        cases runs with
        | cons taken others =>
            obtain ⟨before, middle, after, rfl, left, right⟩ := ih.mp others
            exact ⟨_ :: before, middle, after, rfl, .cons taken left, right⟩
      · rintro ⟨before, middle, after, rfl, left, right⟩
        cases left with
        | cons taken left => exact .cons taken (ih.mpr ⟨_, middle, after, rfl, left, right⟩)

namespace DecryptedModule

/-- A module holds what two modules hold, of which the second was recovered from the image of the
first. -/
structure Joins (left right result : DecryptedModule) : Prop where
  image : result.image = right.image
  methods : ∀ token, result.methods.get? token =
    (right.methods.get? token).or (left.methods.get? token)
  resources : result.resources = left.resources ++ right.resources
  schemes : result.schemes = left.schemes ++ right.schemes

def join (left right : DecryptedModule) : DecryptedModule where
  image := right.image
  methods := left.methods.override right.methods
  resources := left.resources ++ right.resources
  schemes := left.schemes ++ right.schemes

/-- The relational account of joining determines the joined module. -/
theorem joins_iff {left right result : DecryptedModule} :
    left.Joins right result ↔ result = left.join right := by
  constructor
  · rintro ⟨image, methods, resources, schemes⟩
    have table : result.methods = left.methods.override right.methods := by
      refine WordMap.ext_find? fun key => ?_
      rw [WordMap.find?_override]
      exact methods ⟨key⟩
    cases result
    cases image
    cases table
    cases resources
    cases schemes
    rfl
  · rintro rfl
    exact ⟨rfl, fun token => WordMap.find?_override _ _ token.value, rfl, rfl⟩

theorem add_join (left right : DecryptedModule) (turn : Turn) :
    (left.join right).add turn = left.join (right.add turn) := by
  simp only [add, join, WordMap.override_assoc, List.append_assoc]

theorem addAll_join (left right : DecryptedModule) (turns : List Turn) :
    (left.join right).addAll turns = left.join (right.addAll turns) := by
  induction turns generalizing right with
  | nil => rfl
  | cons turn turns ih =>
      have first := add_join left right turn
      exact (congrArg (addAll · turns) first).trans (ih (right.add turn))

theorem join_start (left : DecryptedModule) : left.join (start left.image) = left := by
  simp only [join, start, WordMap.override_empty, List.append_nil]

end DecryptedModule

namespace AnalyzedModule

open DecryptedModule (start)

/-- For fresh schemes rebinding never fails, so a run is all there is to a decryption. -/
theorem decrypt_eq_ok_iff_runs (fresh : ∀ scheme ∈ schemes, scheme.IsFresh)
    (few : image.methodAddresses.length < Token.rowLimit) {result : DecryptedModule} :
    decrypt harvest ⟨image, schemes⟩ = .ok result ↔
      ∃ turns, Runs harvest image schemes turns result.image ∧
        result = (start image).addAll turns := by
  rw [decrypt_eq_ok_iff]
  constructor
  · rintro ⟨turns, runs, same, -⟩
    exact ⟨turns, runs, same⟩
  · rintro ⟨turns, runs, same⟩
    exact ⟨turns, runs, same, (runs.accounted fresh few).bound⟩

private theorem addAll_append (before after : List Turn) :
    (start image).addAll (before ++ after) =
      ((start image).addAll before).join
        ((start ((start image).addAll before).image).addAll after) := by
  rw [← DecryptedModule.addAll_join, DecryptedModule.join_start]
  exact List.foldl_append

private theorem exists_decrypt_iff_runs (fresh : ∀ scheme ∈ schemes, scheme.IsFresh)
    (few : image.methodAddresses.length < Token.rowLimit) :
    (∃ result, decrypt harvest ⟨image, schemes⟩ = .ok result ∧ result.image = final) ↔
      ∃ turns, Runs harvest image schemes turns final := by
  constructor
  · rintro ⟨result, succeeded, rfl⟩
    obtain ⟨turns, runs, -⟩ := (decrypt_eq_ok_iff_runs fresh few).mp succeeded
    exact ⟨turns, runs⟩
  · rintro ⟨turns, runs⟩
    have reached : ((start image).addAll turns).image = final := runs.image_addAll rfl
    exact ⟨_, (decrypt_eq_ok_iff_runs fresh few).mpr ⟨turns, reached.symm ▸ runs, rfl⟩, reached⟩

private theorem decrypt_append_eq_ok_iff (few : image.methodAddresses.length < Token.rowLimit)
    (freshFirst : ∀ scheme ∈ first, scheme.IsFresh)
    (freshSecond : ∀ scheme ∈ second, scheme.IsFresh) {result : DecryptedModule} :
    decrypt harvest ⟨image, first ++ second⟩ = .ok result ↔
      ∃ left right, decrypt harvest ⟨image, first⟩ = .ok left ∧
        decrypt harvest ⟨left.image, second⟩ = .ok right ∧ left.Joins right result := by
  have fresh := List.forall_mem_append.mpr ⟨freshFirst, freshSecond⟩
  rw [decrypt_eq_ok_iff_runs fresh few]
  constructor
  · rintro ⟨turns, runs, same⟩
    obtain ⟨before, middle, after, rfl, left, right⟩ := Runs.append_iff.mp runs
    have kept := (left.accounted freshFirst few).layout.methodAddresses
    have reached : ((start image).addAll before).image = middle := left.image_addAll rfl
    subst reached
    have ended : ((start ((start image).addAll before).image).addAll after).image =
        result.image := right.image_addAll rfl
    refine ⟨(start image).addAll before,
      (start ((start image).addAll before).image).addAll after, ?_, ?_, ?_⟩
    · exact (decrypt_eq_ok_iff_runs freshFirst few).mpr ⟨before, left, rfl⟩
    · exact (decrypt_eq_ok_iff_runs freshSecond (kept ▸ few)).mpr ⟨after, ended ▸ right, rfl⟩
    · rw [DecryptedModule.joins_iff, same, addAll_append]
  · rintro ⟨left, right, ranFirst, ranSecond, joins⟩
    obtain ⟨before, leftRuns, sameLeft⟩ := (decrypt_eq_ok_iff_runs freshFirst few).mp ranFirst
    have kept := (leftRuns.accounted freshFirst few).layout.methodAddresses
    obtain ⟨after, rightRuns, sameRight⟩ :=
      (decrypt_eq_ok_iff_runs freshSecond (kept ▸ few)).mp ranSecond
    refine ⟨before ++ after, ?_, ?_⟩
    · rw [joins.image]
      exact Runs.append_iff.mpr ⟨before, left.image, after, rfl, leftRuns, rightRuns⟩
    · rw [DecryptedModule.joins_iff.mp joins, addAll_append, ← sameLeft, ← sameRight]

/-- Running schemes composes. It fails only in the turn of a scheme, and every run, also one up to
a scheme that fails, is accounted for. -/
theorem decrypt_append (harvest : Harvest)
    (few : image.methodAddresses.length < Token.rowLimit)
    (fresh : ∀ scheme ∈ first ++ second, scheme.IsFresh) :
    (∀ result, decrypt harvest ⟨image, first ++ second⟩ = .ok result ↔
      ∃ left right, decrypt harvest ⟨image, first⟩ = .ok left ∧
        decrypt harvest ⟨left.image, second⟩ = .ok right ∧ left.Joins right result) ∧
    ∀ ran, ran <+: first ++ second →
      (∀ final, (∃ result, decrypt harvest ⟨image, ran⟩ = .ok result ∧ result.image = final) ↔
        ∃ turns, Runs harvest image ran turns final) ∧
      ∀ turns final, Runs harvest image ran turns final → Accounted image turns final := by
  obtain ⟨freshFirst, freshSecond⟩ := List.forall_mem_append.mp fresh
  refine ⟨fun result => decrypt_append_eq_ok_iff few freshFirst freshSecond, ?_⟩
  intro ran included
  have freshRan : ∀ scheme ∈ ran, scheme.IsFresh :=
    fun scheme member => fresh scheme (included.subset member)
  exact ⟨fun final => exists_decrypt_iff_runs freshRan few,
    fun turns final runs => runs.accounted freshRan few⟩

/-- A helper that observes one method, the code of which is the whole target. -/
private def echoHarvest : Harvest
  | _, _, .bytes data, _ =>
      .ok (MethodTable.add .empty ⟨⟨0x06000001⟩, 1, ⟨⟨2, 8, 4, 0⟩, data, none⟩⟩)
  | _, _, .path _, _ => .ok .empty

/-- Four bytes to be patched, and one method. -/
private def blankImage : Image := ⟨[0, 0, 0, 0], [], [1], [], 0⟩

/-- Patches the image and then observes it. There is no resource with method bodies. -/
private def patchAndObserve (value : UInt32) : List Scheme :=
  [.memoryPatch [⟨0, value⟩] .virtualAddress, .oracle .default .clr40 [],
    .nativeMethods ⟨"bodies", .aes, [], [], none, none, .none⟩ (.ofHints ⟨true, false, 0⟩)]

private theorem fresh_patchAndObserve (value : UInt32) :
    ∀ scheme ∈ patchAndObserve value, scheme.IsFresh :=
  List.forall_mem_cons.mpr ⟨trivial, List.forall_mem_cons.mpr ⟨trivial,
    List.forall_mem_singleton.mpr rfl⟩⟩

/-- The second observation sees both patches and takes the place of the first one. -/
theorem decrypt_append_twice :
    let first := patchAndObserve 0x04030201
    let second := patchAndObserve 0x0D0C0B0A
    ∃ result left right, decrypt echoHarvest ⟨blankImage, first ++ second⟩ = .ok result ∧
      decrypt echoHarvest ⟨blankImage, first⟩ = .ok left ∧
      decrypt echoHarvest ⟨left.image, second⟩ = .ok right ∧ left.Joins right result ∧
      result.image = ⟨[0x0A, 0x0B, 0x0C, 0x0D], [], [1], [], 2⟩ ∧
      (result.methods.get? ⟨0x06000001⟩).map (·.body.code) = some [0x0A, 0x0B, 0x0C, 0x0D] := by
  intro first second
  have few : blankImage.methodAddresses.length < Token.rowLimit := by decide
  have fresh : ∀ scheme ∈ first ++ second, scheme.IsFresh :=
    List.forall_mem_append.mpr ⟨fresh_patchAndObserve _, fresh_patchAndObserve _⟩
  have recovered : (decrypt echoHarvest ⟨blankImage, first ++ second⟩).toOption.map
      (fun result => (result.image, (result.methods.get? ⟨0x06000001⟩).map (·.body.code))) =
      some (⟨[0x0A, 0x0B, 0x0C, 0x0D], [], [1], [], 2⟩, some [0x0A, 0x0B, 0x0C, 0x0D]) := by
    decide +kernel
  cases ran : decrypt echoHarvest ⟨blankImage, first ++ second⟩ with
  | error error =>
      rw [ran] at recovered
      cases recovered
  | ok result =>
      rw [ran] at recovered
      obtain ⟨final, code⟩ := Prod.mk.inj (Option.some.inj recovered)
      obtain ⟨left, right, ranFirst, ranSecond, joins⟩ :=
        ((decrypt_append echoHarvest few fresh).1 result).mp ran
      exact ⟨result, left, right, rfl, ranFirst, ranSecond, joins, final, code⟩

end AnalyzedModule

end CilRecovery
