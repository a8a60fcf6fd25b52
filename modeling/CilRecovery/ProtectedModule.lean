import CilRecovery.Scheme

/-!
# Modules and batches

A module is recovered scheme by scheme, and a batch is a list of files that share nothing.
-/

set_option autoImplicit false

namespace CilRecovery

/-!
## Modules under recovery

A module is analyzed, which binds the schemes that are present, and then decrypted by running them
in order. Whenever a scheme wrote into its copy of the image, the next one sees the copy.
-/

structure AnalyzedModule where
  image : Image
  schemes : List Scheme

structure DecryptedModule where
  image : Image
  methods : MethodTable
  resources : List RecoveredResource
  schemes : List Scheme

namespace AnalyzedModule

def analyze (image : Image) (candidates : List Scheme) : AnalyzedModule :=
  ⟨image, candidates.filter (·.isPresent image)⟩

def kinds (module_ : AnalyzedModule) : List SchemeKind := module_.schemes.map Scheme.kind

def isProtected (module_ : AnalyzedModule) : Bool := !module_.schemes.isEmpty

/-- Runs one more scheme. Its methods take the place of earlier ones with their tokens. -/
def runScheme (harvest : Harvest) (module_ : DecryptedModule) (scheme : Scheme) :
    Except Error DecryptedModule := do
  let image := module_.image
  let payload ← scheme.decrypt harvest image
  let patched := scheme.patch image payload image.data
  let contribution ← patched.result
  return {
    image := if 0 < contribution.writes then image.reload patched.target else image
    methods := module_.methods.override contribution.methods
    resources := module_.resources ++ contribution.resources
    schemes := module_.schemes ++ [patched.scheme] }

/-- Runs every bound scheme and then checks each against the final image. -/
def decrypt (harvest : Harvest) (module_ : AnalyzedModule) : Except Error DecryptedModule := do
  let decrypted ← module_.schemes.foldlM (runScheme harvest) ⟨module_.image, .empty, [], []⟩
  decrypted.schemes.forM (·.rebind decrypted.image)
  return decrypted

end AnalyzedModule

namespace DecryptedModule

/-- Writes back the given schemes in order, and counts what they wrote. -/
def writeBackAll : List Scheme → EStateM Error Image Nat
  | [] => return 0
  | scheme :: rest => do
      let count ← scheme.writeBack
      let others ← writeBackAll rest
      return count + others

/-- Encrypts into the output everything that has to stay encrypted, and counts it. A failure keeps
what earlier schemes wrote. -/
def writeBack (module_ : DecryptedModule) : EStateM Error Image Nat :=
  writeBackAll module_.schemes

end DecryptedModule

end CilRecovery

namespace CilRecovery.Batch

/-!
## Batches of files

Files share nothing, so each gets its own report, in the order of the input. A file whose
processing fails or is aborted does not stop the others.
-/

variable {α : Type}

/-- How processing of a file went: to a result, or to an abort that may have said why. -/
inductive Attempt (α : Type)
  | finished (result : Except Error α)
  | aborted (message : Option String)

inductive Outcome (α : Type)
  /-- The protection was removed. -/
  | recovered (value : α)
  /-- There is no protection that can be removed. -/
  | notApplicable (error : Error)
  /-- The protection is there and was not removed. -/
  | failed (error : Error)
  /-- Processing was aborted. -/
  | aborted (message : String)

def Outcome.classify : Attempt α → Outcome α
  | .finished (.ok value) => .recovered value
  | .finished (.error error) =>
      if error.severity = .notApplicable then .notApplicable error else .failed error
  | .aborted message => .aborted (message.getD "unknown panic")

structure Report (α : Type) where
  path : String
  outcome : Outcome α

def Report.isRecovered (report : Report α) : Bool :=
  match report.outcome with
  | .recovered _ => true
  | _ => false

/-- How many files ended how. Aborted files count as failed. -/
structure Summary where
  recovered : Nat
  notApplicable : Nat
  failed : Nat
  deriving DecidableEq

def Summary.add (summary : Summary) (report : Report α) : Summary :=
  match report.outcome with
  | .recovered _ => { summary with recovered := summary.recovered + 1 }
  | .notApplicable _ => { summary with notApplicable := summary.notApplicable + 1 }
  | .failed _ | .aborted _ => { summary with failed := summary.failed + 1 }

def Summary.ofReports (reports : List (Report α)) : Summary :=
  reports.foldl Summary.add ⟨0, 0, 0⟩

/-- The reports of files, each processed by itself. -/
def run (paths : List String) (process : String → Attempt α) : List (Report α) :=
  paths.map fun path => ⟨path, Outcome.classify (process path)⟩

end CilRecovery.Batch
