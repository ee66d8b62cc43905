import IncrementalBuild.BuildState.Store
import IncrementalBuild.PlanningError
import IncrementalBuild.RequestFile

/-!
# From a request file to a build request

The paths of a request file are seen from the directory it lies in. The inputs
are found there and their contents read, and what was chosen on the command
line takes the place of what the file says.
-/

namespace IncrementalBuild

/-- What the content of a file was read for. -/
inductive TrackedRole where
  | input
  | header
  deriving DecidableEq

/-- What was being done when the content of a file could not be read. -/
def TrackedRole.action : TrackedRole → String
  | input => "fingerprinting inputs"
  | header => "fingerprinting bridging header"

/-- **Why a build does not come about.** -/
inductive BuildError where
  | configuration (fault : ConfigurationFault)
  /-- The request file is no TOML document of the right shape. -/
  | notToml
  | planning (error : PlanningError)
  | requestFile (error : FileError)
  | inputs (error : InputError)
  | tracked (role : TrackedRole) (error : FileError)

/-- The texts of an error and its causes, the outermost first. What is wrong
with a document that is no TOML is not part of it. -/
def BuildError.chain : BuildError → List String
  | configuration fault => ["Configuration error: " ++ fault.message]
  | notToml => ["TOML parsing error: <toml>"]
  | planning e => [e.message]
  | requestFile e => e.chain
  | inputs e => e.chain
  | tracked role e => role.action :: e.chain

/-- What is chosen on a command line instead of in a request file. -/
structure Overrides where
  jobs : Option Nat
  batchSize : Option Nat
  failFast : Bool
  mode : Option CompilationMode
  state : Option Path

namespace RequestFile

/-- The directory that the paths of a request file are seen from. A mere file
name is seen from the working directory. -/
def rootOf (requestPath workingDir : Path) : Path :=
  match requestPath.parent with
  | some dir => if dir.text = "" then workingDir else dir
  | none => workingDir

section Files

variable {φ : Type} [FileSystem φ] (fs : φ)

/-- Reads a request file, which has to be free of faults. -/
def load (requestPath : Path) : Except BuildError RequestFile :=
  match FileSystem.readText fs requestPath with
  | .error e => .error (.requestFile e)
  | .ok text =>
    match read? text with
    | none => .error .notToml
    | some f =>
      match f.fault? with
      | some fault => .error (.configuration fault)
      | none => .ok f

/-- The inputs of a request file with their contents. -/
def trackedInputs (f : RequestFile) (root : Path) : Except BuildError (List InputFile) := do
  let paths ← (f.inputs.find fs root).mapError .inputs
  let inputs ← (paths.mapM (InputFile.ofPath fs)).mapError (.tracked .input)
  if inputs.isEmpty then throw (.configuration (.nothingMatched root))
  return inputs

/-- The header of a request file with its content, if it names one. -/
def trackedHeader (f : RequestFile) (root : Path) : Except BuildError (Option InputFile) :=
  match f.header with
  | none => .ok none
  | some header =>
    ((InputFile.ofPath fs (root.join ⟨header⟩)).map some).mapError (.tracked .header)

/-- Where the state of the build is kept. -/
def statePath (f : RequestFile) (root : Path) (o : Overrides) : Path :=
  match o.state, f.stateFile with
  | some state, _ => state
  | none, some file => root.join ⟨file⟩
  | none, none => (root.join ⟨f.outputDir⟩).join ⟨stateFileName⟩

/-- How many jobs may run at once, if anything is said about it. -/
def concurrency? (f : RequestFile) (o : Overrides) : Option Nat :=
  (o.jobs.or f.jobs).map (max 1)

/-- **The build request of a request file.** Where nothing is said about it,
as many jobs run at once as there are processors. -/
def resolve (f : RequestFile) (root : Path) (o : Overrides) (processors : Nat) :
    Except BuildError BuildRequest := do
  let inputs ← f.trackedInputs fs root
  let header ← f.trackedHeader fs root
  return {
    moduleName := f.moduleName
    inputs
    outputs := OrderedSet.ofList f.outputs
    mode := o.mode.getD f.mode
    concurrency := (f.concurrency? o).getD (max 1 processors)
    batchSize := o.batchSize.or f.batchSize
    policy := if o.failFast || f.failFast then .failFast else .continueOnFailure
    libraries := f.libraries.map fun l => root.join ⟨l⟩
    header
    explicitModules := f.explicitModules
    compilerArgs := f.compilerArgs
    outputDir := root.join ⟨f.outputDir⟩
    statePath := f.statePath root o
    tools := f.tools }

end Files

end RequestFile

end IncrementalBuild
