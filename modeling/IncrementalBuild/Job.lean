import IncrementalBuild.Artifact
import IncrementalBuild.Command
import IncrementalBuild.Options
import IncrementalBuild.OrderedMap

/-!
# Jobs

A job runs one command. It is known across builds by its key, a text made from
what it produces, and within a graph by its position. A compile job may stand
for several inputs, each a unit of its own that remembers the key of the job
it was planned as.
-/

namespace IncrementalBuild

/-- The place of a job in its graph. -/
abbrev JobId := Nat

/-- The name by which a job is known across builds. -/
structure JobKey where
  text : String
  deriving DecidableEq, Inhabited

namespace JobKey

instance : ToString JobKey := ⟨text⟩

instance : Ord JobKey := ⟨compareOn text⟩

instance : Std.TransOrd JobKey := inferInstanceAs (Std.TransCmp (compareOn text))

def compile (primary : Path) : JobKey := ⟨"compile:" ++ primary.text⟩
def compileModule (name : String) : JobKey := ⟨"compile:" ++ name⟩
def batch (first last : Path) : JobKey := ⟨"batch:" ++ first.text ++ ".." ++ last.text⟩
def mergeModule (name : String) : JobKey := ⟨"merge-module:" ++ name⟩
def generateInterface (name : String) : JobKey := ⟨"generate-interface:" ++ name⟩
def precompileHeader (header : Path) : JobKey := ⟨"generate-pch:" ++ header.text⟩
def buildModule (name : String) : JobKey := ⟨"build-module:" ++ name⟩
def link (product : Path) : JobKey := ⟨"link:" ++ product.text⟩

end JobKey

/-- One input of a compile job. -/
structure CompileUnit where
  /-- The input that is compiled. -/
  primary : Path
  outputs : List Artifact
  /-- Where the compiler writes the input's dependency record. -/
  record : Option Artifact
  /-- The key of the job that was planned for the input. -/
  origin : JobKey
  deriving BEq, Inhabited

/-- What a job does. -/
inductive JobKind where
  | compile (units : List CompileUnit) (wholeModule : Bool)
  | mergeModule (name : String)
  | generateInterface (name : String)
  | precompileHeader (header : Path)
  | buildModule (name : String)
  | link (output : LinkOutput)
  deriving BEq, Inhabited

/-- The name of a kind of job. -/
def JobKind.name : JobKind → String
  | compile _ true => "compile-module"
  | compile units false => if units.length > 1 then "batch-compile" else "compile"
  | mergeModule _ => "merge-module"
  | generateInterface _ => "generate-interface"
  | precompileHeader _ => "generate-pch"
  | buildModule _ => "build-module"
  | link _ => "link"

/-- **A job**: a command, what it reads and writes, and the jobs that have to
be done before it. -/
structure Job where
  id : JobId
  key : JobKey
  kind : JobKind
  inputs : List Artifact
  outputs : List Artifact
  command : Command
  prerequisites : OrderedSet JobId
  deriving Inhabited

namespace Job

/-- The units of a compile job; none for any other. -/
def units (j : Job) : List CompileUnit :=
  match j.kind with
  | .compile units _ => units
  | _ => []

/-- The inputs that a job compiles one by one. -/
def primaries (j : Job) : List Path := j.units.map (·.primary)

/-- The keys of the jobs that this one was planned as. -/
def originKeys (j : Job) : List JobKey :=
  match j.units with
  | [] => [j.key]
  | units => units.map (·.origin)

/-- The source files among a job's inputs. -/
def sourceInputs (j : Job) : List Path :=
  (j.inputs.filter (·.fileType == .source)).map (·.path)

def isCompile (j : Job) : Bool :=
  match j.kind with
  | .compile _ _ => true
  | _ => false

/-- Whether a job compiles all inputs of the module together. -/
def isWholeModule (j : Job) : Bool :=
  match j.kind with
  | .compile _ wholeModule => wholeModule
  | _ => false

/-- Whether a job builds a module that this one imports. -/
def isModuleBuild (j : Job) : Bool :=
  match j.kind with
  | .buildModule _ => true
  | _ => false

end Job

end IncrementalBuild
