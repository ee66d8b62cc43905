import IncrementalBuild.Fingerprint
import IncrementalBuild.Options
import IncrementalBuild.OrderedMap

/-!
# Build requests

A request says what is to be built: the inputs with the fingerprints of their
contents, the products, the tools, and how the build is to go about it. The
choices that every command of a build depends on have a fingerprint of their
own, by which a later build sees whether it may trust the state this one
leaves behind.
-/

namespace IncrementalBuild

/-- A file whose content a build follows. -/
structure InputFile where
  path : Path
  fingerprint : Fingerprint
  deriving Inhabited

/-- The input at a path, with its content as it is now. -/
def InputFile.ofPath {φ : Type} [FileSystem φ] (fs : φ) (p : Path) :
    Except FileError InputFile :=
  (Fingerprint.ofFile fs p).map (⟨p, ·⟩)

/-- The programs that a build runs. -/
structure Toolchain where
  compiler : String
  linker : Option String
  scanner : Option String

/-- **What is to be built.** -/
structure BuildRequest where
  moduleName : String
  inputs : List InputFile
  outputs : OrderedSet OutputKind
  mode : CompilationMode
  /-- How many jobs may run at once. -/
  concurrency : Nat
  /-- How many inputs one compile job may take, where they are batched. -/
  batchSize : Option Nat
  policy : FailurePolicy
  libraries : List Path
  /-- A header that is compiled before everything else. -/
  header : Option InputFile
  /-- Whether the modules that the inputs import are built first. -/
  explicitModules : Bool
  compilerArgs : List String
  outputDir : Path
  /-- Where the state of the build is kept. -/
  statePath : Path
  tools : Toolchain

namespace BuildRequest

/-- All files whose content the build follows. -/
def trackedInputs (r : BuildRequest) : List InputFile := r.inputs ++ r.header.toList

def sourcePaths (r : BuildRequest) : List Path := r.inputs.map (·.path)

/-- The products of the linker that are asked for. -/
def linkOutputs (r : BuildRequest) : List LinkOutput :=
  r.outputs.toList.filterMap OutputKind.linkOutput?

def needsObjects (r : BuildRequest) : Bool :=
  r.outputs.contains .object || !r.linkOutputs.isEmpty

def wantsInterface (r : BuildRequest) : Bool := r.outputs.contains .interface

def needsModule (r : BuildRequest) : Bool := r.outputs.contains .module || r.wantsInterface

/-- The fingerprint of what every command of the build depends on. -/
def optionsFingerprint (r : BuildRequest) : Fingerprint :=
  Fingerprint.aggregate
    (([r.moduleName, r.mode.name, r.tools.compiler, r.outputDir.text]
      ++ r.compilerArgs).map Fingerprint.ofText)

end BuildRequest

end IncrementalBuild
