import IncrementalBuild.Inputs
import IncrementalBuild.Request
import IncrementalBuild.Text.Blank
import IncrementalBuild.Toml.Reader
import IncrementalBuild.Toml.Shape

/-!
# Request files

What is to be built is written in a TOML document with a section on the build
itself, one that selects the inputs and one that names the tools. Everything
but the name of the module has a default. Sections have no other keys than
those that mean something, and what other sections there are is passed over.

A document of the right shape may still ask for something that cannot be
built. The first fault that is found is the one reported.
-/

namespace IncrementalBuild

/-- **What a request file says.** -/
structure RequestFile where
  moduleName : String
  outputs : List OutputKind
  mode : CompilationMode
  jobs : Option Nat
  batchSize : Option Nat
  failFast : Bool
  outputDir : String
  stateFile : Option String
  explicitModules : Bool
  header : Option String
  libraries : List String
  compilerArgs : List String
  inputs : InputSelection
  tools : Toolchain

/-! ## Reading -/

/-- One more than the greatest count that a request file may give. -/
def countBound : Nat := UInt64.size

/-- The mode with exactly the given canonical name. -/
def CompilationMode.ofName? (name : String) : Option CompilationMode :=
  [perFile, wholeModule].find? (·.name == name)

namespace InputSelection

/-- No inputs at all. -/
def nothing : InputSelection := ⟨[], [], []⟩

/-- The selection that a section describes. -/
def ofToml? (v : Toml.Value) : Option InputSelection := do
  match ← v.section? ["files", "include", "exclude"] with
  | [files, included, excluded] =>
    let texts (v : Option Toml.Value) : Option (List String) :=
      Toml.Value.defaulted? (Toml.Value.list? Toml.Value.text?) [] v
    return ⟨← texts files, ← texts included, ← texts excluded⟩
  | _ => failure

end InputSelection

namespace Toolchain

/-- The tools where nothing is said about them. -/
def default : Toolchain := ⟨"cc", none, none⟩

/-- The tools that a section names. -/
def ofToml? (v : Toml.Value) : Option Toolchain := do
  match ← v.section? ["compiler", "linker", "scanner"] with
  | [compiler, linker, scanner] =>
    return {
      compiler := ← Toml.Value.defaulted? Toml.Value.text? default.compiler compiler
      linker := ← Toml.Value.optional? Toml.Value.text? linker
      scanner := ← Toml.Value.optional? Toml.Value.text? scanner }
  | _ => failure

end Toolchain

namespace RequestFile

/-- The keys of the section on the build itself. -/
def buildKeys : List String :=
  ["module_name", "outputs", "mode", "jobs", "batch_size", "fail_fast", "output_dir",
    "state_file", "explicit_modules", "bridging_header", "libraries", "compiler_args"]

/-- The request file that the section on the build describes, with the inputs
and the tools of the other sections. -/
def ofBuildSection? (inputs : InputSelection) (tools : Toolchain) (v : Toml.Value) :
    Option RequestFile := do
  match ← v.section? buildKeys with
  | [moduleName, outputs, mode, jobs, batchSize, failFast, outputDir, stateFile,
      explicitModules, header, libraries, compilerArgs] =>
    return {
      moduleName := ← moduleName.bind Toml.Value.text?
      outputs := ← Toml.Value.defaulted?
        (Toml.Value.list? (Toml.Value.choice? OutputKind.ofName?)) [.object] outputs
      mode := ← Toml.Value.defaulted? (Toml.Value.choice? CompilationMode.ofName?) .perFile mode
      jobs := ← Toml.Value.optional? (Toml.Value.natBelow? countBound) jobs
      batchSize := ← Toml.Value.optional? (Toml.Value.natBelow? countBound) batchSize
      failFast := ← Toml.Value.defaulted? Toml.Value.bool? false failFast
      outputDir := ← Toml.Value.defaulted? Toml.Value.text? "build" outputDir
      stateFile := ← Toml.Value.optional? Toml.Value.text? stateFile
      explicitModules := ← Toml.Value.defaulted? Toml.Value.bool? false explicitModules
      header := ← Toml.Value.optional? Toml.Value.text? header
      libraries := ← Toml.Value.defaulted? (Toml.Value.list? Toml.Value.text?) [] libraries
      compilerArgs := ← Toml.Value.defaulted? (Toml.Value.list? Toml.Value.text?) [] compilerArgs
      inputs, tools }
  | _ => failure

/-- The request file that a document describes. -/
def ofToml? (fields : Toml.Fields) : Option RequestFile := do
  let find (key : String) : Option Toml.Value := (fields.find? (·.1 = key)).map (·.2)
  let inputs ← Toml.Value.defaulted? InputSelection.ofToml? .nothing (find "inputs")
  let tools ← Toml.Value.defaulted? Toolchain.ofToml? .default (find "tools")
  ofBuildSection? inputs tools (← find "build")

/-- The request file that a text writes. -/
def read? (text : String) : Option RequestFile := (Toml.read? text).bind ofToml?

end RequestFile

/-! ## Faults -/

/-- What is wrong with what a request file asks for. -/
inductive ConfigurationFault where
  | emptyModuleName
  | moduleName (name : String)
  | noOutputs
  | repeatedOutput (output : OutputKind)
  | noJobs
  | noOutputDir
  | noInputs
  | pattern (error : GlobError)
  | noCompiler
  | noScanner
  /-- No file is an input. -/
  | nothingMatched (root : Path)

/-- The text of a fault. -/
def ConfigurationFault.message : ConfigurationFault → String
  | emptyModuleName => "[build].module_name must not be empty"
  | moduleName name =>
    "[build].module_name '" ++ name ++ "' may only contain letters, digits, '_' and '-'"
  | noOutputs => "[build].outputs must name at least one output"
  | repeatedOutput output => "[build].outputs lists '" ++ output.name ++ "' more than once"
  | noJobs => "[build].jobs must be >= 1 (got 0)"
  | noOutputDir => "[build].output_dir must not be empty"
  | noInputs => "[inputs] must list `files` or `include` patterns"
  | pattern e => "invalid glob pattern '" ++ e.pattern ++ "' in [inputs]: " ++ e.message
  | noCompiler => "[tools].compiler must not be empty"
  | noScanner => "[build].explicit_modules requires [tools].scanner"
  | nothingMatched root => "no inputs matched under " ++ root.quoted

namespace RequestFile

/-- Whether a character may stand in the name of a module. -/
def isNameChar (c : Char) : Bool := c.isAlphanum || c == '_' || c == '-'

/-- The first output of a list that stands in it before. -/
def repeatedOutput? : List OutputKind → Option OutputKind
  | outputs => go [] outputs
where
  /-- The first of the outputs that is among those seen before, or comes
  twice. -/
  go (seen : List OutputKind) : List OutputKind → Option OutputKind
    | [] => none
    | o :: rest => if seen.contains o then some o else go (o :: seen) rest

/-- The first pattern that is none. -/
def patternFault? (s : InputSelection) : Option GlobError :=
  (s.included ++ s.excluded).findSome? fun p =>
    match Glob.parse p with
    | .ok _ => none
    | .error e => some e

/-- A fault that is there under a condition. -/
def faultIf (condition : Bool) (fault : ConfigurationFault) : Option ConfigurationFault :=
  if condition then some fault else none

/-- What may be wrong with a request file, in the order in which it is
reported. -/
def faults (f : RequestFile) : List (Option ConfigurationFault) :=
  [faultIf (f.moduleName = "") .emptyModuleName,
    faultIf (!f.moduleName.toList.all isNameChar) (.moduleName f.moduleName),
    faultIf f.outputs.isEmpty .noOutputs,
    (repeatedOutput? f.outputs).map .repeatedOutput,
    faultIf (f.jobs = some 0) .noJobs,
    faultIf (Text.trim f.outputDir = "") .noOutputDir,
    faultIf (f.inputs.files.isEmpty && f.inputs.included.isEmpty) .noInputs,
    (patternFault? f.inputs).map .pattern,
    faultIf (Text.trim f.tools.compiler = "") .noCompiler,
    faultIf (f.explicitModules && f.tools.scanner.isNone) .noScanner]

/-- **The first fault of a request file.** -/
def fault? (f : RequestFile) : Option ConfigurationFault := f.faults.findSome? id

end RequestFile

end IncrementalBuild
