import IncrementalBuild.Artifact
import IncrementalBuild.Fingerprint
import IncrementalBuild.Options
import IncrementalBuild.OrderedMap

/-!
# Where products go

Every product of a build lies in its output directory, under a name made from
the module's name or from the stem of the input it comes from. Where two
inputs share a stem, both get the first eight digits of their path's digest
after it, so that those two do not write the same file.
-/

namespace IncrementalBuild

/-- The names of all products of one build. -/
structure OutputLayout where
  outputDir : Path
  moduleName : String
  /-- The stem that stands for each input. -/
  stems : OrderedMap Path String

/-- What compiling one input may write. -/
structure InputOutputs where
  object : Artifact
  summary : Artifact
  record : Artifact

namespace OutputLayout

/-- The stem of a path's file name; a path without one counts as `input`. -/
def plainStem (p : Path) : String := p.fileStem.getD "input"

/-- The first eight digits of a path's digest. -/
def shortDigest (p : Path) : String :=
  String.ofList ((Fingerprint.ofText p.text).text.toList.take 8)

/-- The stem of an input among all inputs. -/
def stemAmong (inputs : List Path) (p : Path) : String :=
  let stem := plainStem p
  if (inputs.filter (fun q => plainStem q == stem)).length ≤ 1 then stem
  else stem ++ "-" ++ shortDigest p

/-- The layout of a build of the given inputs. -/
def ofInputs (outputDir : Path) (moduleName : String) (inputs : List Path) :
    OutputLayout :=
  ⟨outputDir, moduleName,
    OrderedMap.ofLastEntries (inputs.map (fun p => (p, stemAmong inputs p)))⟩

/-- The stem that stands for an input. -/
def stemOf (l : OutputLayout) (p : Path) : String := (l.stems.get? p).getD (plainStem p)

/-- A file of the output directory. -/
def inDir (l : OutputLayout) (name : String) (t : FileType) : Artifact :=
  ⟨l.outputDir.join ⟨name⟩, t⟩

/-- The products of compiling one input. -/
def perInput (l : OutputLayout) (p : Path) : InputOutputs :=
  let stem := l.stemOf p
  ⟨l.inDir (stem ++ ".o") .object, l.inDir (stem ++ ".summary") .moduleSummary,
    l.inDir (stem ++ ".deps.json") .dependencyRecord⟩

/-- The object of a module compiled as a whole. -/
def wholeModuleObject (l : OutputLayout) : Artifact := l.inDir (l.moduleName ++ ".o") .object

/-- The module itself. -/
def mergedModule (l : OutputLayout) : Artifact := l.inDir (l.moduleName ++ ".module") .module

def moduleInterface (l : OutputLayout) : Artifact :=
  l.inDir (l.moduleName ++ ".interface") .moduleInterface

def precompiledHeader (l : OutputLayout) (header : Path) : Artifact :=
  l.inDir (plainStem header ++ ".pch") .precompiledHeader

/-- A module that is built before this one. -/
def externalModule (l : OutputLayout) (name : String) : Artifact :=
  ⟨(l.outputDir.join ⟨"modules"⟩).join ⟨name ++ ".module"⟩, .externalModule⟩

/-- The product of the linker. -/
def linked (l : OutputLayout) (output : LinkOutput) : Artifact :=
  l.inDir
    (match output with
      | .executable => l.moduleName
      | .dynamicLibrary => "lib" ++ l.moduleName ++ ".so"
      | .staticLibrary => "lib" ++ l.moduleName ++ ".a")
    .linkedBinary

end OutputLayout

end IncrementalBuild
