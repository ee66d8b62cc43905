import IncrementalBuild.Path

/-!
# Artifacts

An artifact is a path together with the kind of file that stands there. Two
artifacts are equal when their kinds are and their paths name the same place.
-/

namespace IncrementalBuild

/-- The kinds of files that jobs read and write. -/
inductive FileType where
  | source
  | header
  | precompiledHeader
  | object
  | moduleSummary
  | module
  | moduleInterface
  | externalModule
  | dependencyRecord
  | library
  | linkedBinary
  deriving DecidableEq, Inhabited

namespace FileType

def name : FileType → String
  | source => "source"
  | header => "header"
  | precompiledHeader => "pch"
  | object => "object"
  | moduleSummary => "module-summary"
  | module => "module"
  | moduleInterface => "interface"
  | externalModule => "external-module"
  | dependencyRecord => "deps"
  | library => "library"
  | linkedBinary => "binary"

def all : List FileType :=
  [source, header, precompiledHeader, object, moduleSummary, module, moduleInterface,
    externalModule, dependencyRecord, library, linkedBinary]

/-- The kind with a given name. -/
def ofName? (name : String) : Option FileType := all.find? (·.name == name)

/-- **The names tell the kinds apart.** -/
theorem ofName?_name (t : FileType) : ofName? t.name = some t := by
  cases t <;> decide

end FileType

/-- A file of a known kind. -/
structure Artifact where
  path : Path
  fileType : FileType
  deriving BEq, Inhabited

/-- An artifact as it is shown. -/
def Artifact.text (a : Artifact) : String := s!"{a.path.text} ({a.fileType.name})"

end IncrementalBuild
