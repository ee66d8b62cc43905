import IncrementalBuild.Text.Blank
import IncrementalBuild.Text.Lowercase

/-!
# The choices a build is asked to make

How inputs are grouped into compile jobs, what happens after a failure, and
which products are wanted. Each choice has a canonical name, and the words
that a person may type for it are read without regard to case or to blanks
around them.
-/

namespace IncrementalBuild

/-- How inputs are grouped into compile jobs. -/
inductive CompilationMode where
  | perFile
  | wholeModule
  deriving DecidableEq, Inhabited

/-- What happens to the rest of a build after a failure. -/
inductive FailurePolicy where
  | failFast
  | continueOnFailure
  deriving DecidableEq, Inhabited

/-- A product that a linker makes. -/
inductive LinkOutput where
  | executable
  | dynamicLibrary
  | staticLibrary
  deriving DecidableEq, Inhabited

/-- A product that a request may ask for. -/
inductive OutputKind where
  | object
  | module
  | interface
  | linked (output : LinkOutput)
  deriving DecidableEq, Inhabited

/-- A word that names no choice, lower-cased and trimmed. -/
inductive ChoiceError where
  | mode (word : String)
  | policy (word : String)
  | output (word : String)
  deriving DecidableEq

/-- The text of a refused choice. -/
def ChoiceError.message : ChoiceError → String
  | mode word =>
    s!"invalid compilation mode: {word} (expected \"per-file\" or \"whole-module\")"
  | policy word =>
    s!"invalid failure policy: {word} (expected \"fail-fast\" or \"continue-on-failure\")"
  | output word => s!"invalid output kind: {word}"

/-- A typed word as it is compared. -/
def normalWord (text : String) : String := Text.lowercase (Text.trim text)

namespace CompilationMode

def name : CompilationMode → String
  | perFile => "per-file"
  | wholeModule => "whole-module"

/-- The mode that a word names. -/
def parse (text : String) : Except ChoiceError CompilationMode :=
  match normalWord text with
  | "per-file" | "perfile" | "incremental" => .ok perFile
  | "whole-module" | "wholemodule" | "wmo" => .ok wholeModule
  | other => .error (.mode other)

end CompilationMode

namespace FailurePolicy

def name : FailurePolicy → String
  | failFast => "fail-fast"
  | continueOnFailure => "continue-on-failure"

/-- The policy that a word names. -/
def parse (text : String) : Except ChoiceError FailurePolicy :=
  match normalWord text with
  | "fail-fast" | "failfast" => .ok failFast
  | "continue" | "continue-on-failure" | "keep-going" => .ok continueOnFailure
  | other => .error (.policy other)

end FailurePolicy

def LinkOutput.name : LinkOutput → String
  | executable => "executable"
  | dynamicLibrary => "dynamic-library"
  | staticLibrary => "static-library"

namespace OutputKind

def name : OutputKind → String
  | object => "object"
  | module => "module"
  | interface => "interface"
  | linked output => output.name

/-- The place of a kind in the order of kinds. -/
def rank : OutputKind → Nat
  | object => 0
  | module => 1
  | interface => 2
  | linked .executable => 3
  | linked .dynamicLibrary => 4
  | linked .staticLibrary => 5

instance : Ord OutputKind := ⟨compareOn rank⟩

instance : Std.TransOrd OutputKind :=
  inferInstanceAs (Std.TransCmp (compareOn rank))

/-- The product of a linker, where a kind is one. -/
def linkOutput? : OutputKind → Option LinkOutput
  | linked output => some output
  | _ => none

/-- The kind that a word names. -/
def parse (text : String) : Except ChoiceError OutputKind :=
  match normalWord text with
  | "object" | "obj" => .ok object
  | "module" => .ok module
  | "interface" => .ok interface
  | "executable" | "exe" => .ok (linked .executable)
  | "dynamic-library" | "dylib" => .ok (linked .dynamicLibrary)
  | "static-library" | "staticlib" => .ok (linked .staticLibrary)
  | other => .error (.output other)

/-- The kind with exactly the given canonical name. -/
def ofName? (name : String) : Option OutputKind :=
  [object, module, interface, linked .executable, linked .dynamicLibrary,
    linked .staticLibrary].find? (·.name == name)

end OutputKind

end IncrementalBuild
