import IncrementalBuild.FileSystem
import IncrementalBuild.Glob.Reader
import IncrementalBuild.OrderedMap

/-!
# Finding the inputs

The inputs of a build are named one by one, or found by glob patterns among
the files below a directory. Named files have to be there, and no pattern
excludes them. Names that begin with a dot are passed over in the search,
directories with everything in them.

The inputs come out in the order of paths and without repetitions, so they do
not depend on the order in which a directory is listed.
-/

namespace IncrementalBuild

/-! ## Patterns -/

/-- What a set of patterns is for. -/
inductive PatternRole where
  | including
  | excluding
  deriving DecidableEq

/-- What was being done when a pattern of a set was refused. -/
def PatternRole.action : PatternRole → String
  | including => "building include globset"
  | excluding => "building exclude globset"

/-- **The patterns that choose inputs.** -/
structure InputPatterns where
  included : List Glob
  excluded : List Glob

namespace InputPatterns

/-- Reads the patterns of one set. -/
def parseSet (role : PatternRole) (patterns : List String) :
    Except (PatternRole × GlobError) (List Glob) :=
  patterns.mapM fun p => (Glob.parse p).mapError (role, ·)

/-- Reads patterns, those that include first. -/
def parse (included excluded : List String) :
    Except (PatternRole × GlobError) InputPatterns := do
  return ⟨← parseSet .including included, ← parseSet .excluding excluded⟩

/-- **Whether a path is chosen**: some pattern includes it, and none excludes
it. -/
def accepts (p : InputPatterns) (path : String) : Bool :=
  p.included.any (·.accepts path) && !p.excluded.any (·.accepts path)

end InputPatterns

/-! ## The search -/

/-- What the inputs of a build are to be. -/
structure InputSelection where
  /-- Files that are inputs in any case. -/
  files : List String
  /-- Patterns for further inputs. -/
  included : List String
  /-- Patterns for files that those leave out. -/
  excluded : List String

/-- Why the inputs cannot be found. -/
inductive InputError where
  | missingFile (path : Path)
  | pattern (role : PatternRole) (error : GlobError)
  | file (error : FileError)

/-- The texts of a failure, the outermost first. -/
def InputError.chain : InputError → List String
  | missingFile p => ["input file " ++ p.quoted ++ " does not exist"]
  | pattern role e => [role.action, "invalid glob pattern: " ++ e.pattern, e.message]
  | file e => e.chain

namespace InputSelection

/-- Whether a name, as the bytes that a file system has for it, begins with a dot. Bytes that are
no text do not, whatever the first of them is. -/
def isHiddenName (name : ByteArray) : Bool :=
  match Text.Utf8.decode name with
  | .ok text => text.startsWith "."
  | .error _ => false

/-- A name that is text is hidden if the text begins with a dot. -/
theorem isHiddenName_toUTF8 (text : String) : isHiddenName text.toUTF8 = text.startsWith "." := by
  unfold isHiddenName
  rw [Text.Utf8.decode_toUTF8]

example : isHiddenName ⟨#[0x2E, 0xFF]⟩ = false := by decide +kernel

/-- Whether the name of a path begins with a dot. -/
def isHidden (p : Path) : Bool :=
  match p.fileName with
  | some name => isHiddenName name.toUTF8
  | none => false

section Search

variable {φ : Type} [FileSystem φ] (fs : φ)

/-- The files below a directory, hidden ones passed over, down to a depth. -/
def filesBelow : Nat → Path → Except FileError (List Path)
  | 0, _ => .ok []
  | depth + 1, dir => do
    let found ← (← FileSystem.list fs dir).mapM fun p =>
      if isHidden p then .ok []
      else if FileSystem.isDirectory fs p then filesBelow depth p
      else if FileSystem.isFile fs p then .ok [p]
      else .ok []
    return found.flatten

/-- The files that patterns choose below a directory. No directory lies
deeper than there are directories. -/
def chosenBelow (root : Path) (patterns : InputPatterns) :
    Except FileError (List Path) := do
  let found ← filesBelow fs (FileSystem.extent fs + 1) root
  return found.filter fun p =>
    match p.relativeTo? root with
    | some below => patterns.accepts (below.text.map fun c => if c = '\\' then '/' else c)
    | none => false

/-- The named files, seen from a directory. -/
def namedFiles (s : InputSelection) (root : Path) : Except InputError (List Path) :=
  s.files.mapM fun file =>
    let p := root.join ⟨file⟩
    if FileSystem.isFile fs p then .ok p else .error (.missingFile p)

/-- **The inputs**, found from a directory, in the order of paths. -/
def find (s : InputSelection) (root : Path) : Except InputError (List Path) := do
  let named ← s.namedFiles fs root
  let chosen ←
    if s.included.isEmpty then pure []
    else
      let patterns ← (InputPatterns.parse s.included s.excluded).mapError
        fun (role, e) => .pattern role e
      (chosenBelow fs root patterns).mapError .file
  return (OrderedSet.ofList (named ++ chosen)).toList

end Search

end InputSelection

end IncrementalBuild
