import IncrementalBuild.FileSystem
import IncrementalBuild.OrderedMap

/-!
# Files in memory

A file system that is a map from paths to what they name. Adding a file adds
the directories above it where nothing is stored yet; removing an entry
removes that entry alone, so a file may outlive the directory it stood in.
-/

namespace IncrementalBuild

/-- What a path of the map names. -/
inductive MemoryEntry where
  | file (content : ByteArray)
  | directory

/-- **Files in memory**, as a map from paths to files and directories. -/
structure MemoryFiles where
  entries : OrderedMap Path MemoryEntry

namespace MemoryFiles

def empty : MemoryFiles := ⟨∅⟩

instance : Inhabited MemoryFiles := ⟨empty⟩

/-- The directories above a path, the nearest first, up to the root or to the
beginning of a relative path. At most `fuel` of them. -/
def directoriesAbove (fuel : Nat) (p : Path) : List Path :=
  match fuel, p.parent with
  | 0, _ => []
  | _, none => []
  | n + 1, some dir => if dir.text = "" then [] else dir :: directoriesAbove n dir

/-- All directories above a path. A path has fewer of them than it has
characters. -/
def ancestors (p : Path) : List Path := directoriesAbove p.text.length p

/-- Adds a file, and the directories above it where nothing is stored. -/
def addFile (fs : MemoryFiles) (p : Path) (content : ByteArray) : MemoryFiles :=
  let above := (ancestors p).foldl (fun m dir => m.insertNew dir .directory) fs.entries
  ⟨above.insert p (.file content)⟩

/-- Removes whatever is stored at a path; the answer says whether that was a
file. -/
def remove (fs : MemoryFiles) (p : Path) : MemoryFiles × Bool :=
  (⟨fs.entries.erase p⟩,
    match fs.entries.get? p with
    | some (.file _) => true
    | _ => false)

/-- The bytes of a stored file. -/
def contents (fs : MemoryFiles) (p : Path) : Option ByteArray :=
  match fs.entries.get? p with
  | some (.file content) => some content
  | _ => none

/-- The paths of all stored files, in ascending order. -/
def files (fs : MemoryFiles) : List Path :=
  fs.entries.entries.filterMap fun
    | (p, .file _) => some p
    | (_, .directory) => none

/-- The bytes of a file, or why there are none. -/
def bytes (fs : MemoryFiles) (p : Path) : Except FileError ByteArray :=
  match fs.entries.get? p with
  | some (.file content) => .ok content
  | some .directory => .error (.isDirectory p)
  | none => .error (.fileNotFound p)

instance : FileSystem MemoryFiles where
  openFile fs p := (fs.bytes p).map .ok
  readText fs p :=
    match fs.bytes p with
    | .ok content => (Text.Utf8.decode content).mapError .notText
    | .error e => .error e
  write fs p content := (.ok (), fs.addFile p content)
  removeFile fs p :=
    let (after, wasFile) := fs.remove p
    (if wasFile then .ok () else .error (.fileNotFound p), after)
  pathExists fs p := fs.entries.contains p
  isFile fs p := (fs.contents p).isSome
  isDirectory fs p := fs.entries.get? p matches some .directory
  list fs p :=
    match fs.entries.get? p with
    | some .directory => .ok (fs.entries.keys.filter (fun q => q.parent == some p))
    | _ => .error (.notDirectory p)
  extent fs := fs.entries.size

end MemoryFiles

end IncrementalBuild
