import IncrementalBuild.FileSystem
import IncrementalBuild.OrderedMap

/-!
# Files on a disk

A file system as an operating system offers it: a tree of directories and
files under one root, in which a path is walked step by step from the root or
from the working directory. A step may only be taken from a directory, a `..`
goes back to the directory above, and what stands at the end of the walk may
be missing.

A file is written under a temporary name and then moved into its place, after
the directories above it have been made. What was done before a step failed
stays done.
-/

namespace IncrementalBuild

/-- A place in the tree, as the names that lead to it from the root. -/
abbrev Location := List String

/-- What stands at a place. -/
inductive DiskEntry where
  | file (content : ByteArray) (executable : Bool)
  | directory

namespace DiskEntry

/-- Whether a place holds a directory. -/
def isDirectory : DiskEntry → Bool
  | file .. => false
  | directory => true

/-- Whether two places hold the same, bytes included. -/
def holdsSame : DiskEntry → DiskEntry → Bool
  | file content executable, file content' executable' =>
    content.data == content'.data && executable == executable'
  | directory, directory => true
  | _, _ => false

end DiskEntry

/-- **A tree of directories and files**, seen from a working directory. -/
structure Disk where
  /-- What stands at the places other than the root, which is always a
  directory. -/
  entries : OrderedMap Location DiskEntry
  workingDir : Location

namespace Disk

/-- A disk with nothing on it but the working directory. -/
def empty (workingDir : Location) : Disk :=
  ⟨(List.range workingDir.length).foldl
      (fun m n => m.insert (workingDir.take (n + 1)) .directory) ∅,
    workingDir⟩

/-- What stands at a place. -/
def entry? (d : Disk) (place : Location) : Option DiskEntry :=
  if place = [] then some .directory else d.entries.get? place

/-- Puts something at a place. -/
def put (d : Disk) (place : Location) (e : DiskEntry) : Disk :=
  { d with entries := d.entries.insert place e }

/-- The absolute path of a place. -/
def pathTo (place : Location) : Path := ⟨"/" ++ "/".intercalate place⟩

/-- The working directory as an absolute path. -/
def workingPath (d : Disk) : Path := pathTo d.workingDir

/-! ## Walking a path -/

/-- The longest name that a directory takes, in bytes. -/
def longestName : Nat := 255

/-- The longest path that can be walked, in bytes. -/
def longestPath : Nat := 4095

/-- Walks on from a place. Every step needs a directory to be taken from. -/
def walk (d : Disk) (place : Location) : List String → Except OsError Location
  | [] => .ok place
  | step :: rest =>
    match d.entry? place with
    | none => .error .missing
    | some (.file _ _) => .error .notDirectory
    | some .directory =>
      if step = "" || step = "." then d.walk place rest
      else if step = ".." then d.walk place.dropLast rest
      else if longestName < step.utf8ByteSize then .error .nameTooLong
      else d.walk (place ++ [step]) rest

/-- The steps of a path. -/
def steps (p : Path) : List String := (Path.splitSlashes p.text.toList).map String.ofList

/-- **The place that a path leads to**, whether or not something stands
there. -/
def locate (d : Disk) (p : Path) : Except OsError Location :=
  if p.text = "" then .error .missing
  else if longestPath < p.text.utf8ByteSize then .error .nameTooLong
  else d.walk (if p.isAbsolute then [] else d.workingDir) (steps p)

/-- The place that a path leads to, with what stands there. -/
def find (d : Disk) (p : Path) : Except OsError (Location × DiskEntry) :=
  match d.locate p with
  | .error e => .error e
  | .ok place =>
    match d.entry? place with
    | none => .error .missing
    | some e => .ok (place, e)

/-- What a path names. -/
def named? (d : Disk) (p : Path) : Option DiskEntry :=
  match d.find p with
  | .ok (_, e) => some e
  | .error _ => none

def isDirectory (d : Disk) (p : Path) : Bool := (d.named? p).any DiskEntry.isDirectory

/-! ## Single steps of the operating system -/

/-- The bytes of a file. -/
def bytes (d : Disk) (p : Path) : Except OsError ByteArray :=
  match d.find p with
  | .error e => .error e
  | .ok (_, .directory) => .error .isDirectory
  | .ok (_, .file content _) => .ok content

/-- Makes one directory. -/
def makeDir (d : Disk) (p : Path) : Except OsError Disk :=
  match d.locate p with
  | .error e => .error e
  | .ok place =>
    if (d.entry? place).isSome then .error .alreadyThere else .ok (d.put place .directory)

/-- Makes a file with a content, or replaces the content of one that is
there, which stays executable if it was. -/
def createFile (d : Disk) (p : Path) (content : ByteArray) : Except OsError Disk :=
  match d.locate p with
  | .error e => .error e
  | .ok place =>
    match d.entry? place with
    | some .directory => .error .isDirectory
    | some (.file _ executable) => .ok (d.put place (.file content executable))
    | none => .ok (d.put place (.file content false))

/-- Makes a file executable, or keeps it from being so. -/
def setExecutable (d : Disk) (p : Path) (executable : Bool) : Except OsError Disk :=
  match d.find p with
  | .error e => .error e
  | .ok (_, .directory) => .ok d
  | .ok (place, .file content _) => .ok (d.put place (.file content executable))

/-- Removes a file. -/
def unlink (d : Disk) (p : Path) : Except OsError Disk :=
  match d.find p with
  | .error e => .error e
  | .ok (_, .directory) => .error .isDirectory
  | .ok (place, .file _ _) => .ok { d with entries := d.entries.erase place }

/-- Removes what stands at a place and everything below it. -/
def removeTree (d : Disk) (place : Location) : Disk :=
  { d with entries := d.entries.filter fun other _ => !place.isPrefixOf other }

/-- Puts what stands at a place, and everything below it, at another place as
well. -/
def copyTree (d : Disk) (place goal : Location) : Disk :=
  d.entries.entries.foldl (fun d (other, e) =>
    if place.isPrefixOf other then d.put (goal ++ other.drop place.length) e else d) d

/-- Whether the last step of a path is one that names nothing of its own. -/
def endsAnonymously (p : Path) : Bool :=
  match (steps p).reverse.dropWhile (· = "") with
  | [] => true
  | last :: _ => last = "." || last = ".."

/-- Moves a file to another path. A directory is never replaced. -/
def move (d : Disk) (source target : Path) : Except OsError Disk :=
  match d.find source, d.locate target with
  | .error e, _ => .error e
  | .ok _, .error e => .error e
  | .ok (place, e), .ok goal =>
    if endsAnonymously target then .error .busy
    else if target.text.endsWith "/" then .error .notDirectory
    else if (d.entry? goal).any DiskEntry.isDirectory then .error .isDirectory
    else .ok ({ d with entries := d.entries.erase place }.put goal e)

/-! ## What a build asks of a disk -/

/-- Makes a directory and, where they are missing, those above it. A path has
fewer of them than it has characters. -/
def makeDirs (fuel : Nat) (d : Disk) (p : Path) : Except OsError Unit × Disk :=
  let settle (d : Disk) (result : Except OsError Disk) : Except OsError Unit × Disk :=
    match result with
    | .ok d => (.ok (), d)
    | .error e => (if d.isDirectory p then .ok () else .error e, d)
  match fuel, d.makeDir p, p.parent with
  | n + 1, .error .missing, some above =>
    if above.text = "" then (.error .missing, d)
    else
      match makeDirs n d above with
      | (.error e, d) => (.error e, d)
      | (.ok (), d) => settle d (d.makeDir p)
  | _, result, _ => settle d result

/-- Makes the directories above a path. -/
def makeDirsAbove (d : Disk) (p : Path) : FileChange Disk :=
  match p.parent with
  | none => (.ok (), d)
  | some dir =>
    if dir.text = "" then (.ok (), d)
    else
      let (result, d) := makeDirs dir.text.length d dir
      (result.mapError (.during (.creatingDir dir) ∘ .system), d)

/-- The name under which a file is written before it is moved into place. -/
def temporary (p : Path) : Path := ⟨p.text ++ ".tmp"⟩

/-- Writes a file under its temporary name and moves it into place. -/
def replace (d : Disk) (p : Path) (content : ByteArray) : FileChange Disk :=
  match d.createFile (temporary p) content with
  | .error e => (.error (.during (.creatingFile (temporary p)) (.system e)), d)
  | .ok d =>
    match d.move (temporary p) p with
    | .error e => (.error (.during (.movingFile (temporary p) p) (.system e)), d)
    | .ok d => (.ok (), d)

/-- The names of what stands in a directory, in ascending order. -/
def namesIn (d : Disk) (place : Location) : List String :=
  d.entries.keys.filterMap fun other =>
    match other.getLast? with
    | some name => if other.dropLast = place then some name else none
    | none => none

/-- The paths of all files below the working directory, seen from there. -/
def filesBelow (d : Disk) : List Path :=
  d.entries.entries.filterMap fun (place, e) =>
    match e with
    | .directory => none
    | .file _ _ =>
      if d.workingDir.isPrefixOf place then
        some ⟨"/".intercalate (place.drop d.workingDir.length)⟩
      else none

instance : FileSystem Disk where
  openFile d p :=
    match d.find p with
    | .error e => .error (.during (.openingFile p) (.system e))
    | .ok (_, .directory) => .ok (.error (.system .isDirectory))
    | .ok (_, .file content _) => .ok (.ok content)
  readText d p :=
    match d.bytes p with
    | .error e => .error (.during (.readingFile p) (.system e))
    | .ok content =>
      match Text.Utf8.decode content with
      | .ok text => .ok text
      | .error _ => .error (.during (.readingFile p) .streamNotText)
  write d p content :=
    match d.makeDirsAbove p with
    | (.error e, d) => (.error e, d)
    | (.ok (), d) => d.replace p content
  removeFile d p :=
    match d.unlink p with
    | .error e => (.error (.during (.removingFile p) (.system e)), d)
    | .ok d => (.ok (), d)
  pathExists d p := (d.named? p).isSome
  isFile d p :=
    match d.named? p with
    | some (.file _ _) => true
    | _ => false
  isDirectory d p := d.isDirectory p
  list d p :=
    match d.find p with
    | .error e => .error (.during (.readingDir p) (.system e))
    | .ok (_, .file _ _) => .error (.during (.readingDir p) (.system .notDirectory))
    | .ok (place, .directory) => .ok ((d.namesIn place).map fun name => p.join ⟨name⟩)
  extent d := d.entries.size + 1

end Disk

end IncrementalBuild
