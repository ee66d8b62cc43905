import IncrementalBuild.Path
import IncrementalBuild.Text.Quoted
import IncrementalBuild.Text.Utf8

/-!
# What a build asks of files

Everything a build does to files goes through one small interface: opening a
file to read it, reading it as text, writing it whole, removing it, asking
what a path names, and listing a directory. The interface is a class on the
type of states that files can be in, so an operation that changes files gives
the state after it, also where it fails: what it did before the failure stays
done.

A failure carries what was attempted besides its cause, and its text is the
chain of both, the outermost first.
-/

namespace IncrementalBuild

/-- The reasons an operating system gives for refusing an operation on
files. -/
inductive OsError where
  | missing
  | notExecutable
  | denied
  | busy
  | alreadyThere
  | notDirectory
  | isDirectory
  | nameTooLong
  deriving DecidableEq

namespace OsError

/-- The text of a reason. -/
def reason : OsError → String
  | missing => "No such file or directory"
  | notExecutable => "Exec format error"
  | denied => "Permission denied"
  | busy => "Device or resource busy"
  | alreadyThere => "File exists"
  | notDirectory => "Not a directory"
  | isDirectory => "Is a directory"
  | nameTooLong => "File name too long"

/-- The number of a reason. -/
def number : OsError → Nat
  | missing => 2
  | notExecutable => 8
  | denied => 13
  | busy => 16
  | alreadyThere => 17
  | notDirectory => 20
  | isDirectory => 21
  | nameTooLong => 36

/-- The text of a reason, with its number. -/
def message (e : OsError) : String := s!"{e.reason} (os error {e.number})"

end OsError

/-- What was being done when an operation on files failed. -/
inductive FileAction where
  | readingFile (path : Path)
  | openingFile (path : Path)
  | creatingDir (path : Path)
  | creatingFile (path : Path)
  | movingFile (source target : Path)
  | removingFile (path : Path)
  | readingDir (path : Path)
  | openingForFingerprint (path : Path)
  | readingForFingerprint (path : Path)

/-- A path between quotation marks. -/
def Path.quoted (p : Path) : String := Text.quotedPath p.text

/-- The text of an action. -/
def FileAction.message : FileAction → String
  | readingFile p => "reading file " ++ p.quoted
  | openingFile p => "opening file " ++ p.quoted
  | creatingDir p => "creating dir " ++ p.quoted
  | creatingFile p => "creating file " ++ p.quoted
  | movingFile p q => "renaming " ++ p.quoted ++ " to " ++ q.quoted
  | removingFile p => "removing file " ++ p.quoted
  | readingDir p => "reading dir " ++ p.quoted
  | openingForFingerprint p => "opening file for fingerprinting: " ++ p.quoted
  | readingForFingerprint p => "reading file for fingerprinting: " ++ p.quoted

/-- Why an operation on files failed. -/
inductive FileError where
  /-- The operating system refused. -/
  | system (reason : OsError)
  /-- A stream that was to be text is not UTF-8. -/
  | streamNotText
  /-- A stored file is not UTF-8. -/
  | notText (fault : Text.Utf8.Fault)
  /-- No file is stored at the path. -/
  | fileNotFound (path : Path)
  /-- A directory is stored at the path. -/
  | isDirectory (path : Path)
  /-- No directory is stored at the path. -/
  | notDirectory (path : Path)
  /-- The failure of an action, with its cause. -/
  | during (action : FileAction) (cause : FileError)

/-- The texts of a failure and its causes, the outermost first. -/
def FileError.chain : FileError → List String
  | system reason => [reason.message]
  | streamNotText => ["stream did not contain valid UTF-8"]
  | notText fault => ["Invalid UTF-8: " ++ fault.message]
  | fileNotFound p => ["File not found: " ++ p.quoted]
  | isDirectory p => ["Is a directory: " ++ p.quoted]
  | notDirectory p => ["Not a directory or not found: " ++ p.quoted]
  | during action cause => action.message :: cause.chain

/-- The texts of a failure in one line. -/
def chainText (chain : List String) : String := ": ".intercalate chain

/-- An opened file: its bytes, or the failure that reading it meets. -/
abbrev OpenedFile := Except FileError ByteArray

/-- How an operation that changes files went, and the files after it. -/
abbrev FileChange (φ : Type) := Except FileError Unit × φ

/-- **The states that files can be in, and what a build asks of them.** -/
class FileSystem (φ : Type) where
  /-- Opens a file for reading. -/
  openFile : φ → Path → Except FileError OpenedFile
  /-- Reads a whole file as text. -/
  readText : φ → Path → Except FileError String
  /-- Writes a whole file, with the directories above it. -/
  write : φ → Path → ByteArray → FileChange φ
  removeFile : φ → Path → FileChange φ
  pathExists : φ → Path → Bool
  isFile : φ → Path → Bool
  isDirectory : φ → Path → Bool
  /-- The paths directly below a directory, in ascending order. -/
  list : φ → Path → Except FileError (List Path)
  /-- At least as many as there are directories. -/
  extent : φ → Nat

end IncrementalBuild
