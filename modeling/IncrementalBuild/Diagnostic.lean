import IncrementalBuild.Job
import IncrementalBuild.Text.Blank
import IncrementalBuild.Text.Digit
import IncrementalBuild.Text.Numeral

/-!
# Diagnostics

What a tool writes is searched for lines of the form `path:line: severity:
message`, `path:line:column: severity: message` or `severity: message`. Every
diagnostic is filed under an input of the job that produced it, if it names
one or if the job compiles a single one, and otherwise under the job.
-/

namespace IncrementalBuild

inductive Severity where
  | error
  | warning
  | note
  deriving DecidableEq, Inhabited

def Severity.name : Severity → String
  | error => "error"
  | warning => "warning"
  | note => "note"

/-- A message, with its place in a file if it is known. -/
structure Diagnostic where
  severity : Severity
  message : String
  line : Option UInt32
  column : Option UInt32
  deriving DecidableEq, Inhabited

/-- A diagnostic as it is shown. -/
def Diagnostic.text (d : Diagnostic) : String :=
  (match d.line, d.column with
    | some line, some column => s!"{line.toNat}:{column.toNat}: "
    | some line, none => s!"{line.toNat}: "
    | none, _ => "")
  ++ d.severity.name ++ ": " ++ d.message

/-- What a diagnostic is filed under. -/
inductive DiagnosticOrigin where
  | input (path : Path)
  | job (key : JobKey)

namespace DiagnosticOrigin

/-- Inputs come before jobs. -/
def rank : DiagnosticOrigin → Nat
  | input _ => 0
  | job _ => 1

/-- The components of an input's path. -/
def components : DiagnosticOrigin → List Component
  | input p => p.components
  | job _ => []

/-- The text of a job's key. -/
def keyText : DiagnosticOrigin → String
  | input _ => ""
  | job key => key.text

instance : Ord DiagnosticOrigin :=
  ⟨compareLex (compareOn rank) (compareLex (compareOn components) (compareOn keyText))⟩

instance : Std.TransOrd DiagnosticOrigin :=
  inferInstanceAs (Std.TransCmp
    (compareLex (compareOn rank) (compareLex (compareOn components) (compareOn keyText))))

/-- An origin as it is shown. -/
def text : DiagnosticOrigin → String
  | input p => p.text
  | job key => key.text

end DiagnosticOrigin

/-- A diagnostic as a line gives it, with the path it names. -/
structure ParsedDiagnostic where
  path : Option Path
  diagnostic : Diagnostic

namespace ParsedDiagnostic

/-- A severity at the front of some characters, and what follows. -/
def severity? (cs : List Char) : Option (Severity × List Char) :=
  [Severity.error, .warning, .note].findSome? fun s =>
    let word := s.name.toList
    if word.isPrefixOf cs then some (s, cs.drop word.length) else none

/-- A severity, a colon, and a message to the end of the line. -/
def message? (cs : List Char) : Option (Severity × String) :=
  match severity? cs with
  | some (s, ':' :: rest) => some (s, String.ofList (rest.dropWhile Text.isBlank))
  | _ => none

/-- One decimal digit or more, and what follows. -/
def digits? (cs : List Char) : Option (List Char × List Char) :=
  match cs.takeWhile Text.isDecimalDigit with
  | [] => none
  | digits => some (digits, cs.dropWhile Text.isDecimalDigit)

/-- The number that digits write, if they are ASCII digits and it is small
enough. -/
def number? (digits : List Char) : Option UInt32 :=
  match Text.number? 10 digits with
  | some n => if n < UInt32.size then some (.ofNat n) else none
  | none => none

/-- The column in front of some characters, if they go on with one, and what
follows. -/
def column (cs : List Char) : Option (List Char) × List Char :=
  match cs with
  | ':' :: rest =>
    match digits? rest with
    | some (digits, rest) => (some digits, rest)
    | none => (none, cs)
  | _ => (none, cs)

/-- A diagnostic with a path and a line. -/
def located? (cs : List Char) : Option ParsedDiagnostic :=
  match cs with
  | [] => none
  | first :: _ =>
    if first = ':' || Text.isBlank first then none
    else
      match cs.dropWhile (· ≠ ':') with
      | ':' :: rest => do
        let (line, rest) ← digits? rest
        let (column, rest) := column rest
        match rest with
        | ':' :: rest => do
          let (severity, message) ← message? (rest.dropWhile Text.isBlank)
          return ⟨some ⟨String.ofList (cs.takeWhile (· ≠ ':'))⟩,
            ⟨severity, message, number? line, column.bind number?⟩⟩
        | _ => none
      | _ => none

/-- A diagnostic without a place. -/
def bare? (cs : List Char) : Option ParsedDiagnostic :=
  (message? cs).map fun (severity, message) => ⟨none, ⟨severity, message, none, none⟩⟩

/-- The diagnostic that a line gives, if it gives one. -/
def ofLine? (line : String) : Option ParsedDiagnostic :=
  let cs := Text.trimEndChars line.toList
  (located? cs).or (bare? cs)

/-- **The diagnostics that a text gives**, one to a line. -/
def ofText (text : String) : List ParsedDiagnostic := (Text.lines text).filterMap ofLine?

end ParsedDiagnostic

/-! ## Where a diagnostic belongs -/

namespace Job

/-- The input of a job that a path names: the same path, or one that ends with
it. -/
def namedInput? (job : Job) (p : Path) : Option Path :=
  (job.primaries ++ job.sourceInputs).find?
    (fun candidate => candidate == p || (p.isRelative && candidate.endsWith p))

/-- **What a diagnostic is filed under.** -/
def originOf (job : Job) (p : Option Path) : DiagnosticOrigin :=
  match p.bind job.namedInput? with
  | some found => .input found
  | none =>
    match job.primaries with
    | [only] => .input only
    | _ => .job job.key

/-- The last line that is not blank, trimmed. -/
def lastLine? (text : String) : Option String :=
  ((Text.lines text).reverse.map Text.trim).find? (· ≠ "")

/-- **The diagnostics of a job** from what its tool wrote. A failure that
reports no error gets one, made from the fallback text and the last line. -/
def diagnostics (job : Job) (stdout stderr : String) (failed : Bool) (fallback : String) :
    List (DiagnosticOrigin × Diagnostic) :=
  let collected := (ParsedDiagnostic.ofText stderr ++ ParsedDiagnostic.ofText stdout).map
    (fun d => (job.originOf d.path, d.diagnostic))
  if failed && !collected.any (fun d => d.2.severity == .error) then
    let message := match lastLine? stderr with
      | some line => fallback ++ ": " ++ line
      | none => fallback
    collected ++ [(job.originOf none, ⟨.error, message, none, none⟩)]
  else collected

end Job

end IncrementalBuild
