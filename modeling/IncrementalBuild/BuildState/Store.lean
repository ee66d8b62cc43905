import IncrementalBuild.BuildState

/-!
# The state file

The state of a build is kept as a JSON file. A state file of another version,
one that repeats a key in a file or has an empty one, and a text that is no
state at all are refused; the next build then starts from nothing.
-/

namespace IncrementalBuild

/-- The version of the format. -/
def stateVersion : UInt32 := 1

/-- The name of the state file where a request gives none. -/
def stateFileName : String := "driverdag-state.json"

/-- The content of a state file. -/
structure SavedState where
  version : UInt32
  options : Option Fingerprint
  inputs : OrderedMap Path (Option Fingerprint)
  staleJobs : OrderedSet JobKey
  commands : OrderedMap JobKey Fingerprint
  declarations : OrderedMap Path (List Declaration)
  deriving BEq

/-- Why a state file cannot be used. -/
inductive StateFault where
  | file (cause : FileError)
  /-- The text is no state. -/
  | unreadable
  | unsupportedVersion (version : UInt32)
  | emptyKey (path : Path)
  | repeatedKey (key : String) (path : Path)

/-- The text of a fault. -/
def StateFault.message : StateFault → String
  | file cause => chainText cause.chain
  | unreadable => "<json>"
  | unsupportedVersion v =>
    s!"unsupported state version {v.toNat} (expected {stateVersion.toNat})"
  | emptyKey p => "empty declaration key in " ++ p.quoted
  | repeatedKey key p => s!"declaration '{key}' listed twice for " ++ p.quoted

/-- What was found in place of a state file. -/
inductive StateLoad where
  | loaded (state : BuildState)
  | missing
  | corrupt (fault : StateFault)

namespace SavedState

/-- A state file as a JSON value. -/
def toJson (s : SavedState) : Json.Value :=
  .ofFields [
    ("version", .number (toString s.version.toNat)),
    ("options", .ofText? (s.options.map (·.text))),
    ("inputs", .ofFields (s.inputs.entries.map fun (p, f) =>
      (p.text, .ofFields [("fingerprint", .ofText? (f.map (·.text)))]))),
    ("stale_jobs", .ofTexts (s.staleJobs.toList.map (·.text))),
    ("commands", .ofFields (s.commands.entries.map fun (key, f) =>
      (key.text, .ofText f.text))),
    ("declarations", .ofFields (s.declarations.entries.map fun (p, ds) =>
      (p.text, .array (ds.map Declaration.toJson))))]

/-- A state file as a text. -/
def print (s : SavedState) : String := s.toJson.print

/-- A fingerprint or `null`. -/
def fingerprintOfJson? (v : Json.Value) : Option (Option Fingerprint) :=
  v.optional? (fun v => v.text?.map Fingerprint.mk)

/-- What is kept of an input. -/
def inputOfJson? (v : Json.Value) : Option (Option Fingerprint) := do
  match ← v.record? [("fingerprint", .optional)] with
  | [some f] => fingerprintOfJson? f
  | [none] => some none
  | _ => none

/-- A set of job keys. -/
def jobKeysOfJson? (v : Json.Value) : Option (OrderedSet JobKey) :=
  (v.list? (fun v => v.text?.map JobKey.mk)).map OrderedSet.ofList

/-- A field that may be missing. -/
def fieldOr {α : Type} (default : α) (read : Json.Value → Option α) :
    Option Json.Value → Option α
  | none => some default
  | some v => read v

/-- The state that a JSON value describes. -/
def ofJson? (v : Json.Value) : Option SavedState := do
  match ← v.record? [("version", .required), ("options", .defaulted),
      ("inputs", .defaulted), ("stale_jobs", .defaulted), ("commands", .defaulted),
      ("declarations", .defaulted)] with
  | [some version, options, inputs, staleJobs, commands, declarations] =>
    return {
      version := .ofNat (← version.natBelow? UInt32.size)
      options := ← fieldOr none fingerprintOfJson? options
      inputs := ← fieldOr ∅ (Json.Value.map? Path.mk inputOfJson?) inputs
      staleJobs := ← fieldOr ∅ jobKeysOfJson? staleJobs
      commands := ← fieldOr ∅
        (Json.Value.map? JobKey.mk (fun v => v.text?.map Fingerprint.mk)) commands
      declarations := ← fieldOr ∅
        (Json.Value.map? Path.mk (Json.Value.list? Declaration.ofJson?)) declarations }
  | _ => none

/-- The state that a text describes. -/
def read? (text : String) : Option SavedState := (Json.Value.read? text).bind ofJson?

/-- The content of the state file for a state. -/
def ofState (s : BuildState) : SavedState :=
  { version := stateVersion
    options := s.options
    inputs := s.inputs
    staleJobs := s.staleJobs
    commands := s.commands
    declarations := s.graph.files }

/-- What is wrong with the declarations of a file, where `before` holds the
keys passed already. -/
def checkKeys (p : Path) (before : List String) : List Declaration → Except StateFault Unit
  | [] => .ok ()
  | d :: rest =>
    if d.key = "" then .error (.emptyKey p)
    else if d.key ∈ before then .error (.repeatedKey d.key p)
    else checkKeys p (d.key :: before) rest

/-- The dependency graph of the declarations of some files. -/
def graphOf : List (Path × List Declaration) → DependencyGraph →
    Except StateFault DependencyGraph
  | [], g => .ok g
  | (p, ds) :: rest, g => do
    checkKeys p [] ds
    graphOf rest (g.replace p ds).1

/-- The state that a state file holds. -/
def toState (s : SavedState) : Except StateFault BuildState := do
  if s.version ≠ stateVersion then throw (.unsupportedVersion s.version)
  let graph ← graphOf s.declarations.entries .empty
  return ⟨graph, s.inputs, s.staleJobs, s.options, s.commands⟩

end SavedState

namespace StateLoad

/-- What a text holds in place of a state. -/
def ofText (text : String) : StateLoad :=
  match SavedState.read? text with
  | none => .corrupt .unreadable
  | some saved =>
    match saved.toState with
    | .ok state => .loaded state
    | .error fault => .corrupt fault

/-- **What is found in place of a state file.** -/
def ofFile {φ : Type} [FileSystem φ] (fs : φ) (p : Path) : StateLoad :=
  if FileSystem.pathExists fs p then
    match FileSystem.readText fs p with
    | .error e => .corrupt (.file e)
    | .ok text => ofText text
  else .missing

end StateLoad

/-- **Writes the state file.** -/
def BuildState.save {φ : Type} [FileSystem φ] (s : BuildState) (fs : φ) (p : Path) :
    FileChange φ :=
  FileSystem.write fs p (SavedState.ofState s).print.toUTF8

end IncrementalBuild
