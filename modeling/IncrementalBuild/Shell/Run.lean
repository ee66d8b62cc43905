import IncrementalBuild.Shell.Builtin
import IncrementalBuild.Shell.Reader

/-!
# Running scripts

A script is carried out statement by statement in a session. A command is
built in, or it is another script that is run on its own; what is redirected
and what is assigned in front of a command holds for that command only. Parts
in parentheses, parts of a pipe and scripts inside of words run on their own
as well: they share the disk and what is read and written, and nothing else.

Every function takes a bound on how deep and how long it may go on. A script
that would go on longer is killed.
-/

namespace IncrementalBuild.Shell

/-! ## Interpreters -/

/-- The words behind the mark with which a script names its interpreter. -/
def interpreter? (content : Bytes) : Option (List String) :=
  match content with
  | '#' :: '!' :: rest =>
    some (((String.ofList (rest.takeWhile (· ≠ '\n'))).splitOn " ").filter (· ≠ ""))
  | _ => none

/-- The names under which a shell is known. -/
def shellNames : List String := ["sh", "dash", "ash", "bash"]

/-- Whether an interpreter is a shell. -/
def isShell (words : List String) : Bool :=
  let isShellPath (path : String) : Bool :=
    shellNames.contains (Utility.baseName path.toList).shown && path.toList.head? = some '/'
  match words with
  | path :: name :: _ =>
    isShellPath path || (path == "/usr/bin/env" && shellNames.contains name)
  | [path] => isShellPath path
  | [] => false

namespace Session

/-! ## Conditions and failures -/

/-- Ends a strict script if the last statement failed, unless it was a
condition. -/
def settle (s : Session) : Session :=
  if s.flow = .onward && s.strict && !s.tested && s.status ≠ 0 then
    { s with flow := .exited }
  else s

/-- Runs a part as a condition. -/
def asCondition (s : Session) (body : Session → Session) : Session :=
  { body { s with tested := true } with tested := s.tested }

/-- Turns the status around. -/
def negate (s : Session) : Session := s.ended (if s.status = 0 then 1 else 0)

/-- The session for another script, which has variables of its own. -/
def forScript (s : Session) (name : Bytes) (args : List Bytes) : Session :=
  { s with
    name, args
    bindings := s.exported.foldl
      (fun m name => match s.bindings.get? name with
        | some value => m.insert name value
        | none => m)
      (start s.disk name args).bindings
    functions := ∅
    flow := .onward
    line := 1
    strict := false
    strictNames := false
    tested := false }

/-- What is left when another script has ended. One that was killed has the
status that says so. -/
def afterScript (s inner : Session) : Session :=
  s.rejoin
    { inner with
      flow := .exited
      status := if inner.flow = .killed then 128 + 9 else inner.status }

/-- The session after the turn of a loop, and whether there may be another
one. -/
def afterTurn (s : Session) : Session × Bool :=
  match s.flow with
  | .onward => (s, true)
  | .leaving n => ({ s with flow := if n ≤ 1 then .onward else .leaving (n - 1) }, false)
  | .repeating n =>
    if n ≤ 1 then ({ s with flow := .onward }, true)
    else ({ s with flow := .repeating (n - 1) }, false)
  | _ => (s, false)

/-- The session after a command that was made of a statement, or after a part
of the script that lies in another file. -/
def afterReturn (s : Session) : Session :=
  if s.flow = .returned then { s with flow := .onward } else s

/-- Sets variables back to what they were. -/
def restore (s before : Session) (names : List Bytes) : Session :=
  names.foldl (fun s name =>
    match before.getVariable? name with
    | some value => s.setVariable name value
    | none => s.unsetVariable name) s

end Session

/-- Whether a word holds a script of its own. -/
def holdsScript (w : Word) : Bool := w.any fun
  | .expansion _ (.command _) => true
  | _ => false

/-- Connects the descriptors that are redirected. -/
def redirectAll (substitute : Substitution) (s : Session) :
    List Redirection → Except Session Session
  | [] => .ok s
  | r :: rest => do
    let (target, s) := expandText substitute s r.target
    let s ← match r.direction with
      | .input => s.openInput r.descriptor target
      | .output => s.openOutput r.descriptor false target
      | .append => s.openOutput r.descriptor true target
      | .duplicate => s.duplicate r.descriptor target
      | .text => .ok (s.connectStream r.descriptor (.bytes target))
    redirectAll substitute s rest

/-- Assigns the values of words to variables. -/
def assignAll (substitute : Substitution) (s : Session) (assignments : List (Bytes × Word)) :
    Session :=
  assignments.foldl (fun s (name, w) =>
    let (value, s) := expandText substitute s w
    s.setVariable name value) s

/-! ## Statements -/

mutual

/-- Runs the statements of a script. -/
def runScript (fuel : Nat) (s : Session) (script : Bytes) : Session :=
  match fuel with
  | 0 => { s with flow := .killed }
  | n + 1 =>
    let (body, complete) := statements script
    let s := runList n s body
    if complete || s.flow ≠ .onward then s
    else { s.complain 2 "Syntax error" with flow := .exited }

/-- Runs statements one after the other. -/
def runList (fuel : Nat) (s : Session) (body : List Statement) : Session :=
  match fuel, body with
  | 0, _ => { s with flow := .killed }
  | _, [] => s
  | n + 1, first :: rest =>
    let s := runStatement n s first
    if s.flow = .onward then runList n s rest else s

/-- Runs a statement. -/
def runStatement (fuel : Nat) (s : Session) (statement : Statement) : Session :=
  match fuel with
  | 0 => { s with flow := .killed }
  | n + 1 =>
    let substitute : Substitution := fun s script => s.capture fun s => runScript n s script
    match statement with
    | .simple line assignments words redirections =>
      (runSimple n { s with line } assignments words redirections).settle
    | .group false body => runList n s body
    | .group true body => (s.isolated fun s => runList n s body).settle
    | .branch condition body otherwise =>
      let s := s.asCondition fun s => runList n s condition
      if s.flow ≠ .onward then s
      else if s.status = 0 then runList n s body
      else runList n (s.ended 0) otherwise
    | .loop negated condition body => runLoop n s negated condition body 0
    | .each name words body =>
      match words with
      | none => runEach n (s.ended 0) name s.args body
      | some words =>
        let (found, s) := expandWords substitute s words
        runEach n (s.ended 0) name found body
    | .choose word cases =>
      let (text, s) := expandText substitute s word
      runCases n s text cases
    | .redirected line body redirections =>
      match redirectAll substitute { s with line } redirections with
      | .error s => s
      | .ok connected =>
        { runStatement n connected body with descriptors := s.descriptors }
    | .both first second =>
      let s := s.asCondition fun s => runStatement n s first
      if s.flow = .onward && s.status = 0 then runStatement n s second else s
    | .either first second =>
      let s := s.asCondition fun s => runStatement n s first
      if s.flow = .onward && s.status ≠ 0 then runStatement n s second else s
    | .negated body => (s.asCondition fun s => runStatement n s body).negate
    | .define name body =>
      { s.ended 0 with functions := s.functions.insert name.shown body }
    | .pipe first second =>
      let (output, s) := s.capture fun s => runStatement n s first
      (s.isolated fun s => runStatement n (s.connectStream 0 (.bytes output)) second).settle

/-- Runs a simple command. -/
def runSimple (fuel : Nat) (s : Session) (assignments : List (Bytes × Word))
    (words : List Word) (redirections : List Redirection) : Session :=
  match fuel with
  | 0 => { s with flow := .killed }
  | n + 1 =>
    let substitute : Substitution := fun s script => s.capture fun s => runScript n s script
    let (found, s) := expandWords substitute s words
    if s.flow ≠ .onward then s
    else
      match redirectAll substitute s redirections with
      | .error complained => { complained with descriptors := s.descriptors }
      | .ok connected =>
        match found with
        | [] =>
          let after := assignAll substitute connected assignments
          let substituted := assignments.any (holdsScript ·.2) || words.any holdsScript
          { after with
            descriptors := s.descriptors
            status := if substituted then after.status else 0 }
        | [['e', 'x', 'e', 'c']] => connected.ended 0
        | name :: args =>
          let ready := assignAll substitute connected assignments
          let names := assignments.map (·.1)
          let ready := { ready with exported := ready.exported ++ names.map Bytes.shown }
          let after := runCommand n ready name args
          { after.restore s names with
            descriptors := s.descriptors
            exported := if names.isEmpty then after.exported else s.exported }

/-- Runs a command with its arguments. -/
def runCommand (fuel : Nat) (s : Session) (name : Bytes) (args : List Bytes) : Session :=
  match fuel with
  | 0 => { s with flow := .killed }
  | n + 1 =>
    match s.functions.get? name.shown, Builtin.named? name with
    | some body, _ =>
      { (runStatement n { s with args } body).afterReturn with args := s.args }
    | none, some command => command s args
    | none, none =>
      match name.shown, args with
      | "eval", _ => runScript n (s.ended 0) ([' '].intercalate args)
      | "command", [] => s.ended 0
      | "command", name :: args => runCommand n s name args
      | "exec", name :: args => { runCommand n s name args with flow := .exited }
      | ".", file :: _ =>
        match s.disk.bytes (Session.pathOf file) with
        | .ok content => (runScript n s (Bytes.ofByteArray content)).afterReturn
        | .error e =>
          { s.complain 2 s!".: cannot open {file.shown}: {Session.openFailure e}" with
            flow := .exited }
      | shell, _ =>
        if name.contains '/' then runFile n s name args
        else if shellNames.contains shell then runShell n s name args
        else s.complain 127 s!"{name.shown}: not found"

/-- Runs a shell with its arguments. -/
def runShell (fuel : Nat) (s : Session) (name : Bytes) (args : List Bytes) : Session :=
  match fuel with
  | 0 => { s with flow := .killed }
  | n + 1 =>
    match args with
    | ['-', 'c'] :: script :: rest =>
      s.afterScript (runScript n (s.forScript (rest.headD name) rest.tail) script)
    | ['-', 'e'] :: rest =>
      match rest with
      | file :: args => runContent n s true file args
      | [] => s.ended 0
    | file :: args => runContent n s false file args
    | [] =>
      let (script, s) := s.readAll
      s.afterScript (runScript n (s.forScript name []) script)

/-- Runs what a file holds as a script of its own. -/
def runContent (fuel : Nat) (s : Session) (strict : Bool) (file : Bytes) (args : List Bytes) :
    Session :=
  match fuel with
  | 0 => { s with flow := .killed }
  | n + 1 =>
    match s.disk.bytes (Session.pathOf file) with
    | .ok content =>
      let inner := { s.forScript file args with strict }
      s.afterScript (runScript n inner (Bytes.ofByteArray content))
    | .error e => s.complain 2 s!"cannot open {file.shown}: {Session.openFailure e}"

/-- Runs a command that is named by its path. -/
def runFile (fuel : Nat) (s : Session) (name : Bytes) (args : List Bytes) : Session :=
  match fuel with
  | 0 => { s with flow := .killed }
  | n + 1 =>
    match s.disk.find (Session.pathOf name) with
    | .error .missing => s.complain 127 s!"{name.shown}: not found"
    | .error e => s.complain 126 s!"{name.shown}: {e.reason}"
    | .ok (_, .directory) => s.complain 126 s!"{name.shown}: Permission denied"
    | .ok (_, .file _ false) => s.complain 126 s!"{name.shown}: Permission denied"
    | .ok (_, .file content true) =>
      match interpreter? (Bytes.ofByteArray content) with
      | none => runContent n s false name args
      | some words =>
        if isShell words then runContent n s (words.contains "-e") name args
        else s.complain 127 s!"{name.shown}: not found"

/-- Runs a loop, where `last` is the status of its last turn. -/
def runLoop (fuel : Nat) (s : Session) (negated : Bool) (condition body : List Statement)
    (last : Nat) : Session :=
  match fuel with
  | 0 => { s with flow := .killed }
  | n + 1 =>
    let s := s.asCondition fun s => runList n s condition
    if s.flow ≠ .onward then s.afterTurn.1
    else if (s.status = 0) = negated then s.ended last
    else
      match (runList n s body).afterTurn with
      | (s, true) => runLoop n s negated condition body s.status
      | (s, false) => s

/-- Runs statements for each of some words. -/
def runEach (fuel : Nat) (s : Session) (name : Bytes) (words : List Bytes)
    (body : List Statement) : Session :=
  match fuel, words with
  | 0, _ => { s with flow := .killed }
  | _, [] => s
  | n + 1, word :: rest =>
    match (runList n (s.setVariable name word) body).afterTurn with
    | (s, true) => runEach n s name rest body
    | (s, false) => s

/-- Runs the statements of the first case with a pattern that stands for a
word. -/
def runCases (fuel : Nat) (s : Session) (text : Bytes)
    (cases : List (List Word × List Statement)) : Session :=
  match fuel, cases with
  | 0, _ => { s with flow := .killed }
  | _, [] => s.ended 0
  | n + 1, (patterns, body) :: rest =>
    let substitute : Substitution := fun s script => s.capture fun s => runScript n s script
    let (chosen, s) := patterns.foldl (fun (chosen, s) w =>
      if chosen then (chosen, s)
      else
        let (p, s) := expandPattern substitute s w
        (p.accepts text, s)) (false, s)
    if chosen then runList n (s.ended 0) body else runCases n s text rest

end

/-- How deep and how long a script may go on. -/
def patience : Nat := 10000000

/-- How a script ended. -/
structure Ending where
  disk : Disk
  /-- The status, unless the script was killed. -/
  status : Option Nat
  output : Bytes
  errors : Bytes

/-- The end of a session. -/
def Session.ending (s : Session) (workingDir : Location) : Ending :=
  { disk := { s.disk with workingDir }
    status := if s.flow = .killed then none else some s.status
    output := s.collected 0
    errors := s.collected 1 }

/-- **Runs a script** from its beginning. -/
def run (disk : Disk) (strict : Bool) (name : Bytes) (args : List Bytes) (script : Bytes) :
    Ending :=
  (runScript patience { Session.start disk name args with strict } script).ending
    disk.workingDir

/-- **Runs a command** that is not named by its path, if it is known. -/
def runNamed? (disk : Disk) (name : Bytes) (args : List Bytes) : Option Ending :=
  if shellNames.contains name.shown || (Utility.named? name).isSome then
    some ((runCommand patience (Session.start disk name args) name args).ending
      disk.workingDir)
  else none

end IncrementalBuild.Shell
