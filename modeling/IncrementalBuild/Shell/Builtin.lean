import IncrementalBuild.Shell.Expansion
import IncrementalBuild.Shell.Utility

/-!
# Built-in commands

The commands that change the script itself: its variables and arguments, its
working directory, and how it goes on.
-/

namespace IncrementalBuild.Shell.Builtin

/-- The number that an argument writes. -/
def number? (b : Bytes) : Option Nat := if b.isEmpty then none else Text.number? 10 b

/-! ## How a script goes on -/

/-- Ends the script, or the command that is being carried out. -/
def finish (name : String) (flow : Flow) : Utility := fun s args =>
  match args with
  | [] => { s with flow }
  | b :: _ =>
    match number? b with
    | some n => { s.ended n with flow }
    | none => { s.complain 2 s!"{name}: Illegal number: {b.shown}" with flow := .exited }

/-- Leaves loops, or goes on with their next turn. -/
def jump (flow : Nat → Flow) : Utility := fun s args =>
  match args with
  | [] => { s.ended 0 with flow := flow 1 }
  | b :: _ =>
    match number? b with
    | some (n + 1) => { s.ended 0 with flow := flow (n + 1) }
    | _ => { s.complain 2 s!"Illegal number: {b.shown}" with flow := .exited }

/-- Sends a signal, which ends the script if it goes to the script itself. -/
def kill : Utility := fun s args =>
  let isSignal (b : Bytes) : Bool := b.head? = some '-'
  let signals := args.takeWhile isSignal
  let rest := args.dropWhile isSignal
  let targets := if signals = [['-', 's']] then rest.tail else rest
  if signals = [['-', '0']] then s.ended 0
  else if targets.contains Session.processNumber then { s with flow := .killed }
  else s.complain 1 "kill: No such process"

/-! ## Variables and arguments -/

/-- Drops arguments in front. -/
def shift : Utility := fun s args =>
  let n := ((args.head?).bind number?).getD 1
  if s.args.length < n then
    { s.complain 2 "shift: can't shift that many" with flow := .exited }
  else { s.ended 0 with args := s.args.drop n }

/-- Turns the options with some letters on or off. -/
def choose (s : Session) (on : Bool) (letters : Bytes) : Session :=
  { s with
    strict := if letters.contains 'e' then on else s.strict
    strictNames := if letters.contains 'u' then on else s.strictNames }

/-- Sets the arguments, and how failures are taken. -/
def set (s : Session) : List Bytes → Session
  | [] => s.ended 0
  | ['-', '-'] :: args => { s.ended 0 with args }
  | ('-' :: letters) :: rest => set (choose s true letters) rest
  | ('+' :: letters) :: rest => set (choose s false letters) rest
  | args => { s.ended 0 with args }

/-- Takes assignments as arguments. -/
def declare : Utility := fun s args =>
  (args.foldl (fun s b =>
    let name := b.takeWhile (· ≠ '=')
    match b.drop name.length with
    | _ :: value => s.setVariable name value
    | [] => s) s).ended 0

/-- Lets other scripts see variables, which may be assigned at once. -/
def exportNames : Utility := fun s args =>
  let s := declare s args
  { s with exported := s.exported ++ args.map fun b => (Bytes.shown (b.takeWhile (· ≠ '='))) }

def unset : Utility := fun s args =>
  ((Utility.operands args).foldl Session.unsetVariable s).ended 0

/-! ## Reading a line -/

/-- The characters of a line, with its backslashes taken as quoting. -/
def unquoted : Bytes → List PatternChar
  | [] => []
  | '\\' :: c :: rest => ⟨true, c⟩ :: unquoted rest
  | c :: rest => ⟨false, c⟩ :: unquoted rest

/-- Whether a character separates words, and whether it is a blank. -/
def isSeparator (separators : Bytes) (c : PatternChar) : Bool :=
  !c.quoted && separators.contains c.char

def isBlankSeparator (separators : Bytes) (c : PatternChar) : Bool :=
  isSeparator separators c && (c.char = ' ' || c.char = '\t' || c.char = '\n')

/-- Drops one separator with the blanks around it. -/
def dropSeparator (separators : Bytes) (cs : List PatternChar) : List PatternChar :=
  match cs.dropWhile (isBlankSeparator separators) with
  | c :: rest =>
    if isSeparator separators c then rest.dropWhile (isBlankSeparator separators)
    else c :: rest
  | [] => []

/-- Gives the words of a line to names. The last name takes all that is
left. -/
def assignWords (separators : Bytes) (s : Session) (cs : List PatternChar) :
    List Bytes → Session
  | [] => s
  | [name] =>
    let rest := (cs.reverse.dropWhile (isBlankSeparator separators)).reverse
    s.setVariable name (rest.map (·.char))
  | name :: names =>
    let word := cs.takeWhile fun c => !isSeparator separators c
    assignWords separators (s.setVariable name (word.map (·.char)))
      (dropSeparator separators (cs.drop word.length)) names

/-- Reads a line, and goes on with the next one where a backslash ends it, at
most so often. Gives what was read and whether the end of a line was met. -/
def readLogicalLine (raw : Bool) : Nat → Session → Bytes × Bool × Session
  | 0, s => ([], false, s)
  | n + 1, s =>
    let (line, s) := s.readLine
    let content := line.takeWhile (· ≠ '\n')
    if content.length = line.length then (content, false, s)
    else
      let slashes := (content.reverse.takeWhile (· = '\\')).length
      if !raw && slashes % 2 = 1 then
        let (more, ended, s) := readLogicalLine raw n s
        (content.dropLast ++ more, ended, s)
      else (content, true, s)

/-- How many lines a backslash can join. -/
def longestJoin : Nat := 10000

/-- Reads a line into variables. -/
def read : Utility := fun s args =>
  let raw := (Utility.options args).contains 'r'
  match Utility.operands args with
  | [] => s.complain 2 "read: arg count"
  | names =>
    let (line, ended, s) := readLogicalLine raw longestJoin s
    let cs := if raw then line.map (PatternChar.mk false) else unquoted line
    (assignWords s.separators s (cs.dropWhile (isBlankSeparator s.separators)) names).ended
      (if ended then 0 else 1)

/-! ## The working directory -/

/-- Changes the working directory. -/
def cd : Utility := fun s args =>
  match Utility.operands args with
  | [] => s.complain 2 "cd: HOME not set"
  | b :: _ =>
    match s.disk.find (Session.pathOf b) with
    | .ok (place, .directory) =>
      let s := { s with disk := { s.disk with workingDir := place } }
      (s.setVariable "PWD".toList (Bytes.ofText s.disk.workingPath.text)).ended 0
    | _ => s.complain 2 s!"cd: can't cd to {b.shown}"

/-! ## All of them -/

/-- The built-in command with a name. Every utility is one. -/
def named? (name : Bytes) : Option Utility :=
  match name.shown with
  | ":" | "trap" | "wait" | "umask" => some fun s _ => s.ended 0
  | "exit" => some (finish "exit" .exited)
  | "return" => some (finish "return" .returned)
  | "break" => some (jump .leaving)
  | "continue" => some (jump .repeating)
  | "kill" => some kill
  | "shift" => some shift
  | "set" => some set
  | "export" => some exportNames
  | "readonly" | "local" => some declare
  | "unset" => some unset
  | "read" => some read
  | "cd" => some cd
  | _ => Utility.named? name

end IncrementalBuild.Shell.Builtin
