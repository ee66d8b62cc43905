import IncrementalBuild.Shell.Condition
import IncrementalBuild.Shell.Format

/-!
# Utilities

The commands that work on files and texts and know nothing of the script that
calls them. A utility takes options, which begin with a hyphen, and then
operands; what goes wrong with one operand is complained of, and the next one
has its turn.
-/

namespace IncrementalBuild.Shell

/-- What a command does in a session with its arguments. -/
abbrev Utility := Session → List Bytes → Session

namespace Utility

/-! ## Options and operands -/

/-- Whether an argument is an option. -/
def isOption : Bytes → Bool
  | '-' :: _ :: _ => true
  | _ => false

/-- The letters of the options in front. -/
def options (args : List Bytes) : Bytes :=
  ((args.takeWhile fun a => isOption a && a ≠ ['-', '-']).flatMap List.tail)

/-- What stands behind the options. -/
def operands (args : List Bytes) : List Bytes :=
  match args.dropWhile fun a => isOption a && a ≠ ['-', '-'] with
  | ['-', '-'] :: rest => rest
  | rest => rest

/-- Does something with each operand. The status is that of the last failure,
if there was one. -/
def forEach (operands : List Bytes) (one : Session → Bytes → Session) (s : Session) : Session :=
  operands.foldl (fun s b =>
    let after := one { s with status := 0 } b
    { after with status := if after.status = 0 then s.status else after.status })
    (s.ended 0)

/-- Does something with each operand, of which there has to be one. -/
def forEachOf (name : String) (operands : List Bytes) (one : Session → Bytes → Session)
    (s : Session) : Session :=
  if operands.isEmpty then s.fail 1 s!"{name}: missing operand" else forEach operands one s

/-- The session with another disk, or after a complaint. -/
def onDisk (s : Session) (result : Except OsError Disk) (complaint : String) : Session :=
  match result with
  | .ok disk => { s with disk }
  | .error e => s.fail 1 s!"{complaint}: {e.reason}"

/-- The last component of a path. -/
def baseName (b : Bytes) : Bytes :=
  match (b.reverse.dropWhile (· = '/')).takeWhile (· ≠ '/') with
  | [] => b.take 1
  | name => name.reverse

/-- A path without its last component. -/
def dirName (b : Bytes) : Bytes :=
  let above := ((b.reverse.dropWhile (· = '/')).dropWhile (· ≠ '/'))
  match above with
  | [] => if b.head? = some '/' then ['/'] else ['.']
  | _ =>
    match above.dropWhile (· = '/') with
    | [] => ['/']
    | rest => rest.reverse

/-- Where a file goes that is copied or moved to a target: below it, if it is
a directory. -/
def destination (d : Disk) (source target : Bytes) : Bytes :=
  if d.isDirectory (Session.pathOf target) then target ++ ['/'] ++ baseName source else target

/-! ## Texts -/

/-- Prints its arguments, with escapes read. -/
def echo : Utility := fun s args =>
  let (newline, args) := match args with
    | ['-', 'n'] :: rest => (false, rest)
    | _ => (true, args)
  let (b, goesOn) := Format.escaped ([' '].intercalate args)
  (s.print (b ++ if newline && goesOn then ['\n'] else [])).ended 0

/-- Complains of what is wrong with a format or an argument. -/
def formatFault (s : Session) : Format.Fault → Session
  | .noNumber b => s.complain 1 s!"printf: {b.shown}: expected numeric value"
  | .noConversion c => s.complain 2 s!"printf: %{c}: invalid directive"
  | .unfinished => s.complain 2 "printf: missing format character"

/-- Prints what a format shows of its arguments. -/
def printf : Utility := fun s args =>
  match if args.head? = some ['-', '-'] then args.tail else args with
  | [] => s.complain 2 "printf: usage: printf format [arg ...]"
  | format :: args =>
    let (b, faults) := Format.apply format args
    faults.foldl formatFault ((s.print b).ended 0)

/-- Tests a condition, under the name of a command. -/
def testAs (name : String) : Utility := fun s args =>
  match Condition.holds s.disk args with
  | .ok holds => s.ended (if holds then 0 else 1)
  | .error message => s.complain 2 s!"{name}: {message}"

/-- Tests a condition. -/
def test : Utility := testAs "test"

/-- Tests a condition that ends with a bracket. -/
def bracket : Utility := fun s args =>
  match args.reverse with
  | [']'] :: words => testAs "[" s words.reverse
  | _ => s.complain 2 "[: missing ]"

def basename : Utility := fun s args =>
  match operands args with
  | [b] => (s.print (baseName b ++ ['\n'])).ended 0
  | [b, suffix] =>
    let name := baseName b
    let cut :=
      if suffix.isSuffixOf name && suffix ≠ name then name.take (name.length - suffix.length)
      else name
    (s.print (cut ++ ['\n'])).ended 0
  | _ => s.fail 1 "basename: missing operand"

def dirname : Utility := fun s args =>
  match operands args with
  | [] => s.fail 1 "dirname: missing operand"
  | bs => (s.print (bs.flatMap fun b => dirName b ++ ['\n'])).ended 0

/-! ## Files -/

/-- Prints files one after the other. -/
def cat : Utility := fun s args =>
  let one (s : Session) (b : Bytes) : Session :=
    if b = ['-'] then
      let (there, s) := s.readAll
      s.print there
    else if b = Session.nullFile then s
    else
      match s.disk.bytes (Session.pathOf b) with
      | .ok content => s.print (Bytes.ofByteArray content)
      | .error e => s.fail 1 s!"cat: {b.shown}: {e.reason}"
  match operands args with
  | [] => one (s.ended 0) ['-']
  | bs => forEach bs one s

def mkdir : Utility := fun s args =>
  let above := (options args).contains 'p'
  forEachOf "mkdir" (operands args) (fun s b =>
    let p := Session.pathOf b
    let result := if above then
        match Disk.makeDirs p.text.length s.disk p with
        | (.ok (), d) => .ok d
        | (.error e, _) => .error e
      else s.disk.makeDir p
    onDisk s result s!"mkdir: cannot create directory '{b.shown}'") s

/-- Removes files, and directories with all that is in them. -/
def rm : Utility := fun s args =>
  let letters := options args
  let forced := letters.contains 'f'
  let deep := letters.contains 'r' || letters.contains 'R'
  let every := if forced then forEach else forEachOf "rm"
  every (operands args) (fun s b =>
    let complaint := s!"rm: cannot remove '{b.shown}'"
    match s.disk.find (Session.pathOf b) with
    | .ok (place, .directory) =>
      onDisk s (if deep then .ok (s.disk.removeTree place) else .error .isDirectory) complaint
    | .ok (_, .file _ _) => onDisk s (s.disk.unlink (Session.pathOf b)) complaint
    | .error e => if forced then s else onDisk s (.error e) complaint) s

/-- Does something with each operand but the last, which is the target. What
is done gets the place of the source, what stands there, and the target. -/
def toTarget (name : String)
    (one : Session → Location → DiskEntry → Bytes → Except OsError Disk) : Utility :=
  fun s args =>
    match (operands args).reverse with
    | [] => s.fail 1 s!"{name}: missing file operand"
    | [b] => s.fail 1 s!"{name}: missing destination file operand after '{b.shown}'"
    | target :: sources =>
      forEach sources.reverse (fun s b =>
        match s.disk.find (Session.pathOf b) with
        | .error e => s.fail 1 s!"{name}: cannot stat '{b.shown}': {e.reason}"
        | .ok (place, e) =>
          onDisk s (one s place e (destination s.disk b target))
            s!"{name}: cannot create '{target.shown}'") s

/-- Copies a file. One that is made is executable if its source is. -/
def copyFile (d : Disk) (content : ByteArray) (executable : Bool) (target : Path) :
    Except OsError Disk :=
  if (d.named? target).isSome then d.createFile target content
  else do (← d.createFile target content).setExecutable target executable

def cp : Utility := fun s args =>
  let letters := options args
  let deep := letters.contains 'r' || letters.contains 'R' || letters.contains 'a'
  toTarget "cp" (fun s place e target =>
    match e with
    | .file content executable => copyFile s.disk content executable (Session.pathOf target)
    | .directory =>
      if deep then (s.disk.locate (Session.pathOf target)).map (s.disk.copyTree place)
      else .error .isDirectory) s args

def mv : Utility := toTarget "mv" fun s place e target =>
  match e with
  | .file _ _ => s.disk.move (Disk.pathTo place) (Session.pathOf target)
  | .directory => do
    return (s.disk.copyTree place (← s.disk.locate (Session.pathOf target))).removeTree place

/-- Makes files that are missing. -/
def touch : Utility := fun s args =>
  forEach (operands args) (fun s b =>
    if (s.disk.named? (Session.pathOf b)).isSome then s
    else
      onDisk s (s.disk.createFile (Session.pathOf b) .empty)
        s!"touch: cannot touch '{b.shown}'") s

/-- Whether a mode lets a file be executed, if the mode says so at all. -/
def executable? (mode : Bytes) : Option Bool :=
  match Text.number? 8 mode with
  | some n => some (n % 2 = 1 || n / 8 % 2 = 1 || n / 64 % 2 = 1)
  | none =>
    if !mode.contains 'x' then none
    else some (mode.contains '+' || mode.contains '=')

def chmod : Utility := fun s args =>
  match operands args with
  | mode :: files =>
    match executable? mode with
    | none => s.ended 0
    | some executable =>
      forEach files (fun s b =>
        onDisk s (s.disk.setExecutable (Session.pathOf b) executable)
          s!"chmod: cannot access '{b.shown}'") s
  | [] => s.fail 1 "chmod: missing operand"

/-! ## All of them -/

/-- The utility with a name. -/
def named? (name : Bytes) : Option Utility :=
  match name.shown with
  | "true" | "sleep" => some fun s _ => s.ended 0
  | "false" => some fun s _ => s.ended 1
  | "echo" => some echo
  | "printf" => some printf
  | "test" => some test
  | "[" => some bracket
  | "basename" => some basename
  | "dirname" => some dirname
  | "cat" => some cat
  | "mkdir" => some mkdir
  | "rm" => some rm
  | "cp" => some cp
  | "mv" => some mv
  | "touch" => some touch
  | "chmod" => some chmod
  | "pwd" => some fun s _ => (s.print (Bytes.ofText s.disk.workingPath.text ++ ['\n'])).ended 0
  | _ => none

end Utility

end IncrementalBuild.Shell
