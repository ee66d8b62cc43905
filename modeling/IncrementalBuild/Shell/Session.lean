import IncrementalBuild.FileSystem.Disk
import IncrementalBuild.Shell

/-!
# Sessions of the shell

A session is all that a script works on: the disk, its variables and
arguments, and what its descriptors stand for. What is written goes to a file
or is collected in a buffer; what is read comes from a file or from bytes that
are given. A descriptor names a buffer or a stream by its number, so that
parts of a script that run on their own can share it.
-/

namespace IncrementalBuild.Shell

/-- Where what is written goes. -/
inductive Sink where
  | buffer (number : Nat)
  | file (place : Location)
  | nowhere

/-- Where what is read comes from. -/
inductive Stream where
  | bytes (rest : Bytes)
  | file (place : Location) (offset : Nat)

/-- What a descriptor stands for. -/
inductive Descriptor where
  | input (stream : Nat)
  | output (sink : Sink)

/-- How a script goes on after a statement. -/
inductive Flow where
  | onward
  /-- Loops are left, so many of them. -/
  | leaving (levels : Nat)
  /-- Loops are left but for the last of so many, which goes on with its next
  turn. -/
  | repeating (levels : Nat)
  /-- A command that is made of a statement is left. -/
  | returned
  | exited
  | killed
  deriving DecidableEq

/-- **All that a script works on.** -/
structure Session where
  disk : Disk
  /-- The values of variables. -/
  bindings : OrderedMap String Bytes
  /-- The variables that other scripts get to see. -/
  exported : List String
  /-- The commands that are made of statements. -/
  functions : OrderedMap String Statement
  /-- The name under which the script was started. -/
  name : Bytes
  args : List Bytes
  status : Nat
  buffers : Array Bytes
  streams : Array Stream
  descriptors : OrderedMap Nat Descriptor
  flow : Flow
  /-- The line of the statement that is carried out. -/
  line : Nat
  /-- Whether a statement that fails ends the script. -/
  strict : Bool
  /-- Whether a variable that is not set ends the script. -/
  strictNames : Bool
  /-- Whether the statement that is carried out is a condition. -/
  tested : Bool

namespace Session

/-- The number that the script itself goes by. -/
def processNumber : Bytes := "4711".toList

/-- A session at its start. Nothing can be read, and what is written to the
descriptors one and two is collected in the first two buffers. -/
def start (disk : Disk) (name : Bytes) (args : List Bytes) : Session :=
  { disk, name, args
    bindings := OrderedMap.ofList
      [("IFS", [' ', '\t', '\n']), ("PWD", Bytes.ofText disk.workingPath.text)]
    exported := []
    functions := ∅
    status := 0
    buffers := #[[], []]
    streams := #[.bytes []]
    descriptors := OrderedMap.ofList
      [(0, .input 0), (1, .output (.buffer 0)), (2, .output (.buffer 1))]
    flow := .onward
    line := 1
    strict := false
    strictNames := false
    tested := false }

/-- What was collected in a buffer. -/
def collected (s : Session) (buffer : Nat) : Bytes := s.buffers[buffer]?.getD []

/-- The session after a command with the given status. -/
def ended (s : Session) (status : Nat) : Session := { s with status := status % 256 }

def getVariable? (s : Session) (name : Bytes) : Option Bytes :=
  s.bindings.get? (String.ofList name)

def setVariable (s : Session) (name value : Bytes) : Session :=
  { s with bindings := s.bindings.insert (String.ofList name) value }

def unsetVariable (s : Session) (name : Bytes) : Session :=
  { s with bindings := s.bindings.erase (String.ofList name) }

/-- The path that bytes name. -/
def pathOf (b : Bytes) : Path := ⟨b.toText⟩

/-- The file that takes everything and gives nothing. -/
def nullFile : Bytes := "/dev/null".toList

/-! ## Writing -/

/-- Writes behind what a sink has taken so far. -/
def writeTo (s : Session) (b : Bytes) : Sink → Session
  | .nowhere => s
  | .buffer n => { s with buffers := s.buffers.modify n (· ++ b) }
  | .file place =>
    match s.disk.entry? place with
    | some (.file content executable) =>
      { s with disk := s.disk.put place (.file (content ++ b.toByteArray) executable) }
    | _ => s

/-- Writes to a descriptor. -/
def write (s : Session) (descriptor : Nat) (b : Bytes) : Session :=
  match s.descriptors.get? descriptor with
  | some (.output sink) => s.writeTo b sink
  | _ => s

def print (s : Session) (b : Bytes) : Session := s.write 1 b

/-- Complains, and ends the command with a status. -/
def fail (s : Session) (status : Nat) (message : String) : Session :=
  (s.write 2 (message.toList ++ ['\n'])).ended status

/-- Complains in the name of the script, and ends the command with a
status. -/
def complain (s : Session) (status : Nat) (message : String) : Session :=
  s.fail status s!"{s.name.shown}: {s.line}: {message}"

/-! ## Reading -/

/-- What a stream still has to give. -/
def remaining (s : Session) : Stream → Bytes
  | .bytes rest => rest
  | .file place offset =>
    match s.disk.entry? place with
    | some (.file content _) => (Bytes.ofByteArray content).drop offset
    | _ => []

/-- What a stream has to give after so many bytes. -/
def advance (length : Nat) : Stream → Stream
  | .bytes rest => .bytes (rest.drop length)
  | .file place offset => .file place (offset + length)

/-- Reads from the descriptor zero as much as a function of all that is there
asks for. -/
def readWhere (s : Session) (length : Bytes → Nat) : Bytes × Session :=
  match s.descriptors.get? 0 with
  | some (.input n) =>
    match s.streams[n]? with
    | some stream =>
      let there := s.remaining stream
      let wanted := length there
      (there.take wanted, { s with streams := s.streams.set! n (advance wanted stream) })
    | none => ([], s)
  | _ => ([], s)

/-- Reads all that is there. -/
def readAll (s : Session) : Bytes × Session := s.readWhere List.length

/-- Reads up to the end of a line, which is included. -/
def readLine (s : Session) : Bytes × Session :=
  s.readWhere fun b => (b.takeWhile (· ≠ '\n')).length + 1

/-! ## Descriptors -/

/-- Lets a descriptor stand for something. -/
def connect (s : Session) (descriptor : Nat) (d : Descriptor) : Session :=
  { s with descriptors := s.descriptors.insert descriptor d }

/-- Lets a descriptor read from a new stream. -/
def connectStream (s : Session) (descriptor : Nat) (stream : Stream) : Session :=
  { s with streams := s.streams.push stream }.connect descriptor (.input s.streams.size)

/-- Why a file could not be opened to be written. -/
def createFailure : OsError → String
  | .missing => "Directory nonexistent"
  | e => e.reason

/-- Why a file could not be opened to be read. -/
def openFailure : OsError → String
  | .missing => "No such file"
  | e => e.reason

/-- How a descriptor was connected: the session after it, or the one after
the complaint that it cannot be done. -/
abbrev Connected := Except Session Session

/-- Lets a descriptor read from a file. -/
def openInput (s : Session) (descriptor : Nat) (target : Bytes) : Connected :=
  if target = nullFile then .ok (s.connectStream descriptor (.bytes []))
  else
    match s.disk.find (pathOf target) with
    | .ok (place, .file _ _) => .ok (s.connectStream descriptor (.file place 0))
    | .ok (_, .directory) => .ok (s.connectStream descriptor (.bytes []))
    | .error e => .error (s.complain 2 s!"cannot open {target.shown}: {openFailure e}")

/-- The disk with a file that can be written to: one that is missing is made,
and one that is there is emptied unless it is to be appended to. -/
def prepareFile (d : Disk) (append : Bool) (p : Path) : Except OsError Disk :=
  match d.find p with
  | .ok (_, .file _ _) => if append then .ok d else d.createFile p .empty
  | _ => d.createFile p .empty

/-- Lets a descriptor write to a file. -/
def openOutput (s : Session) (descriptor : Nat) (append : Bool) (target : Bytes) : Connected :=
  if target = nullFile then .ok (s.connect descriptor (.output .nowhere))
  else
    let opened := do
      let disk ← prepareFile s.disk append (pathOf target)
      return (disk, ← disk.locate (pathOf target))
    match opened with
    | .ok (disk, place) => .ok ({ s with disk }.connect descriptor (.output (.file place)))
    | .error e => .error (s.complain 2 s!"cannot create {target.shown}: {createFailure e}")

/-- Lets a descriptor stand for what another one stands for, or for
nothing. -/
def duplicate (s : Session) (descriptor : Nat) (target : Bytes) : Connected :=
  match target with
  | ['-'] => .ok { s with descriptors := s.descriptors.erase descriptor }
  | [c] =>
    match s.descriptors.get? (c.toNat - '0'.toNat) with
    | some d => .ok (s.connect descriptor d)
    | none => .error (s.complain 2 s!"{target.shown}: Bad file descriptor")
  | _ => .error (s.complain 2 s!"{target.shown}: Bad fd number")

/-! ## Parts that run on their own -/

/-- What is left when a part of the script has run on its own: what it did to
the world, and its status. A script that is killed is killed as a whole. -/
def rejoin (s inner : Session) : Session :=
  { s with
    disk := { inner.disk with workingDir := s.disk.workingDir }
    buffers := inner.buffers
    streams := inner.streams
    status := inner.status
    flow := if inner.flow = .killed then .killed else s.flow }

/-- Runs a part on its own. -/
def isolated (s : Session) (body : Session → Session) : Session := s.rejoin (body s)

/-- Runs a part on its own and collects what it writes. -/
def capture (s : Session) (body : Session → Session) : Bytes × Session :=
  let n := s.buffers.size
  let inner := body ({ s with buffers := s.buffers.push [] }.connect 1 (.output (.buffer n)))
  (inner.collected n, s.rejoin inner)

end Session

end IncrementalBuild.Shell
