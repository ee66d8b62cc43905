import IncrementalBuild.Build
import IncrementalBuild.Shell.Run

/-!
# Tools on a disk

On a disk, a tool that is named by a path is a script that lies there, and a
tool that is named by a mere name is one of the utilities that every system
has. A tool is started without anything to read, and what it writes is
collected to its end. What it does to the disk stays done, however it ends.
-/

namespace IncrementalBuild

open Shell (Ending)

namespace Disk

/-- Why a script with the given content cannot be started, or else how it is
run. -/
def startScript (d : Disk) (tool : String) (args : List String) (content : ByteArray) :
    Except OsError Ending :=
  let script := Shell.Bytes.ofByteArray content
  match Shell.interpreter? script with
  | none | some [] => .error .notExecutable
  | some words =>
    if Shell.isShell words then
      .ok (Shell.run d (words.contains "-e") (.ofText tool) (args.map .ofText) script)
    else .error .missing

/-- Starts a tool and runs it to its end, unless the system refuses. -/
def startTool (d : Disk) (tool : String) (args : List String) : Except OsError Ending :=
  if tool.contains '/' then
    match d.find ⟨tool⟩ with
    | .error e => .error e
    | .ok (_, .directory) => .error .denied
    | .ok (_, .file _ false) => .error .denied
    | .ok (_, .file content true) => d.startScript tool args content
  else
    match Shell.runNamed? d (.ofText tool) (args.map .ofText) with
    | some ending => .ok ending
    | none => .error .missing

/-- **Runs a tool to its end**, or gives the reason why it was not started. -/
def runTool (d : Disk) (tool : String) (args : List String) : Except String Ending :=
  if (tool :: args).any (·.contains '\x00') then .error "nul byte found in provided data"
  else (d.startTool tool args).mapError OsError.message

/-- The exit code of a tool, which is negative if it was killed. -/
def exitCode (e : Ending) : Int :=
  match e.status with
  | some n => n
  | none => -1

/-- What a tool wrote, as far as it is text. -/
def textOf (b : Shell.Bytes) : String := Text.Utf8.decodeLenient b.toByteArray

instance : ProcessWorld Disk where
  run d c :=
    match d.runTool c.tool c.args with
    | .error message => ⟨d, .error ⟨c.tool, message⟩, false⟩
    | .ok e => ⟨e.disk, .ok ⟨exitCode e, textOf e.output, textOf e.errors⟩, false⟩

/-- The module graph that a scanner wrote, if it ended well. -/
def readScan (tool : String) (e : Ending) : Except ScanFailure ModuleGraph :=
  if e.status ≠ some 0 then
    .error (.exit tool (exitCode e) (Text.trim (textOf e.errors)))
  else
    match String.fromUTF8? e.output.toByteArray with
    | none => .error .unreadable
    | some text =>
      match ModuleGraph.read? text with
      | none => .error .unreadable
      | some g => .ok g

/-- **The scanner that runs a tool**, which is given all inputs and writes the
module graph. -/
def toolScanner (tool : String) : Scanner Disk := fun d inputs =>
  match d.runTool tool (inputs.map (·.text)) with
  | .error message => (.error (.scanFailed (.spawn tool message)), d)
  | .ok e => ((readScan tool e).mapError .scanFailed, e.disk)

end Disk

end IncrementalBuild
