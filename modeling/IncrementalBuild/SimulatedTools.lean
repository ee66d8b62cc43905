import IncrementalBuild.Declaration
import IncrementalBuild.FileSystem.Memory
import IncrementalBuild.Process
import IncrementalBuild.Text.Blank

/-!
# Simulated tools

A world in memory whose every tool behaves like a well-mannered compiler: it
writes each product that its command names, and for each input a dependency
record made from the declarations in the input's text. How it behaves for
certain paths can be set beforehand, so that a build can be watched under
failures, unreadable records, or a request to cancel.

An input declares something with a line of words, `decl KEY`, followed by any
of `sig=TEXT`, which its fingerprint is taken from, `needs=KEY,KEY` for the
keys its interface is built on, and `uses=KEY,KEY` for those its body uses.
-/

namespace IncrementalBuild

/-- How the simulated tools behave for certain paths. A command is affected
when it compiles or writes the path. -/
structure ToolScript where
  /-- Exit codes. -/
  fail : OrderedMap Path Int
  /-- Commands that cannot be started. -/
  spawnFail : OrderedSet Path
  /-- Inputs whose record is no record. -/
  garbled : OrderedSet Path
  /-- Inputs whose record is not written. -/
  skipped : OrderedSet Path
  stdout : OrderedMap Path String
  stderr : OrderedMap Path String
  /-- Commands during which the execution is asked to stop. -/
  cancel : OrderedSet Path
  /-- Inputs whose record is replaced by a given content. -/
  records : OrderedMap Path ByteArray

def ToolScript.empty : ToolScript := ⟨∅, ∅, ∅, ∅, ∅, ∅, ∅, ∅⟩

/-- **Files in memory, and tools that work on them.** -/
structure SimulatedTools where
  files : MemoryFiles
  script : ToolScript
  /-- The commands that were run, the last one first. -/
  invocations : List Command

namespace SimulatedTools

def ofFiles (files : MemoryFiles) : SimulatedTools := ⟨files, .empty, []⟩

/-- The words of a line, if it declares something. -/
def declaration? (line : String) : Option Declaration :=
  match Text.words line with
  | "decl" :: key :: options =>
    let value (name : String) (word : String) : Option String :=
      if name.toList.isPrefixOf word.toList then some (String.ofList (word.toList.drop name.length))
      else none
    let keys (name : String) : List String :=
      (options.filterMap (value name)).flatMap fun list =>
        (list.splitOn ",").filter (· ≠ "")
    let signature := ((options.filterMap (value "sig=")).getLast?).getD key
    some ⟨key, Fingerprint.ofText signature, keys "needs=", keys "uses="⟩
  | _ => none

/-- The declarations in the text of an input. -/
def recordOf (source : Path) (text : String) : DependencyRecord :=
  ⟨source, (Text.lines text).filterMap declaration?⟩

/-- The paths that a command compiles or writes. -/
def touched (c : Command) : List Path :=
  (c.valuesOf Command.primaryFlag ++ c.valuesOf Command.outputFlag).map Path.mk

/-- Writes the products of a command. -/
def writeProducts (fs : MemoryFiles) (c : Command) : MemoryFiles :=
  (c.valuesOf Command.outputFlag).foldl
    (fun fs product => fs.addFile ⟨product⟩ s!"built by {c.tool}\n".toUTF8) fs

/-- The inputs of a command, each with the place of its record. -/
def recordPlaces (c : Command) : List (Path × Path) :=
  ((c.valuesOf Command.primaryFlag).zip (c.valuesOf Command.recordFlag)).map
    fun (primary, record) => (⟨primary⟩, ⟨record⟩)

/-- Writes the dependency record of one input. -/
def writeRecord (script : ToolScript) (fs : MemoryFiles) (place : Path × Path) :
    MemoryFiles :=
  let (primary, record) := place
  if script.skipped.contains primary then fs
  else
    let text :=
      if script.garbled.contains primary then "\x7b not json"
      else
        let source := match FileSystem.readText fs primary with
          | .ok text => text
          | .error _ => ""
        (recordOf primary source).print
    fs.addFile record text.toUTF8

/-- Replaces the dependency record of one input, if that is asked for. -/
def replaceRecord (script : ToolScript) (fs : MemoryFiles) (place : Path × Path) :
    MemoryFiles :=
  match script.records.get? place.1 with
  | some content => fs.addFile place.2 content
  | none => fs

/-- What a successful command leaves. -/
def succeed (script : ToolScript) (fs : MemoryFiles) (c : Command) : MemoryFiles :=
  let places := recordPlaces c
  let fs := places.foldl (writeRecord script) (writeProducts fs c)
  places.foldl (replaceRecord script) fs

/-- The texts set for the paths that a command touches, one to a line. -/
def textsFor (texts : OrderedMap Path String) (c : Command) : String :=
  "\n".intercalate ((touched c).filterMap texts.get?)

/-- **Runs a command.** -/
def run (t : SimulatedTools) (c : Command) : ProcessRun SimulatedTools :=
  let paths := touched c
  let t := { t with invocations := c :: t.invocations }
  let cancelRequested := paths.any t.script.cancel.contains
  if paths.any t.script.spawnFail.contains then
    ⟨t, .error ⟨c.tool, OsError.missing.message⟩, cancelRequested⟩
  else
    let exitCode := (paths.findSome? t.script.fail.get?).getD 0
    let files := if exitCode = 0 then succeed t.script t.files c else t.files
    ⟨{ t with files },
      .ok ⟨exitCode, textsFor t.script.stdout c, textsFor t.script.stderr c⟩,
      cancelRequested⟩

instance : ProcessWorld SimulatedTools := ⟨run⟩

instance : FileSystem SimulatedTools where
  openFile t := FileSystem.openFile t.files
  readText t := FileSystem.readText t.files
  write t p content :=
    let (result, files) := FileSystem.write t.files p content
    (result, { t with files })
  removeFile t p :=
    let (result, files) := FileSystem.removeFile t.files p
    (result, { t with files })
  pathExists t := FileSystem.pathExists t.files
  isFile t := FileSystem.isFile t.files
  isDirectory t := FileSystem.isDirectory t.files
  list t := FileSystem.list t.files
  extent t := FileSystem.extent t.files

end SimulatedTools

end IncrementalBuild
