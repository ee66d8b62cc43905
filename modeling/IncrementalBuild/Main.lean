import IncrementalBuild.Program

/-!
# The outermost layer

The files below the working directory are read, the program is run on them,
and what it changed is written back. A file that begins like a script counts
as executable.
-/

namespace IncrementalBuild

/-- Whether a file begins like a script. -/
def beginsLikeScript (content : ByteArray) : Bool :=
  (content.extract 0 2).data == #['#'.toUInt8, '!'.toUInt8]

/-- Puts the files of a directory on a disk, with all that is below it. -/
partial def readTree (entries : Array IO.FS.DirEntry) (place : Location) (d : Disk) :
    IO Disk :=
  entries.foldlM (fun d entry => do
    let here := place ++ [entry.fileName]
    if ← entry.path.isDir then
      readTree (← entry.path.readDir) here (d.put here .directory)
    else
      let content ← IO.FS.readBinFile entry.path
      return d.put here (.file content (beginsLikeScript content))) d

/-- Writes the files that were made or changed. -/
def writeChanges (before after : Disk) : IO Unit := do
  for (place, e) in after.entries.entries do
    let name := (Disk.pathTo place).text
    unless (before.entry? place).any e.holdsSame do
      match e with
      | .directory => IO.FS.createDirAll name
      | .file content _ => IO.FS.writeBinFile name content

/-- Removes the files that are gone. -/
def removeGone (before after : Disk) : IO Unit := do
  for (place, e) in before.entries.entries do
    if (after.entry? place).isNone && !e.isDirectory then
      IO.FS.removeFile (Disk.pathTo place).text

/-- The disk with the files below the working directory. -/
def readWorkingDir : IO Disk := do
  let here ← IO.currentDir
  let place := (Disk.steps ⟨here.toString⟩).filter (· ≠ "")
  readTree (← here.readDir) place (.empty place)

end IncrementalBuild

open IncrementalBuild in
def main (args : List String) : IO UInt32 := do
  let before ← readWorkingDir
  let done := runProgram args (← IO.getEnv "DRIVERDAG_LOG") 1 before
  writeChanges before done.disk
  removeGone before done.disk
  (← IO.getStdout).putStr done.stdout
  for line in done.stderr do
    (← IO.getStderr).putStrLn line
  return done.exitCode.toUInt32
