import IncrementalBuild.BuildLog
import IncrementalBuild.DiskTools
import IncrementalBuild.Listing

/-!
# The program

The program reads its command line, loads the request file it names, and then
either lists the jobs of the build or builds. How the build went decides its
exit code: zero if it succeeded, one if it failed, 130 if it was cancelled.
Whatever kept it from building gives two, and a line that says so.
-/

namespace IncrementalBuild

/-- What came of carrying out a command line. -/
structure Conclusion where
  disk : Disk
  result : Except BuildError RunOutcome
  stdout : String
  events : List LogEvent

namespace CommandLine

/-- The build request that a command line asks for. -/
def buildRequest (c : CommandLine) (processors : Nat) (d : Disk) :
    Except BuildError BuildRequest := do
  let path : Path := ⟨c.request⟩
  let file ← RequestFile.load d path
  file.resolve d (RequestFile.rootOf path d.workingPath) c.overrides processors

/-- Lists what a build would do. -/
def list (r : BuildRequest) (d : Disk) : Conclusion :=
  match r.prepare (r.tools.scanner.map Disk.toolScanner) d with
  | (.error e, after) => ⟨after, .error (.planning e), "", LogEvent.ofLoading⟩
  | (.ok b, after) =>
    ⟨after, .ok .succeeded, b.listing, LogEvent.ofLoading ++ r.planningEvents d b⟩

/-- Builds, and gives an account of it. -/
def build (r : BuildRequest) (d : Disk) : Conclusion :=
  match r.prepare (r.tools.scanner.map Disk.toolScanner) d with
  | (.error e, after) => ⟨after, .error (.planning e), "", LogEvent.ofLoading⟩
  | (.ok b, after) =>
    let finished := r.carryOut b after
    ⟨finished.world, .ok finished.report.outcome, finished.report.summary,
      LogEvent.ofLoading ++ r.planningEvents d b ++ BuildRequest.executionEvents b finished⟩

/-- **Carries out a command line.** -/
def run (c : CommandLine) (processors : Nat) (d : Disk) : Conclusion :=
  match c.buildRequest processors d with
  | .error e => ⟨d, .error e, "", []⟩
  | .ok r => if c.dryRun then list r d else build r d

end CommandLine

/-! ## As a process -/

/-- How the program ended. -/
structure ProgramEnd where
  disk : Disk
  exitCode : Nat
  stdout : String
  /-- What it said beside its output, line by line. -/
  stderr : List String

/-- The exit code of an outcome. -/
def RunOutcome.exitCode : RunOutcome → Nat
  | succeeded => 0
  | failed => 1
  | cancelled => 130

/-- The line with which an error is reported: the first one of its text. -/
def BuildError.line (e : BuildError) : String :=
  let text := "driverdag error: " ++ e.chain.headD ""
  String.ofList (text.toList.takeWhile (· ≠ '\n'))

/-- The line with which a command line is refused. -/
def CommandLine.Refusal.line (r : Refusal) : String := "error: " ++ r.kindName

/-- The name and version of the program. -/
def versionText : String := "driverdag 0.1.0\n"

/-- What the program says about its flags. -/
def helpText : String := textOfLines
  ["Plan and run an incremental, parallel compilation from a request file.",
    "",
    "Usage: driverdag [OPTIONS]",
    "",
    "Options:",
    "      --request <PATH>     Path to the request file (TOML) [default: Driverdag.toml]",
    "  -j, --jobs <N>           Maximum number of jobs running at once",
    "      --batch-size <N>     Compile jobs per batch; 0 or 1 disables batching",
    "      --fail-fast          Stop dispatching new jobs after the first failure",
    "      --mode <MODE>        Compilation mode, overriding `[build].mode` [possible values: per-file, whole-module]",
    "      --state <PATH>       Where to load and save the build state",
    "      --log-level <LEVEL>  Logging level (error, warn, info, debug, trace) [possible values: error, warn, info, debug, trace]",
    "      --dry-run            Plan the build and print the jobs that would run, without running them",
    "  -h, --help               Print help",
    "  -V, --version            Print version"]

/-- **Runs the program**, where `setting` says what is to be logged. -/
def runProgram (args : List String) (setting : Option String) (processors : Nat) (d : Disk) :
    ProgramEnd :=
  match CommandLine.parse args with
  | .error .helpWanted => ⟨d, 0, helpText, []⟩
  | .error .versionWanted => ⟨d, 0, versionText, []⟩
  | .error refusal => ⟨d, 2, "", [refusal.line]⟩
  | .ok c =>
    let done := c.run processors d
    let logged := (done.events.filter (c.logFilter setting).passes).map LogEvent.text
    match done.result with
    | .error e => ⟨done.disk, 2, done.stdout, logged ++ [e.line]⟩
    | .ok outcome => ⟨done.disk, outcome.exitCode, done.stdout, logged⟩

end IncrementalBuild
