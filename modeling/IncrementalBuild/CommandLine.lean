import IncrementalBuild.RequestFile.Resolve
import IncrementalBuild.Text.Numeral

/-!
# The command line

A build is started with flags, each of which may stand once. A flag that takes
a value finds it after an equals sign or in the next argument, and a short
flag also directly behind its letter; the next argument is no value if it
looks like a flag. Flags of one letter that take no value may share a hyphen.

The value of a flag is looked at when the next flag is met or the command line
ends, and an argument without a meaning is refused before that.
-/

namespace IncrementalBuild

/-- How much a build says about what it does. -/
inductive LogLevel where
  | error
  | warn
  | info
  | debug
  | trace
  deriving DecidableEq, Inhabited

namespace LogLevel

def all : List LogLevel := [error, warn, info, debug, trace]

def name : LogLevel → String
  | error => "error"
  | warn => "warn"
  | info => "info"
  | debug => "debug"
  | trace => "trace"

/-- The level with exactly the given name. -/
def ofName? (name : String) : Option LogLevel := all.find? (·.name == name)

/-- The place of a level, the quietest first. -/
def rank : LogLevel → Nat
  | error => 0
  | warn => 1
  | info => 2
  | debug => 3
  | trace => 4

end LogLevel

/-- The request file that is read where none is named. -/
def defaultRequest : String := "Driverdag.toml"

/-- **What a command line asks for.** -/
structure CommandLine where
  request : String
  jobs : Option Nat
  batchSize : Option Nat
  failFast : Bool
  mode : Option CompilationMode
  state : Option String
  logLevel : Option LogLevel
  /-- Whether the build is only planned. -/
  dryRun : Bool

namespace CommandLine

/-- The command line without arguments. -/
def empty : CommandLine := ⟨defaultRequest, none, none, false, none, none, none, false⟩

/-- What is chosen instead of what the request file says. -/
def overrides (c : CommandLine) : Overrides :=
  ⟨c.jobs, c.batchSize, c.failFast, c.mode, c.state.map Path.mk⟩

/-! ## Flags -/

/-- A flag. -/
inductive Flag where
  | request
  | jobs
  | batchSize
  | failFast
  | mode
  | state
  | logLevel
  | dryRun
  | help
  | version
  deriving DecidableEq

namespace Flag

def all : List Flag :=
  [request, jobs, batchSize, failFast, mode, state, logLevel, dryRun, help, version]

/-- The name behind two hyphens. -/
def longName : Flag → String
  | request => "request"
  | jobs => "jobs"
  | batchSize => "batch-size"
  | failFast => "fail-fast"
  | mode => "mode"
  | state => "state"
  | logLevel => "log-level"
  | dryRun => "dry-run"
  | help => "help"
  | version => "version"

/-- The letter behind one hyphen. -/
def letter? : Flag → Option Char
  | jobs => some 'j'
  | help => some 'h'
  | version => some 'V'
  | _ => none

/-- Whether the flag takes a value. -/
def takesValue : Flag → Bool
  | failFast | dryRun | help | version => false
  | _ => true

def ofLongName? (name : String) : Option Flag := all.find? (·.longName == name)

def ofLetter? (c : Char) : Option Flag := all.find? (·.letter? == some c)

end Flag

/-- Why a command line starts no build. -/
inductive Refusal where
  | helpWanted
  | versionWanted
  | unknownArgument (arg : String)
  | missingValue (flag : Flag)
  | unknownChoice (flag : Flag) (value : String)
  | badNumber (flag : Flag) (value : String)
  | unwantedValue (flag : Flag) (value : String)
  | repeated (flag : Flag)
  deriving DecidableEq

/-- The name of a kind of refusal. -/
def Refusal.kindName : Refusal → String
  | helpWanted => "DisplayHelp"
  | versionWanted => "DisplayVersion"
  | unknownArgument _ => "UnknownArgument"
  | missingValue _ => "InvalidValue"
  | unknownChoice _ _ => "InvalidValue"
  | badNumber _ _ => "ValueValidation"
  | unwantedValue _ _ => "TooManyValues"
  | repeated _ => "ArgumentConflict"

/-! ## Reading -/

/-- A command line that is being read. -/
structure Reading where
  line : CommandLine
  /-- The flags that were taken in. -/
  given : List Flag
  /-- The flag that was met last, with its value once that is there. -/
  pending : Option (Flag × Option String)

namespace Reading

/-- A number with at most a plus sign before its digits. -/
def number? (value : String) : Option Nat :=
  let digits := match value.toList with
    | '+' :: rest => rest
    | cs => cs
  if digits.isEmpty then none else Text.number? 10 digits

/-- A number between two bounds, the first of which is possible. -/
def numberFor (flag : Flag) (least bound : Nat) (value : String) : Except Refusal Nat :=
  match number? value with
  | some n => if least ≤ n && n < bound then .ok n else .error (.badNumber flag value)
  | none => .error (.badNumber flag value)

/-- What a value names. -/
def choiceFor {α : Type} (flag : Flag) (ofName? : String → Option α) (value : String) :
    Except Refusal α :=
  match ofName? value with
  | some a => .ok a
  | none => .error (.unknownChoice flag value)

/-- A command line with one more flag, and its value if it takes one. -/
def withFlag (line : CommandLine) (flag : Flag) (value : String) :
    Except Refusal CommandLine := do
  match flag with
  | .request => return { line with request := value }
  | .jobs => return { line with jobs := some (← numberFor flag 1 UInt32.size value) }
  | .batchSize => return { line with batchSize := some (← numberFor flag 0 countBound value) }
  | .failFast => return { line with failFast := true }
  | .mode => return { line with mode := some (← choiceFor flag CompilationMode.ofName? value) }
  | .state => return { line with state := some value }
  | .logLevel => return { line with logLevel := some (← choiceFor flag LogLevel.ofName? value) }
  | .dryRun => return { line with dryRun := true }
  | .help => throw .helpWanted
  | .version => throw .versionWanted

/-- Takes a flag in, which must be the first of its kind. -/
def take (r : Reading) (flag : Flag) (value : String) : Except Refusal Reading :=
  if r.given.contains flag then .error (.repeated flag)
  else do return ⟨← withFlag r.line flag value, flag :: r.given, r.pending⟩

/-- Takes the flag in that was met last. -/
def settle (r : Reading) : Except Refusal Reading :=
  match r.pending with
  | none => .ok r
  | some (flag, none) => .error (.missingValue flag)
  | some (flag, some value) => take { r with pending := none } flag value

/-- Meets a flag, with a value if one is attached to it. -/
def meet (r : Reading) (flag : Flag) (value : Option String) : Except Refusal Reading := do
  if flag.takesValue then
    match value with
    | some value => (← r.settle).take flag value
    | none => return { (← r.settle) with pending := some (flag, none) }
  else
    match value with
    | some value => throw (.unwantedValue flag value)
    | none => (← r.settle).take flag ""

/-- Meets the letters behind one hyphen. -/
def meetLetters (r : Reading) : List Char → Except Refusal Reading
  | [] => .ok r
  | c :: rest =>
    match Flag.ofLetter? c with
    | none => .error (.unknownArgument (String.ofList ['-', c]))
    | some flag =>
      if flag.takesValue then
        match rest with
        | [] => r.meet flag none
        | '=' :: value => r.meet flag (some (String.ofList value))
        | value => r.meet flag (some (String.ofList value))
      else do meetLetters (← r.meet flag none) rest

/-- Meets what stands behind two hyphens. -/
def meetLong (r : Reading) (cs : List Char) : Except Refusal Reading :=
  let name := cs.takeWhile (· ≠ '=')
  match Flag.ofLongName? (String.ofList name) with
  | none => .error (.unknownArgument (String.ofList ('-' :: '-' :: cs)))
  | some flag =>
    match cs.drop name.length with
    | [] => r.meet flag none
    | _ :: value => r.meet flag (some (String.ofList value))

/-- Meets an argument that is no flag, and has to be the value of one. -/
def meetValue (r : Reading) (arg : String) : Except Refusal Reading :=
  match r.pending with
  | some (flag, none) => .ok { r with pending := some (flag, some arg) }
  | _ => .error (.unknownArgument arg)

/-- Reads arguments to their end. After two hyphens alone, nothing may
follow. -/
def readOn (r : Reading) : List String → Except Refusal CommandLine
  | [] => r.settle.map (·.line)
  | arg :: rest => do
    match arg.toList with
    | ['-', '-'] =>
      match rest with
      | [] => r.settle.map (·.line)
      | next :: _ => throw (.unknownArgument next)
    | '-' :: '-' :: cs => readOn (← r.meetLong cs) rest
    | '-' :: c :: cs => readOn (← r.meetLetters (c :: cs)) rest
    | _ => readOn (← r.meetValue arg) rest

end Reading

/-- **What arguments ask for.** -/
def parse (args : List String) : Except Refusal CommandLine :=
  (⟨empty, [], none⟩ : Reading).readOn args

end CommandLine

end IncrementalBuild
