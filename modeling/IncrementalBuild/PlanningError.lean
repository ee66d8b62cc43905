/-!
# Why a plan cannot be made

Each refusal of a request names what is at fault. The kinds are told apart by
what a caller can do about them, and every text is made here.
-/

namespace IncrementalBuild

/-- What is wrong with a request itself. -/
inductive RequestFault where
  | emptyModuleName
  | noInputs
  | noOutputs
  | noConcurrency
  | repeatedInput (path : String)
  | noModuleGraph
  | noScanner
  /-- A job that does not stand at the place of its number. -/
  | misplacedJob (key : String) (id position : Nat)
  deriving DecidableEq

/-- The text of a fault. -/
def RequestFault.message : RequestFault → String
  | emptyModuleName => "module name must not be empty"
  | noInputs => "request has no inputs"
  | noOutputs => "request asks for no outputs"
  | noConcurrency => "concurrency must be >= 1 (got 0)"
  | repeatedInput path => s!"input {path} is listed twice"
  | noModuleGraph =>
    "explicit modules requested but no module dependency graph is available"
  | noScanner => "explicit modules requested but no dependency scanner is configured"
  | misplacedJob key id position =>
    s!"job '{key}' has id #{id} but sits at position {position}"

/-- Why no rule makes a requested product. -/
inductive OutputFault where
  /-- More than one product of a linker is asked for. -/
  | severalLinked (outputs : List String)
  | linkerMissing (output : String)
  deriving DecidableEq

/-- The text of a fault. -/
def OutputFault.message : OutputFault → String
  | severalLinked outputs =>
    "a request can produce one linked product, got " ++ ", ".intercalate outputs
  | linkerMissing output => s!"{output} requested but no linker is configured"

/-- Why asking the scanner for a module graph failed. -/
inductive ScanFailure where
  | spawn (tool message : String)
  | exit (tool : String) (code : Int) (stderr : String)
  | unreadable
  deriving DecidableEq

/-- The text of a failed scan. What is wrong with the scanner's output itself
is not part of it. -/
def ScanFailure.message : ScanFailure → String
  | spawn tool message => s!"spawning '{tool}': {message}"
  | exit tool code stderr => s!"'{tool}' exited with {code}: {stderr}"
  | unreadable => "parsing scanner output: <json>"

/-- **Why a plan cannot be made.** -/
inductive PlanningError where
  | malformedRequest (fault : RequestFault)
  | missingOutputRule (fault : OutputFault)
  | selfDependency (key : String)
  | unknownPrerequisite (key : String) (prerequisite : Nat)
  | duplicateJob (key : String)
  | jobCycle (key : String)
  | moduleCycle (name : String)
  | unknownModule (user missing : String)
  | dependencyCycle (key : String)
  | scanFailed (failure : ScanFailure)
  deriving DecidableEq

namespace PlanningError

/-- The name of a kind of error. -/
def kindName : PlanningError → String
  | malformedRequest _ => "MalformedRequest"
  | missingOutputRule _ => "MissingOutputRule"
  | selfDependency _ => "SelfDependency"
  | unknownPrerequisite _ _ => "UnknownPrerequisite"
  | duplicateJob _ => "DuplicateJob"
  | jobCycle _ => "JobCycle"
  | moduleCycle _ => "ModuleCycle"
  | unknownModule _ _ => "UnknownModule"
  | dependencyCycle _ => "DependencyCycle"
  | scanFailed _ => "ScanFailed"

/-- The text of an error. -/
def message : PlanningError → String
  | malformedRequest fault => "malformed request: " ++ fault.message
  | missingOutputRule fault => "no rule can produce the requested output: " ++ fault.message
  | selfDependency key => s!"job '{key}' cannot depend on itself"
  | unknownPrerequisite key n => s!"job '{key}' depends on job #{n}, which has not been added"
  | duplicateJob key => s!"job '{key}' was added twice"
  | jobCycle key => s!"cycle detected in job graph involving job '{key}'"
  | moduleCycle name => s!"cycle detected in module dependency graph involving module '{name}'"
  | unknownModule user missing => s!"module '{user}' depends on unknown module '{missing}'"
  | dependencyCycle key =>
    s!"cycle detected in declaration interface edges involving '{key}'"
  | scanFailed failure => "module dependency scan failed: " ++ failure.message

end PlanningError

end IncrementalBuild
