import IncrementalBuild.BuildState
import IncrementalBuild.Diagnostic
import IncrementalBuild.DirtySet
import IncrementalBuild.Scheduler

/-!
# Reports

What is known about an execution when it has ended: how every job fared, and
the diagnostics, filed under the inputs and jobs they belong to.
-/

namespace IncrementalBuild

/-- The diagnostics of an execution by what they belong to. -/
abbrev DiagnosticFile := OrderedMap DiagnosticOrigin (List Diagnostic)

/-- Files a diagnostic behind those that are there. -/
def DiagnosticFile.add (f : DiagnosticFile) (d : DiagnosticOrigin × Diagnostic) :
    DiagnosticFile :=
  f.insert d.1 ((f.get? d.1).getD [] ++ [d.2])

/-- How a job fared. -/
structure JobReport where
  id : JobId
  key : JobKey
  status : JobStatus
  failure : Option FailureKind

/-- How a whole execution ended. -/
inductive RunOutcome where
  | succeeded
  | failed
  | cancelled
  deriving DecidableEq

def RunOutcome.name : RunOutcome → String
  | succeeded => "succeeded"
  | failed => "failed"
  | cancelled => "cancelled"

/-- **How an execution went.** -/
structure ExecutionReport where
  outcome : RunOutcome
  jobs : List JobReport
  diagnostics : DiagnosticFile
  /-- The inputs that were dirty at the end. -/
  dirty : DirtySet
  /-- What is left for the next build. -/
  state : Option BuildState

namespace ExecutionReport

def isSuccess (r : ExecutionReport) : Bool := r.outcome == .succeeded

/-- How the job with a key fared. -/
def statusOf? (r : ExecutionReport) (key : JobKey) : Option JobStatus :=
  (r.jobs.find? (·.key == key)).map (·.status)

/-- The keys of the jobs that ran to their end. -/
def executedKeys (r : ExecutionReport) : List JobKey :=
  (r.jobs.filter (fun j => j.status == .succeeded || j.status == .failed)).map (·.key)

def count (r : ExecutionReport) (status : JobStatus) : Nat :=
  r.jobs.countP (·.status == status)

/-- How many jobs were reported in each way: succeeded, skipped, failed,
blocked and cancelled. -/
def counts (r : ExecutionReport) : List Nat :=
  [.succeeded, .skipped, .failed, .blocked, .cancelled].map r.count

/-- The diagnostics filed under an input. -/
def diagnosticsFor (r : ExecutionReport) (p : Path) : List Diagnostic :=
  (r.diagnostics.get? (.input p)).getD []

end ExecutionReport

end IncrementalBuild
