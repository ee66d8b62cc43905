import IncrementalBuild.Scheduler

/-!
# The core of an execution

The core turns what happens during an execution into the jobs that are to be
started next. It does nothing itself: jobs are run elsewhere, and it is told
when one has finished or when the execution is to be cancelled. An observer
may answer a success with clean jobs that have to be done after all.

Whoever tells the core of a success has to name a job of the plan. The
scheduler ignores the end of any other, but the observer is asked about a job
and not about a number, so the core breaks off instead of answering.
-/

namespace IncrementalBuild

/-- What can happen during an execution. -/
inductive RuntimeEvent where
  | jobFinished (id : JobId) (outcome : JobOutcome)
  | cancelRequested
  deriving DecidableEq

/-- Who is told about successes: from its own state and the job that
succeeded, an observer gives the clean jobs that are to be revived. -/
abbrev Observer (σ : Type) := σ → Job → σ × List JobId

/-- What is to be done after an event. -/
structure CoreStep where
  /-- The jobs that are to be started. -/
  dispatched : List JobId
  /-- Whether there is anything more to wait for. -/
  keepRunning : Bool
  /-- Whether the core broke off instead of answering. -/
  crashed : Bool
  deriving DecidableEq

/-- What a core leaves that breaks off: nothing is started, and nothing is waited for. -/
def CoreStep.crash : CoreStep := ⟨[], false, true⟩

/-- **The state of an execution.** -/
structure Core where
  scheduler : Scheduler
  /-- How many jobs may run at once. -/
  concurrency : Nat

namespace Core

/-- The state before the first job. At least one job may run at once. -/
def ofPlan (plan : BuildPlan) (policy : FailurePolicy) (concurrency : Nat) : Core :=
  ⟨Scheduler.start plan policy, max concurrency 1⟩

/-- Starts the jobs that there is room for. -/
def dispatch (c : Core) : Core × CoreStep :=
  let (s, ids) := c.scheduler.dispatch c.concurrency
  ({ c with scheduler := s }, ⟨ids, !s.isFinished, false⟩)

/-- **What an event leads to.** After a success the observer is asked about the job. Where the
plan has no such job the core breaks off and is left as it was, since the scheduler ignores the
end of a job that does not run. -/
def handle {σ : Type} (observe : Observer σ) (c : Core) (observed : σ) :
    RuntimeEvent → Core × σ × CoreStep
  | .cancelRequested =>
    let s := c.scheduler.cancel
    ({ c with scheduler := s }, observed, ⟨[], !s.isFinished, false⟩)
  | .jobFinished id outcome =>
    let (s, _) := c.scheduler.complete id outcome
    match outcome, c.scheduler.plan.graph.job? id with
    | .succeeded, some job =>
      let (observed, roots) := observe observed job
      let s := if roots.isEmpty then s else (s.revive roots).1
      let (c, step) := dispatch { c with scheduler := s }
      (c, observed, step)
    | .succeeded, none => (c, observed, .crash)
    | .failed _, _ =>
      let (c, step) := dispatch { c with scheduler := s }
      (c, observed, step)

/-- The scheduler after the last event. -/
def finish (c : Core) : Scheduler := c.scheduler.finalize.1

end Core

end IncrementalBuild
