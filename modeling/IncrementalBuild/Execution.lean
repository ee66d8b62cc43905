import IncrementalBuild.Core
import IncrementalBuild.Process
import IncrementalBuild.Report

/-!
# Executions

An execution carries a plan out in a world. Jobs that the core hands out are
started in that order and run one after the other, each to its end; what
happens meanwhile is told to the core in the order in which it happened. All
jobs that are started run before the core is told anything more.

Which job runs next, and when the core is told, is the only freedom an
execution has: `runFirst` and `handleFirst` are the two things that it does,
and `advance` is one order of doing them.
-/

namespace IncrementalBuild

/-- An observer that may look at the world. -/
abbrev WorldObserver (ω σ : Type) := ω → Observer σ

/-- **An execution under way.** -/
structure Execution (ω σ : Type) where
  core : Core
  /-- The state of the observer. -/
  observed : σ
  world : ω
  /-- The jobs that are started and have not run, the next one first. -/
  started : List JobId
  /-- What happened and was not told to the core, the earliest first. -/
  events : List RuntimeEvent
  diagnostics : DiagnosticFile
  failures : OrderedMap JobId FailureKind
  /-- Whether the core was told to cancel. -/
  cancelRequested : Bool
  /-- Whether there is anything more to wait for. -/
  keepRunning : Bool

namespace Execution

variable {ω σ : Type}

/-- Starts the jobs of a step. -/
def follow (e : Execution ω σ) (step : CoreStep) : Execution ω σ :=
  { e with started := e.started ++ step.dispatched, keepRunning := step.keepRunning }

/-- The beginning of an execution. -/
def start (plan : BuildPlan) (policy : FailurePolicy) (concurrency : Nat) (world : ω)
    (observed : σ) : Execution ω σ :=
  let (core, step) := (Core.ofPlan plan policy concurrency).dispatch
  follow
    { core, observed, world
      started := []
      events := []
      diagnostics := ∅
      failures := ∅
      cancelRequested := false
      keepRunning := true }
    step

/-- How a job ended, and the diagnostics that come of it. -/
def outcomeOf (job : Job) (result : Except SpawnError ProcessOutput) :
    JobOutcome × List (DiagnosticOrigin × Diagnostic) :=
  match result with
  | .ok output =>
    let failed := output.exitCode ≠ 0
    let fallback := s!"{job.command.tool} exited with code {output.exitCode}"
    (if failed then .failed (.exit output.exitCode) else .succeeded,
      job.diagnostics output.stdout output.stderr failed fallback)
  | .error e => (.failed (.spawn e.message), job.diagnostics "" "" true e.text)

/-- Notes how running a job went. -/
def settle (e : Execution ω σ) (job : Job) (run : ProcessRun ω) : Execution ω σ :=
  let (outcome, diagnostics) := outcomeOf job run.result
  { e with
    world := run.world
    events := e.events
      ++ (if run.cancelRequested then [.cancelRequested] else [])
      ++ [.jobFinished job.id outcome]
    diagnostics := diagnostics.foldl DiagnosticFile.add e.diagnostics
    failures := match outcome with
      | .failed kind => e.failures.insert job.id kind
      | .succeeded => e.failures }

/-- Runs a job. -/
def runJob [ProcessWorld ω] (e : Execution ω σ) (job : Job) : Execution ω σ :=
  e.settle job (ProcessWorld.run e.world job.command)

/-- Runs the job that was started first. -/
def runFirst [ProcessWorld ω] (e : Execution ω σ) (id : JobId) (rest : List JobId) :
    Execution ω σ :=
  let e := { e with started := rest }
  match e.core.scheduler.plan.graph.job? id with
  | some job => e.runJob job
  | none => e

/-- Tells the core what happened first. -/
def handleFirst (observe : WorldObserver ω σ) (e : Execution ω σ) (event : RuntimeEvent)
    (rest : List RuntimeEvent) : Execution ω σ :=
  let (core, observed, step) := e.core.handle (observe e.world) e.observed event
  follow
    { e with
      core, observed
      events := rest
      cancelRequested := e.cancelRequested || event == .cancelRequested }
    step

/-- Goes on for at most so many steps. -/
def advance [ProcessWorld ω] (observe : WorldObserver ω σ) :
    Nat → Execution ω σ → Execution ω σ
  | 0, e => e
  | n + 1, e =>
    if e.keepRunning then
      match e.started, e.events with
      | id :: rest, _ => advance observe n (e.runFirst id rest)
      | [], event :: rest => advance observe n (e.handleFirst observe event rest)
      | [], [] => e
    else e

/-- The report of an execution that has ended. -/
def report (e : Execution ω σ) : ExecutionReport :=
  let scheduler := e.core.finish
  let jobs := scheduler.plan.graph.jobs.map fun job =>
    ({ id := job.id
       key := job.key
       status := (scheduler.statusOf? job.id).getD .cancelled
       failure := e.failures.get? job.id } : JobReport)
  { outcome :=
      if e.cancelRequested then .cancelled
      else if jobs.all (·.status.isSuccess) then .succeeded
      else .failed
    jobs
    diagnostics := e.diagnostics
    dirty := ∅
    state := none }

end Execution

/-- **Carries a plan out**, and gives the end of the execution. No job is
started twice, and each gives rise to at most two events. -/
def BuildPlan.execute {ω σ : Type} [ProcessWorld ω] (plan : BuildPlan)
    (policy : FailurePolicy) (concurrency : Nat) (observe : WorldObserver ω σ) (world : ω)
    (observed : σ) : Execution ω σ :=
  Execution.advance observe (3 * plan.graph.size + 1)
    (Execution.start plan policy concurrency world observed)

end IncrementalBuild
