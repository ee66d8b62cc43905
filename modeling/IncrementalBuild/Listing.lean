import IncrementalBuild.Build

/-!
# What a build prints

A build that is only planned lists its jobs in the order in which they could
run, with what is to become of each. A build that was carried out prints its
diagnostics, the jobs that failed, and a line that sums up.
-/

namespace IncrementalBuild

/-- Lines of text, each with its end. -/
def textOfLines (lines : List String) : String := String.join (lines.map (· ++ "\n"))

/-- Texts between quotation marks in a bracketed list. -/
def quotedList (texts : List String) : String :=
  "[" ++ ", ".intercalate (texts.map Text.quoted) ++ "]"

/-- What is to become of a job, as it is listed. -/
def Disposition.listing : Disposition → String
  | .clean => "skip"
  | .scheduled reason => s!"run ({reason.name})"

namespace PlannedBuild

/-- The keys of the jobs that have to run before a job. -/
def keysBefore (b : PlannedBuild) (job : Job) : List String :=
  (job.prerequisites.toList.filterMap b.plan.graph.job?).map (·.key.text)

/-- The lines on a job. -/
def jobLines (b : PlannedBuild) (job : Job) : List String :=
  [s!"  - [{job.kind.name}] {job.key.text} {(b.plan.disposition job.id).listing}",
    s!"      cmd: {job.command.text}"]
  ++ (if job.prerequisites.isEmpty then []
    else [s!"      after: {quotedList (b.keysBefore job)}"])

/-- **The list of a planned build.** -/
def listing (b : PlannedBuild) : String :=
  let graph := b.plan.graph
  textOfLines (
    ["driverdag dry-run",
      s!"  jobs = {graph.size}, scheduled = {b.plan.scheduledCount}, dirty inputs = {b.dirty.size}"]
    ++ b.dirty.entries.map (fun (p, reason) => s!"  dirty: {p.text} ({reason.name})")
    ++ b.removed.map (fun p => s!"  removed: {p.text}")
    ++ [""]
    ++ (graph.topologicalOrder.filterMap graph.job?).flatMap b.jobLines)

end PlannedBuild

namespace ExecutionReport

/-- The line that sums up. -/
def summaryLine (r : ExecutionReport) : String :=
  s!"build {r.outcome.name}: {r.count .succeeded} succeeded, {r.count .skipped} skipped, "
  ++ s!"{r.count .failed} failed, {r.count .blocked} blocked, {r.count .cancelled} cancelled"

/-- The line on a job, if it failed. -/
def failureLine? (j : JobReport) : Option String :=
  j.failure.map fun f => s!"failed: {j.key.text} ({f.message})"

/-- **The account of a build that was carried out.** -/
def summary (r : ExecutionReport) : String :=
  textOfLines (
    r.diagnostics.entries.flatMap (fun (origin, ds) =>
      ds.map fun d => s!"{origin.text}: {d.text}")
    ++ r.jobs.filterMap failureLine?
    ++ [r.summaryLine])

end ExecutionReport

end IncrementalBuild
