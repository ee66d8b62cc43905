import IncrementalBuild.Build
import IncrementalBuild.Logging

/-!
# What a build logs

The events of a build, stage by stage: loading the request, planning, and
carrying the plan out. Of the events of one source in one stage only the most
severe is kept, since a filter that lets it through is what shows whether the
source was heard at all.
-/

namespace IncrementalBuild

namespace LogEvent

/-- An event, if a condition holds. -/
def given (condition : Bool) (level : LogLevel) (source : String) : List LogEvent :=
  if condition then [⟨level, source⟩] else []

/-- What is logged when a request has been loaded. -/
def ofLoading : List LogEvent :=
  [⟨.debug, "driverdag::config::inputs"⟩, ⟨.debug, "driverdag::fingerprint"⟩,
    ⟨.debug, "driverdag::config::loader"⟩, ⟨.info, "driverdag"⟩]

end LogEvent

namespace BuildRequest

variable {ω : Type} [FileSystem ω]

/-- What is logged about the state that the last build left. -/
def stateEvents (r : BuildRequest) (before : ω) : List LogEvent :=
  match StateLoad.ofFile before r.statePath with
  | .missing => [⟨.debug, "driverdag::deps::state"⟩, ⟨.info, "driverdag::deps::engine"⟩]
  | .corrupt _ => [⟨.warn, "driverdag::deps::engine"⟩]
  | .loaded state =>
    [⟨.debug, "driverdag::deps::state"⟩, ⟨.info, "driverdag::deps::engine"⟩]
    ++ LogEvent.given (!state.graph.files.isEmpty) .debug "driverdag::deps::graph"
    ++ LogEvent.given (state.options ≠ some r.optionsFingerprint) .info "driverdag::driver"

/-- The commands that the last build ran, if its state counts. -/
def priorCommands (r : BuildRequest) (before : ω) : OrderedMap JobKey Fingerprint :=
  match r.priorState before with
  | .loaded state => state.commands
  | _ => ∅

/-- What is logged while a build is planned, in the world as it was before. -/
def planningEvents (r : BuildRequest) (before : ω) (b : PlannedBuild) : List LogEvent :=
  let changed := changedCommands b.state.commands (r.priorCommands before)
  let batched := b.plan.graph.jobs.any fun job => 1 < job.primaries.length
  r.stateEvents before
  ++ LogEvent.given r.explicitModules .info "driverdag::plan::modules"
  ++ [⟨.info, "driverdag::plan::builder"⟩, ⟨.info, "driverdag::plan::prune"⟩]
  ++ LogEvent.given (!changed.isEmpty || !b.removed.isEmpty) .info "driverdag::driver"
  ++ LogEvent.given (1 < r.batchSize.getD 0) (if batched then .info else .debug)
    "driverdag::plan::batch"

/-- Whether the compiler left no record of an input, or one of another
input. -/
def lacksRecord (after : ω) (u : CompileUnit) : Bool :=
  match Tracker.recordOf? after u with
  | none => true
  | some record => record.source != u.primary

/-- The units that were compiled to the end, file by file. -/
def compiledUnits (b : PlannedBuild) (report : ExecutionReport) : List CompileUnit :=
  report.jobs.flatMap fun j =>
    match j.status, (b.plan.graph.job? j.id).map (·.kind) with
    | .succeeded, some (.compile units false) => units
    | _, _ => []

/-- What is logged while a build is carried out. -/
def executionEvents (b : PlannedBuild) (finished : Finished ω) : List LogEvent :=
  let jobs := finished.report.jobs
  let units := compiledUnits b finished.report
  let ran := jobs.any fun j => j.status == .succeeded || j.status == .failed
  let failed := jobs.any (·.status == .failed)
  let unstarted := jobs.any fun j =>
    match j.failure with
    | some (.spawn _) => true
    | _ => false
  let revived := jobs.any fun j => !(b.plan.disposition j.id).isScheduled && j.status != .skipped
  let waited := jobs.any fun j =>
    j.status == .blocked || (j.status != .skipped && ((b.plan.graph.job? j.id).any fun job =>
      job.prerequisites.toList.any fun p => jobs.any fun k => k.id == p && k.status != .skipped))
  let lacking := units.any (lacksRecord finished.world)
  let integrated := units.any fun u => !lacksRecord finished.world u
  [⟨.info, "driverdag::engine::runtime"⟩]
  ++ [⟨if failed then .warn else if ran then .info else .debug, "driverdag::dag::scheduler"⟩]
  ++ LogEvent.given (revived || waited) (if revived then .info else .debug)
    "driverdag::dag::state_manager"
  ++ LogEvent.given ran .debug "driverdag::engine::event_handlers"
  ++ LogEvent.given ran (if unstarted then .error else .info) "driverdag::exec::job_runner"
  ++ LogEvent.given ran .debug "driverdag::exec::backend"
  ++ LogEvent.given integrated .debug "driverdag::deps::graph"
  ++ LogEvent.given lacking .warn "driverdag::driver::tracker"
  ++ LogEvent.given revived .info "driverdag::driver::tracker"
  ++ match finished.saveFailure with
    | none => [⟨.info, "driverdag::deps::state"⟩]
    | some _ => [⟨.warn, "driverdag::driver"⟩]

end BuildRequest

end IncrementalBuild
