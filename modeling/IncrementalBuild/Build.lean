import IncrementalBuild.Plan.Batch
import IncrementalBuild.Plan.Jobs
import IncrementalBuild.Plan.Prune
import IncrementalBuild.Tracker

/-!
# Builds

A build compares its request with the state that the last one left, plans what
is to be done, carries it out while following what the compilers report, and
leaves a state for the next build.
-/

namespace IncrementalBuild

/-- Asks which modules some inputs import. Asking may change the world, since
it can run a tool. -/
abbrev Scanner (ω : Type) := ω → List Path → Except PlanningError ModuleGraph × ω

/-- The scanner that knows the answer. -/
def Scanner.known {ω : Type} (g : ModuleGraph) : Scanner ω := fun world _ => (.ok g, world)

/-- A build that is ready to be carried out. -/
structure PlannedBuild where
  plan : BuildPlan
  dirty : DirtySet
  state : BuildState
  removed : List Path

namespace BuildRequest

variable {ω : Type} [FileSystem ω]

/-- The state that the last build left, if it was made with the same
choices. -/
def priorState (r : BuildRequest) (world : ω) : StateLoad :=
  match StateLoad.ofFile world r.statePath with
  | .loaded state =>
    if state.options = some r.optionsFingerprint then .loaded state else .missing
  | other => other

/-- The module graph that a build is planned with. -/
def scanModules (r : BuildRequest) (scan : Option (Scanner ω)) (world : ω) :
    Except PlanningError (Option ModuleGraph) × ω :=
  if r.explicitModules then
    match scan with
    | none => (.error (.malformedRequest .noScanner), world)
    | some scan =>
      let (answer, world) := scan world r.sourcePaths
      (answer.map some, world)
  else (.ok none, world)

omit [FileSystem ω] in
/-- Nobody is asked about modules that are not built explicitly. -/
theorem scanModules_of_plain {r : BuildRequest} {scan : Option (Scanner ω)} {world : ω}
    (h : r.explicitModules = false) : r.scanModules scan world = (.ok none, world) := by
  unfold scanModules
  rw [h]
  rfl

omit [FileSystem ω] in
/-- For modules that are built explicitly every answer is a module graph. -/
theorem exists_eq_some_of_scanModules {r : BuildRequest} {scan : Option (Scanner ω)} {world : ω}
    {modules : Option ModuleGraph} (he : r.explicitModules = true)
    (h : (r.scanModules scan world).1 = .ok modules) : ∃ found, modules = some found := by
  unfold scanModules at h
  rw [if_pos he] at h
  cases scan with
  | none => cases h
  | some scan =>
    dsimp only at h
    cases hanswer : (scan world r.sourcePaths).1 with
    | error e =>
      rw [hanswer] at h
      cases h
    | ok found =>
      rw [hanswer] at h
      exact ⟨found, (Except.ok.inj h).symm⟩

/-- The fingerprints of the commands of a graph. A compile command counts as
the same when only other inputs have come or gone. -/
def commandFingerprints (r : BuildRequest) (g : JobGraph) : OrderedMap JobKey Fingerprint :=
  let sources := r.sourcePaths.map (·.text)
  OrderedMap.ofList (g.jobs.map fun job =>
    (job.key, job.command.fingerprint (fun arg => job.isCompile && sources.contains arg)))

/-- The jobs whose command is not what it was. -/
def changedCommands (current prior : OrderedMap JobKey Fingerprint) : OrderedSet JobKey :=
  (current.filter fun key f =>
    match prior.get? key with
    | some old => old ≠ f
    | none => false).mapValues (fun _ _ => ())

/-- Whether a job works on all inputs together. -/
def isAggregate (job : Job) : Bool :=
  match job.kind with
  | .compile _ wholeModule => wholeModule
  | .mergeModule _ => true
  | .generateInterface _ => true
  | .link _ => true
  | .precompileHeader _ => false
  | .buildModule _ => false

/-- The jobs that count as unfinished: those that were left so, and if files
left the build, all jobs that work on the inputs together. -/
def staleKeys (g : JobGraph) (state : BuildState) (removed : List Path) : OrderedSet JobKey :=
  if removed.isEmpty then state.staleJobs
  else (g.jobs.filter isAggregate).foldl (fun s job => OrderedSet.add s job.key) state.staleJobs

/-- Plans a build from what it starts with and the modules it imports. -/
def planFrom (r : BuildRequest) (world : ω) (start : DirtyInputs)
    (modules : Option ModuleGraph) : Except PlanningError PlannedBuild := do
  let graph ← r.plan modules
  let commands := r.commandFingerprints graph
  let changes : Changes :=
    { dirty := start.dirty
      stale := staleKeys graph start.state start.removed
      commands := changedCommands commands start.state.commands }
  let plan ← (graph.prune changes world).partition r.batchSize
  return {
    plan
    dirty := start.dirty
    state := { start.state with options := some r.optionsFingerprint, commands }
    removed := start.removed }

/-- **Plans a build**, in the world as it is. -/
def prepare (r : BuildRequest) (scan : Option (Scanner ω)) (world : ω) :
    Except PlanningError PlannedBuild × ω :=
  match DirtyInputs.compute (r.priorState world) r.trackedInputs with
  | .error e => (.error e, world)
  | .ok start =>
    match r.scanModules scan world with
    | (.error e, world) => (.error e, world)
    | (.ok modules, world) => (r.planFrom world start modules, world)

/-- The tracker of a build that is about to be carried out. -/
def tracker (r : BuildRequest) (b : PlannedBuild) : Tracker :=
  { plan := b.plan
    state := b.state
    dirty := b.dirty
    fingerprints :=
      OrderedMap.ofLastEntries (r.trackedInputs.map fun i => (i.path, i.fingerprint)) }

/-- A build that was carried out. -/
structure Finished (ω : Type) where
  report : ExecutionReport
  world : ω
  /-- Why the state could not be saved, if that failed. -/
  saveFailure : Option FileError

/-- Ends a build with its execution, and saves the state that it leaves. A state
that cannot be saved does not make the build fail. -/
def conclude (r : BuildRequest) (ended : Execution ω Tracker) : Finished ω :=
  let report := ended.report
  let state := ended.observed.finish report.jobs
  let report := { report with dirty := ended.observed.dirty, state := some state }
  let (saved, world) := state.save ended.world r.statePath
  { report, world
    saveFailure := match saved with
      | .ok () => none
      | .error e => some e }

/-- The execution of a planned build before anything has run. -/
def begin (r : BuildRequest) (b : PlannedBuild) (world : ω) : Execution ω Tracker :=
  Execution.start b.plan r.policy r.concurrency world (r.tracker b)

/-- Carries a planned build out. -/
def carryOut [ProcessWorld ω] (r : BuildRequest) (b : PlannedBuild) (world : ω) :
    Finished ω :=
  r.conclude (b.plan.execute r.policy r.concurrency Tracker.observer world (r.tracker b))

/-- **Builds** what a request asks for. -/
def run [ProcessWorld ω] (r : BuildRequest) (scan : Option (Scanner ω)) (world : ω) :
    Except PlanningError ExecutionReport × ω :=
  match r.prepare scan world with
  | (.error e, world) => (.error e, world)
  | (.ok b, world) =>
    let finished := r.carryOut b world
    (.ok finished.report, finished.world)

end BuildRequest

end IncrementalBuild
