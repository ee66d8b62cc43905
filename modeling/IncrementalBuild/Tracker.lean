import IncrementalBuild.BuildState.Dirty
import IncrementalBuild.Execution

/-!
# Following a build

The tracker observes an execution and keeps the state that the build will
leave. When an input has been compiled, it takes over what the compiler
reported; if that changes an interface, the inputs built on it are dirty from
then on, and their compile jobs are revived. When the execution has ended, the
tracker notes which jobs were left unfinished.
-/

namespace IncrementalBuild

/-- **What is known while a build is under way.** -/
structure Tracker where
  plan : BuildPlan
  state : BuildState
  dirty : DirtySet
  /-- The contents of the tracked inputs. -/
  fingerprints : OrderedMap Path Fingerprint

namespace Tracker

/-- The last job that compiles an input. -/
def compileOf? (t : Tracker) (p : Path) : Option JobId :=
  (t.plan.graph.jobs.reverse.find? (fun job => job.primaries.contains p)).map (·.id)

/-- The dependency record of a unit, if there is one to read. -/
def recordOf? {ω : Type} [FileSystem ω] (world : ω) (u : CompileUnit) :
    Option DependencyRecord :=
  u.record.bind fun a => (DependencyRecord.ofFile world a.path).toOption

/-- Takes over what compiling one input reported, and collects the files that
this reaches. An input that is not tracked is passed over. -/
def integrateUnit {ω : Type} [FileSystem ω] (world : ω)
    (acc : Tracker × OrderedSet Path) (u : CompileUnit) : Tracker × OrderedSet Path :=
  let (t, reached) := acc
  match t.fingerprints.get? u.primary with
  | none => (t, reached)
  | some f =>
    let (state, invalidation) := t.state.integrate u.primary f (recordOf? world u)
    ({ t with state }, OrderedSet.union reached invalidation.files)

/-- Makes an input dirty whose compile job was left out of the plan, and gives
that job. -/
def invalidate (acc : Tracker × OrderedSet JobId) (p : Path) : Tracker × OrderedSet JobId :=
  let (t, revived) := acc
  match t.compileOf? p with
  | none => (t, revived)
  | some id =>
    if (t.plan.disposition id).isScheduled || t.dirty.contains p then (t, revived)
    else
      ({ t with
          dirty := (DirtySet.add t.dirty p .interfaceChanged).1
          state := t.state.markNeedsRebuild p },
        OrderedSet.add revived id)

/-- Remembers that the contents of some inputs were compiled to the end. -/
def recordAll (t : Tracker) (paths : List Path) : Tracker :=
  { t with
    state := paths.foldl
      (fun s p => match t.fingerprints.get? p with
        | some f => s.recordFingerprint p f
        | none => s)
      t.state }

/-- **Learns that a job succeeded**, and gives the jobs that have to be done
after all. -/
def jobSucceeded {ω : Type} [FileSystem ω] (world : ω) (t : Tracker) (job : Job) :
    Tracker × List JobId :=
  match job.kind with
  | .compile _ true => (t.recordAll job.sourceInputs, [])
  | .compile units false =>
    let (t, reached) := units.foldl (integrateUnit world) (t, ∅)
    let (t, revived) := reached.toList.foldl invalidate (t, ∅)
    (t, revived.toList)
  | .precompileHeader header => (t.recordAll [header], [])
  | _ => (t, [])

/-- The tracker as an observer of an execution. -/
def observer {ω : Type} [FileSystem ω] : WorldObserver ω Tracker := jobSucceeded

/-- Notes how one job ended. -/
def noteStatus (graph : JobGraph) (s : BuildState) (r : JobReport) : BuildState :=
  match graph.job? r.id with
  | none => s
  | some job =>
    match r.status with
    | .skipped => s
    | .succeeded =>
      { s with staleJobs := job.originKeys.foldl OrderedMap.erase s.staleJobs }
    | .failed | .blocked | .cancelled =>
      let s := { s with staleJobs := job.originKeys.foldl OrderedSet.add s.staleJobs }
      if job.isCompile then job.sourceInputs.foldl BuildState.markNeedsRebuild s else s

/-- **What the build leaves**, when every job has come to an end. Jobs that are
no longer planned are forgotten. -/
def finish (t : Tracker) (jobs : List JobReport) : BuildState :=
  let s := jobs.foldl (noteStatus t.plan.graph) t.state
  let planned := OrderedSet.ofList (t.plan.graph.jobs.flatMap Job.originKeys)
  { s with staleJobs := s.staleJobs.filter (fun key _ => planned.contains key) }

end Tracker

end IncrementalBuild
