import IncrementalBuild.JobGraph

/-!
# Build plans

A plan is a job graph together with what is to become of each job: whether it
is scheduled, and why, or left as it is.
-/

namespace IncrementalBuild

/-- Why a job is scheduled. -/
inductive ScheduleReason where
  | dirtyInput
  | commandChanged
  | missingOutput
  | stale
  | externalModule
  | prerequisite
  deriving DecidableEq, Inhabited

def ScheduleReason.name : ScheduleReason → String
  | dirtyInput => "dirty input"
  | commandChanged => "command changed"
  | missingOutput => "missing output"
  | stale => "stale"
  | externalModule => "external module"
  | prerequisite => "upstream"

/-- What is to become of a job. -/
inductive Disposition where
  | clean
  | scheduled (reason : ScheduleReason)
  deriving DecidableEq, Inhabited

def Disposition.isScheduled : Disposition → Bool
  | clean => false
  | scheduled _ => true

/-- **Jobs, and what is to become of each.** -/
structure BuildPlan where
  graph : JobGraph
  dispositions : List Disposition
  /-- Every job has a disposition. -/
  length_eq : dispositions.length = graph.size

namespace BuildPlan

/-- What is to become of a job. One that does not exist stays as it is. -/
def disposition (p : BuildPlan) (id : JobId) : Disposition :=
  p.dispositions.getD id .clean

/-- The plan in which every job is scheduled. -/
def allScheduled (g : JobGraph) : BuildPlan :=
  ⟨g, g.jobs.map (fun _ => .scheduled .dirtyInput), by simp [JobGraph.size]⟩

/-- The plan in which the jobs with a property are left as they are. -/
def cleanWhere (g : JobGraph) (isClean : JobId → Bool) : BuildPlan :=
  ⟨g, g.ids.map (fun id => if isClean id then .clean else .scheduled .dirtyInput),
    by simp [JobGraph.ids]⟩

def scheduledCount (p : BuildPlan) : Nat := p.dispositions.countP Disposition.isScheduled

end BuildPlan

end IncrementalBuild
