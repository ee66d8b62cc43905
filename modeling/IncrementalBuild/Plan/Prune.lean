import IncrementalBuild.DirtySet
import IncrementalBuild.FileSystem
import IncrementalBuild.Plan

/-!
# Which jobs are scheduled

A job is scheduled on its own account when one of its inputs is dirty, its
command has changed, it is known to be unfinished, or one of its products is
missing. Whatever follows a scheduled job is scheduled too. Building an
imported module is always scheduled and draws nothing after it: its tool
decides by itself whether there is anything to do.
-/

namespace IncrementalBuild

/-- What a build knows about the jobs it plans. -/
structure Changes where
  /-- The inputs that have to be compiled again. -/
  dirty : DirtySet
  /-- The jobs that were left unfinished. -/
  stale : OrderedSet JobKey
  /-- The jobs whose command has changed. -/
  commands : OrderedSet JobKey

/-- Why a job is scheduled on its own account, if it is. -/
def Changes.reason? {φ : Type} [FileSystem φ] (c : Changes) (fs : φ) (job : Job) :
    Option ScheduleReason :=
  if job.isModuleBuild then some .externalModule
  else if job.inputs.any (fun a => c.dirty.contains a.path) then some .dirtyInput
  else if c.commands.contains job.key then some .commandChanged
  else if job.originKeys.any c.stale.contains then some .stale
  else if job.outputs.any (fun a => !FileSystem.pathExists fs a.path) then
    some .missingOutput
  else none

namespace JobGraph

/-- Whether what follows a job is scheduled with it. -/
def drawsOn (g : JobGraph) (dispositions : List Disposition) (id : JobId) : Bool :=
  (dispositions.getD id .clean).isScheduled
    && !((g.job? id).map Job.isModuleBuild).getD false

/-- Schedules a job that is left as it is although it follows a scheduled
one. -/
def drawOn (g : JobGraph) (dispositions : List Disposition) (id : JobId) :
    List Disposition :=
  if dispositions.getD id .clean = .clean
      && (g.prerequisitesOf id).any (g.drawsOn dispositions) then
    dispositions.set id (.scheduled .prerequisite)
  else dispositions

theorem length_drawOn (g : JobGraph) (ds : List Disposition) (id : JobId) :
    (g.drawOn ds id).length = ds.length := by
  unfold drawOn
  split <;> simp

theorem length_foldl_drawOn (g : JobGraph) (ids : List JobId) (ds : List Disposition) :
    (ids.foldl g.drawOn ds).length = ds.length := by
  induction ids generalizing ds with
  | nil => rfl
  | cons id rest ih => rw [List.foldl_cons, ih, length_drawOn]

/-- What is to become of each job on its own account. -/
def ownDispositions {φ : Type} [FileSystem φ] (g : JobGraph) (c : Changes) (fs : φ) :
    List Disposition :=
  g.jobs.map fun job =>
    match c.reason? fs job with
    | some reason => .scheduled reason
    | none => .clean

/-- **The plan of a graph**, from what a build knows about its jobs. -/
def prune {φ : Type} [FileSystem φ] (g : JobGraph) (c : Changes) (fs : φ) : BuildPlan :=
  ⟨g, g.topologicalOrder.foldl g.drawOn (g.ownDispositions c fs), by
    rw [length_foldl_drawOn]; simp [ownDispositions, size]⟩

end JobGraph

end IncrementalBuild
