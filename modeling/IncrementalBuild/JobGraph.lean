import IncrementalBuild.Digraph.Toposort
import IncrementalBuild.Job
import IncrementalBuild.PlanningError

/-!
# Job graphs

The jobs of a build, each at the place of its number, with the jobs that have
to be done before it. A graph is taken only if the numbers are places, the
keys differ, every prerequisite exists, and the relation has no cycle.

A graph is put in order by counting down, for every job, the prerequisites
that are not listed yet: of the jobs whose count has reached zero the one with
the smallest number comes next.
-/

namespace IncrementalBuild

/-- The jobs of a build, each at the place of its number. -/
structure JobGraph where
  jobs : List Job
  deriving Inhabited

namespace JobGraph

def size (g : JobGraph) : Nat := g.jobs.length

/-- The job with a number, if there is one. -/
def job? (g : JobGraph) (id : JobId) : Option Job := g.jobs[id]?

/-- The number of the first job with a key. -/
def find? (g : JobGraph) (key : JobKey) : Option JobId :=
  (g.jobs.find? (·.key == key)).map (·.id)

/-- The prerequisites of a job in ascending order; none where there is no such
job. -/
def prerequisitesOf (g : JobGraph) (id : JobId) : List JobId :=
  match g.job? id with
  | some job => job.prerequisites.toList
  | none => []

/-- The jobs that have a given one as a prerequisite, in ascending order. -/
def dependentsOf (g : JobGraph) (id : JobId) : List JobId :=
  (g.jobs.filter (·.prerequisites.contains id)).map (·.id)

/-- The numbers of all jobs. -/
def ids (g : JobGraph) : List JobId := List.range g.size

/-- Every job that has a given one among its prerequisites, theirs, and so
on. -/
def transitiveDependents (g : JobGraph) (id : JobId) : OrderedSet JobId :=
  OrderedSet.ofList (reachable g.dependentsOf g.ids (g.dependentsOf id))

/-! ## Order -/

/-- How far the jobs have been put in order. -/
structure Countdown where
  /-- For every job, how many of its prerequisites are not listed yet. -/
  remaining : List Nat
  /-- The jobs that can be listed next. -/
  ready : OrderedSet JobId
  /-- The jobs listed so far, the last one first. -/
  listed : List JobId

namespace Countdown

/-- The beginning: jobs without prerequisites are ready. -/
def start (g : JobGraph) : Countdown :=
  { remaining := g.jobs.map (·.prerequisites.size)
    ready := OrderedSet.ofList
      ((g.jobs.filter (·.prerequisites.isEmpty)).map (·.id))
    listed := [] }

/-- Counts one prerequisite of a job as listed. -/
def release (o : Countdown) (id : JobId) : Countdown :=
  let left := o.remaining.getD id 0 - 1
  { o with
    remaining := o.remaining.set id left
    ready := if left = 0 then o.ready.add id else o.ready }

/-- Lists the smallest job that is ready. -/
def step (g : JobGraph) (o : Countdown) : Option Countdown :=
  match o.ready.toList with
  | [] => none
  | id :: _ =>
    some ((g.dependentsOf id).foldl release
      { o with ready := o.ready.erase id, listed := id :: o.listed })

/-- Lists at most so many further jobs. -/
def advance (g : JobGraph) : Nat → Countdown → Countdown
  | 0, o => o
  | n + 1, o =>
    match o.step g with
    | none => o
    | some next => advance g n next

end Countdown

/-- **The jobs in topological order.** Of the jobs that can come next, the one
with the smallest number does. -/
def topologicalOrder (g : JobGraph) : List JobId :=
  (Countdown.advance g g.size (Countdown.start g)).listed.reverse

/-! ## Validation -/

/-- What is wrong with one prerequisite of a job, in a graph of `count`
jobs. -/
def checkPrerequisite (key : JobKey) (id count prerequisite : Nat) :
    Except PlanningError Unit :=
  if prerequisite = id then .error (.selfDependency key.text)
  else if count ≤ prerequisite then .error (.unknownPrerequisite key.text prerequisite)
  else .ok ()

/-- Checks a job that stands at a position, with the keys of the jobs before
it. -/
def checkJob (count position : Nat) (before : List JobKey) (job : Job) :
    Except PlanningError Unit := do
  if job.id ≠ position then
    throw (.malformedRequest (.misplacedJob job.key.text job.id position))
  if job.key ∈ before then throw (.duplicateJob job.key.text)
  job.prerequisites.toList.forM (checkPrerequisite job.key job.id count)

/-- Checks the jobs from a position on. -/
def checkJobs (count position : Nat) (before : List JobKey) :
    List Job → Except PlanningError Unit
  | [] => .ok ()
  | job :: rest => do
    checkJob count position before job
    checkJobs count (position + 1) (job.key :: before) rest

/-- The relation "has to be done before" as a directed graph. -/
def relation (jobs : List Job) : Digraph JobId :=
  jobs.foldl
    (fun g job => job.prerequisites.toList.foldl (fun g p => g.addEdge p job.id)
      (g.addNode job.id))
    Digraph.empty

/-- **The graph of a list of jobs**, or what is wrong with the list. -/
def ofJobs (jobs : List Job) : Except PlanningError JobGraph := do
  checkJobs jobs.length 0 [] jobs
  match (relation jobs).toposort with
  | .error id => throw (.jobCycle (((jobs[id]?).map (·.key.text)).getD ""))
  | .ok _ => return ⟨jobs⟩

/-- **A graph holds the jobs it was made from.** -/
theorem jobs_of_ofJobs {jobs : List Job} {g : JobGraph} (h : ofJobs jobs = .ok g) :
    g.jobs = jobs := by
  unfold ofJobs at h
  cases hc : checkJobs jobs.length 0 [] jobs with
  | error e => simp [hc, bind, Except.bind] at h
  | ok u =>
    cases ht : (relation jobs).toposort with
    | error id => simp [hc, ht, bind, Except.bind] at h
    | ok order =>
      simp [hc, ht, bind, Except.bind, pure, Except.pure] at h
      rw [← h]

/-- Adds a job at the end of a graph under construction. Its prerequisites
have to be there already. -/
def add (g : JobGraph) (job : Job) : Except PlanningError (JobGraph × JobId) := do
  let id := g.size
  if job.key ∈ g.jobs.map (·.key) then throw (.duplicateJob job.key.text)
  job.prerequisites.toList.forM (checkPrerequisite job.key id g.size)
  return (⟨g.jobs ++ [{ job with id }]⟩, id)

end JobGraph

end IncrementalBuild
