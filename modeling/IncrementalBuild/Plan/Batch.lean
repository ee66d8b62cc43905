import IncrementalBuild.Plan

/-!
# Batches

Scheduled compile jobs that differ only in their input can be run as one. The
jobs with the same prerequisites, tool and shared arguments form a group; each
group is cut into as few runs as the batch size allows, as evenly as possible,
and every run of more than one job becomes a single job in the place of its
first member.
-/

namespace IncrementalBuild

/-- How many members each of the fewest runs of at most `size` has, the larger
ones first. -/
def runLengths (count size : Nat) : List Nat :=
  if count = 0 then []
  else
    let runs := (count + size - 1) / size
    (List.range runs).map fun i => count / runs + (if i < count % runs then 1 else 0)

/-- Cuts a list into runs of the given lengths. -/
def cutRuns {α : Type} : List Nat → List α → List (List α)
  | [], _ => []
  | n :: more, l => l.take n :: cutRuns more (l.drop n)

/-- Puts an element at the end of the class with its image, or into a new
class behind the others. -/
def addToClass {α β : Type} [BEq β] (f : α → β) (a : α) :
    List (β × List α) → List (β × List α)
  | [] => [(f a, [a])]
  | (image, members) :: rest =>
    if f a == image then (image, members ++ [a]) :: rest
    else (image, members) :: addToClass f a rest

/-- The classes of a list under "has the same image", in the order of their
first members. -/
def classesBy {α β : Type} [BEq β] (f : α → β) (l : List α) : List (List α) :=
  (l.foldl (fun classes a => addToClass f a classes) []).map (·.2)

/-- What the members of a batch have in common. -/
structure BatchKey where
  prerequisites : OrderedSet JobId
  tool : String
  sharedArgs : List String
  deriving BEq

def Job.batchKey (job : Job) : BatchKey :=
  ⟨job.prerequisites, job.command.tool, job.command.sharedArgs⟩

/-- The job that does what some jobs do, in the place of the first of them. -/
def Job.merged (first : Job) (rest : List Job) : Job :=
  let members := first :: rest
  let units := members.flatMap Job.units
  { first with
    key := match units.head?, units.getLast? with
      | some head, some last => .batch head.primary last.primary
      | _, _ => first.key
    kind := .compile units false
    inputs := (members.flatMap (·.inputs)).foldl
      (fun seen a => if seen.contains a then seen else seen ++ [a]) []
    outputs := members.flatMap (·.outputs)
    command := (Command.merge (members.map (·.command))).getD first.command }

namespace BuildPlan

/-- Whether a job may be put into a batch. -/
def isCandidate (p : BuildPlan) (job : Job) : Bool :=
  (p.disposition job.id).isScheduled
    && (match job.kind with
      | .compile units wholeModule => !wholeModule && units.length == 1
      | _ => false)

/-- The runs of more than one job that are merged, for a batch size. -/
def batches (p : BuildPlan) (size : Nat) : List (List Job) :=
  ((classesBy Job.batchKey (p.graph.jobs.filter p.isCandidate)).flatMap fun group =>
    cutRuns (runLengths group.length size) group).filter (fun run => run.length > 1)

/-- The batch that a job belongs to. -/
def batchOf? (batches : List (List Job)) (id : JobId) : Option (List Job) :=
  batches.find? (fun run => run.any (·.id == id))

/-- The job in whose place a job is done: the first of its batch, or itself. -/
def leader (batches : List (List Job)) (id : JobId) : JobId :=
  match batchOf? batches id with
  | some (first :: _) => first.id
  | _ => id

/-- The jobs that keep a place, in their order. -/
def kept (p : BuildPlan) (batches : List (List Job)) : List Job :=
  p.graph.jobs.filter (fun job => leader batches job.id == job.id)

/-- The new number of a job. -/
def newId (p : BuildPlan) (batches : List (List Job)) (id : JobId) : JobId :=
  (p.kept batches).findIdx (·.id == leader batches id)

/-- A job that keeps a place, with its new number and those of its
prerequisites. -/
def renumbered (p : BuildPlan) (batches : List (List Job)) (job : Job) : Job :=
  let base := match batchOf? batches job.id with
    | some (first :: rest) => first.merged rest
    | _ => job
  { base with
    id := p.newId batches job.id
    prerequisites :=
      OrderedSet.ofList (job.prerequisites.toList.map (p.newId batches)) }

/-- **The plan with batches** of at most the given size. -/
def partition (p : BuildPlan) (size : Option Nat) : Except PlanningError BuildPlan :=
  let batches := match size with
    | some n => if n > 1 then p.batches n else []
    | none => []
  if batches.isEmpty then .ok p
  else
    let kept := p.kept batches
    match h : JobGraph.ofJobs (kept.map (p.renumbered batches)) with
    | .error e => .error e
    | .ok graph =>
      .ok ⟨graph, kept.map (fun job => p.disposition job.id), by
        rw [JobGraph.size, JobGraph.jobs_of_ofJobs h]; simp⟩

end BuildPlan

end IncrementalBuild
