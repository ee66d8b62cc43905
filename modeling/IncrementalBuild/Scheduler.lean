import IncrementalBuild.Plan

/-!
# The scheduler

The scheduler follows every job of a plan from its disposition to its end. It
hands out pending jobs whose prerequisites are done, the smallest number
first, and learns how they end. A success releases what was waiting for it, a
failure blocks everything behind it. A clean job can be revived while the plan
is being carried out, and everything clean behind it comes with it.

Two counts are kept up to date instead of being computed: the number of
running jobs, and for every pending job the number of its prerequisites that
are not finished.
-/

namespace IncrementalBuild

/-- Why a job failed. -/
inductive FailureKind where
  /-- Its command could not be started. -/
  | spawn (message : String)
  | exit (code : Int)
  deriving DecidableEq

/-- The text of a failure. -/
def FailureKind.message : FailureKind → String
  | spawn message => "could not spawn: " ++ message
  | exit code => s!"exit code {code}"

/-- How a job ended. -/
inductive JobOutcome where
  | succeeded
  | failed (kind : FailureKind)
  deriving DecidableEq

def JobOutcome.isSuccess : JobOutcome → Bool
  | succeeded => true
  | failed _ => false

/-- Where a job stands. -/
inductive JobState where
  | clean
  | pending
  | running
  | succeeded
  | failed
  | blocked
  | cancelled
  deriving DecidableEq, Inhabited

/-- How a job is reported. -/
inductive JobStatus where
  | skipped
  | succeeded
  | failed
  | blocked
  | cancelled
  deriving DecidableEq, Inhabited

namespace JobStatus

def name : JobStatus → String
  | skipped => "skipped"
  | succeeded => "succeeded"
  | failed => "failed"
  | blocked => "blocked"
  | cancelled => "cancelled"

def isSuccess : JobStatus → Bool
  | skipped => true
  | succeeded => true
  | _ => false

end JobStatus

namespace JobState

def name : JobState → String
  | clean => "clean"
  | pending => "pending"
  | running => "running"
  | succeeded => "succeeded"
  | failed => "failed"
  | blocked => "blocked"
  | cancelled => "cancelled"

/-- Whether nothing more happens to the job by itself. -/
def isTerminal : JobState → Bool
  | pending => false
  | running => false
  | _ => true

/-- Whether a job in this state keeps those behind it from ever running. -/
def poisons : JobState → Bool
  | failed => true
  | blocked => true
  | cancelled => true
  | _ => false

/-- How a job in this state is reported, once it has come to an end. -/
def status? : JobState → Option JobStatus
  | clean => some .skipped
  | succeeded => some .succeeded
  | failed => some .failed
  | blocked => some .blocked
  | cancelled => some .cancelled
  | pending => none
  | running => none

end JobState

/-- **Where the jobs of a plan stand.** -/
structure Scheduler where
  plan : BuildPlan
  policy : FailurePolicy
  states : List JobState
  /-- For every pending job, how many of its prerequisites are not finished. -/
  remaining : List Nat
  /-- The jobs that can be handed out. -/
  ready : OrderedSet JobId
  /-- Whether a failure has ended the handing out of jobs. -/
  halted : Bool
  /-- Whether a request has ended the handing out of jobs. -/
  cancelled : Bool
  /-- How many jobs are running. -/
  running : Nat

/-- What changes when something happens to a job. -/
structure SchedulerStep where
  ready : List JobId
  blocked : List JobId
  revived : List JobId
  halted : Bool
  deriving DecidableEq

/-- The step in which nothing changes. -/
def SchedulerStep.none : SchedulerStep := ⟨[], [], [], false⟩

namespace Scheduler

/-- Where a job stands; nothing for one that does not exist. -/
def stateOf? (s : Scheduler) (id : JobId) : Option JobState := s.states[id]?

def isPending (s : Scheduler) (id : JobId) : Bool := s.stateOf? id == some .pending

/-- How a job is reported. -/
def statusOf? (s : Scheduler) (id : JobId) : Option JobStatus :=
  (s.stateOf? id).bind JobState.status?

/-- How many prerequisites of a job are not finished. -/
def unfinished (g : JobGraph) (states : List JobState) (id : JobId) : Nat :=
  (g.prerequisitesOf id).countP (fun p => !(states.getD p .clean).isTerminal)

/-- **The beginning**: scheduled jobs are pending, and those that wait for no
other are ready. -/
def start (plan : BuildPlan) (policy : FailurePolicy) : Scheduler :=
  let states := plan.dispositions.map (fun d => if d.isScheduled then .pending else .clean)
  let remaining := plan.graph.ids.map fun id =>
    if states.getD id .clean == .pending then unfinished plan.graph states id else 0
  { plan, policy, states, remaining
    ready := OrderedSet.ofList (plan.graph.ids.filter fun id =>
      states.getD id .clean == .pending && remaining.getD id 0 == 0)
    halted := false
    cancelled := false
    running := 0 }

/-- Whether jobs are no longer handed out. -/
def isClosed (s : Scheduler) : Bool := s.halted || s.cancelled

/-! ## Handing out jobs -/

/-- Hands out ready jobs, smallest first, until `room` of them are out. -/
def handOut (s : Scheduler) : Nat → Scheduler × List JobId
  | 0 => (s, [])
  | room + 1 =>
    match s.ready.toList with
    | [] => (s, [])
    | id :: _ =>
      let (s, more) := handOut
        { s with
          states := s.states.set id .running
          ready := s.ready.erase id
          running := s.running + 1 } room
      (s, id :: more)

/-- **Hands out ready jobs** until `limit` jobs are running. -/
def dispatch (s : Scheduler) (limit : Nat) : Scheduler × List JobId :=
  if s.isClosed then (s, [])
  else s.handOut (min (limit - s.running) s.ready.size)

/-! ## Learning how jobs end -/

/-- Counts one prerequisite of a pending job as finished; the list gains the
job if that makes it ready. -/
def releaseOne (s : Scheduler) (id : JobId) : Scheduler × List JobId :=
  if s.isPending id then
    let left := s.remaining.getD id 0 - 1
    let s := { s with remaining := s.remaining.set id left }
    if left = 0 && !s.ready.contains id then
      ({ s with ready := s.ready.add id }, [id])
    else (s, [])
  else (s, [])

/-- Counts a prerequisite of each job of a list as finished. -/
def releaseAll (s : Scheduler) : List JobId → Scheduler × List JobId
  | [] => (s, [])
  | id :: rest =>
    let (s, here) := s.releaseOne id
    let (s, more) := releaseAll s rest
    (s, here ++ more)

/-- Blocks the pending jobs of a list. -/
def blockAll (s : Scheduler) : List JobId → Scheduler × List JobId
  | [] => (s, [])
  | id :: rest =>
    if s.isPending id then
      let (s, more) := blockAll
        { s with states := s.states.set id .blocked, ready := s.ready.erase id } rest
      (s, id :: more)
    else blockAll s rest

/-- **Learns how a job ended.** What is said about a job that is not running
is ignored. -/
def complete (s : Scheduler) (id : JobId) (outcome : JobOutcome) :
    Scheduler × SchedulerStep :=
  if s.stateOf? id ≠ some .running then (s, .none)
  else
    let s := { s with running := s.running - 1 }
    match outcome with
    | .succeeded =>
      let (s, ready) := releaseAll { s with states := s.states.set id .succeeded }
        (s.plan.graph.dependentsOf id)
      (s, { SchedulerStep.none with ready })
    | .failed _ =>
      let (s, blocked) := blockAll { s with states := s.states.set id .failed }
        (s.plan.graph.transitiveDependents id).toList
      let halts := s.policy == .failFast && !s.halted
      ({ s with halted := s.halted || halts }, { SchedulerStep.none with blocked, halted := halts })

/-! ## Reviving clean jobs -/

/-- The clean jobs among some roots, and all clean jobs that follow them
through clean jobs. -/
def cleanBehind (s : Scheduler) (roots : List JobId) : List JobId :=
  reachable s.plan.graph.dependentsOf
    (s.plan.graph.ids.filter (fun id => s.stateOf? id == some .clean)) roots

/-- Makes a pending job wait for one prerequisite more. -/
def delay (s : Scheduler) (id : JobId) : Scheduler :=
  if s.isPending id then
    { s with
      remaining := s.remaining.set id (s.remaining.getD id 0 + 1)
      ready := s.ready.erase id }
  else s

/-- Revives one of the selected jobs, the selected ones before it being
revived already. -/
def reviveOne (selected : List JobId) (acc : Scheduler × SchedulerStep) (id : JobId) :
    Scheduler × SchedulerStep :=
  let (s, step) := acc
  let g := s.plan.graph
  if (g.prerequisitesOf id).any (fun p => (s.states.getD p .clean).poisons) then
    ({ s with states := s.states.set id .blocked },
      { step with blocked := step.blocked ++ [id] })
  else
    let states := s.states.set id .pending
    let waiting := unfinished g states id
    let isReady := waiting = 0
    let s := { s with
      states
      remaining := s.remaining.set id waiting
      ready := if isReady then s.ready.add id else s.ready }
    (((g.dependentsOf id).filter (fun d => !selected.contains d)).foldl delay s,
      { step with
        revived := step.revived ++ [id]
        ready := if isReady then step.ready ++ [id] else step.ready })

/-- **Revives clean jobs**, and every clean job behind them. A revived job
behind a failure is blocked at once. -/
def revive (s : Scheduler) (roots : List JobId) : Scheduler × SchedulerStep :=
  let selected := s.cleanBehind roots
  let (s, step) := (s.plan.graph.topologicalOrder.filter selected.contains).foldl
    (reviveOne selected) (s, .none)
  (s, { step with ready := step.ready.filter s.ready.contains })

/-! ## Ending -/

/-- Ends the handing out of jobs. -/
def cancel (s : Scheduler) : Scheduler := { s with cancelled := true }

/-- Whether no job is running and none will be handed out. -/
def isFinished (s : Scheduler) : Bool :=
  s.running == 0 && (s.isClosed || s.ready.isEmpty)

/-- Gives up the jobs that are still pending, and lists them. -/
def finalize (s : Scheduler) : Scheduler × List JobId :=
  ({ s with
      states := s.states.map (fun st => if st = .pending then .cancelled else st)
      ready := ∅ },
    s.plan.graph.ids.filter s.isPending)

/-- Whether every job has come to an end. -/
def allTerminal (s : Scheduler) : Bool := s.states.all JobState.isTerminal

end Scheduler

end IncrementalBuild
