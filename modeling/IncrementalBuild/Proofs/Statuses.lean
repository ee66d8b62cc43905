import IncrementalBuild.Proofs.Settled

/-!
# How jobs are reported

What is reported of each job at the end of a run without revivals. Where a plan is
saturated, no failure ends the handing out and nobody asks to stop, the report follows
from the outcomes alone: it can be foretold job by job along the topological order, and
neither the order in which jobs end nor how many run at once matters.

A plan that a build makes is not saturated, since building a module draws nothing after
it. A job behind a clean one may then succeed although the building of a module before the
clean one fails. Nowhere else does a job succeed behind one that has failed or is blocked,
and what is behind a failure when it is told is not handed out any more.
-/

namespace IncrementalBuild

/-! ## Reports and states -/

/-- Where a job stands that is reported so. -/
def JobStatus.state : JobStatus → JobState
  | .skipped => .clean
  | .succeeded => .succeeded
  | .failed => .failed
  | .blocked => .blocked
  | .cancelled => .cancelled

/-- How a job that ended so is reported. -/
def JobOutcome.status : JobOutcome → JobStatus
  | .succeeded => .succeeded
  | .failed _ => .failed

/-- The end of a job is the same, told as a status or as a state. -/
@[simp] theorem JobOutcome.state_status (outcome : JobOutcome) :
    outcome.status.state = outcome.state := by
  cases outcome <;> rfl

/-- **At the end a job is reported as it stood**, unless it was given up. -/
theorem Scheduler.statusOf?_finalize_iff {s : Scheduler} {id : JobId} {status : JobStatus}
    (h : status ≠ .cancelled) :
    s.finalize.1.statusOf? id = some status ↔ s.stateOf? id = some status.state := by
  unfold statusOf?
  rw [stateOf?_finalize]
  cases s.stateOf? id with
  | none => simp
  | some state => cases state <;> cases status <;> simp_all [JobState.status?, JobStatus.state]

/-! ## Foretelling the report -/

namespace BuildPlan

/-- How a job will be reported, by the outcomes of jobs and the reports of those that it waits
for. -/
def foretell (plan : BuildPlan) (outcome : JobId → JobOutcome) (status : JobId → JobStatus)
    (id : JobId) : JobStatus :=
  if (plan.disposition id).isScheduled then
    if (plan.graph.prerequisitesOf id).any fun p => status p == .failed || status p == .blocked
      then .blocked
    else (outcome id).status
  else .skipped

/-- How some jobs will be reported, each after those before it. -/
def foretellAll (plan : BuildPlan) (outcome : JobId → JobOutcome) (order : List JobId) :
    JobId → JobStatus :=
  order.foldl (fun status id => Function.update status id (plan.foretell outcome status id))
    fun _ => .skipped

/-- **How each job will be reported**, one after the other in topological order. -/
def foretold (plan : BuildPlan) (outcome : JobId → JobOutcome) : JobId → JobStatus :=
  plan.foretellAll outcome plan.graph.topologicalOrder

variable {plan : BuildPlan} {outcome : JobId → JobOutcome}

/-- What is foretold of a job depends on its prerequisites only. -/
theorem foretell_congr {status status' : JobId → JobStatus} {id : JobId}
    (h : ∀ p ∈ plan.graph.prerequisitesOf id, status p = status' p) :
    plan.foretell outcome status id = plan.foretell outcome status' id := by
  have hany : ((plan.graph.prerequisitesOf id).any fun p =>
        status p == .failed || status p == .blocked)
      = (plan.graph.prerequisitesOf id).any fun p =>
        status' p == .failed || status' p == .blocked := by
    rw [Bool.eq_iff_iff, List.any_eq_true, List.any_eq_true]
    exact exists_congr fun p => and_congr_right fun hp => by rw [h p hp]
  unfold foretell
  rw [hany]

/-- Nothing is given up in a run to the end. -/
theorem foretell_ne_cancelled (plan : BuildPlan) (outcome : JobId → JobOutcome)
    (status : JobId → JobStatus) (id : JobId) :
    plan.foretell outcome status id ≠ .cancelled := by
  unfold foretell
  split
  · split
    · decide
    · cases outcome id <;> simp [JobOutcome.status]
  · decide

/-- One more job in the order changes what is foretold of that job alone. -/
theorem foretellAll_concat (order : List JobId) (last : JobId) :
    plan.foretellAll outcome (order ++ [last])
      = Function.update (plan.foretellAll outcome order) last
          (plan.foretell outcome (plan.foretellAll outcome order) last) :=
  List.foldl_concat _ _ _ _

/-- A pass over jobs that stand behind their prerequisites settles the report of each. -/
theorem foretellAll_eq (hg : plan.graph.WellFormed) {order rest : List JobId}
    (horder : plan.graph.topologicalOrder = order ++ rest) :
    ∀ id ∈ order, plan.foretellAll outcome order id
      = plan.foretell outcome (plan.foretellAll outcome order) id := by
  induction order using List.reverseRecOn generalizing rest with
  | nil => exact fun id h => absurd h List.not_mem_nil
  | append_singleton order last ih =>
    intro id hid
    have horder' : plan.graph.topologicalOrder = order ++ last :: rest := by
      rw [horder, List.append_assoc]
      rfl
    have hlast : last ∉ order := fun hm => by
      have hn := hg.nodup_topologicalOrder
      rw [horder'] at hn
      exact (List.nodup_append.1 hn).2.2 last hm last List.mem_cons_self rfl
    -- What is passed last is no prerequisite of what was passed before.
    have hsame {j : JobId} (hj : j ∈ order) :
        plan.foretellAll outcome (order ++ [last]) j = plan.foretellAll outcome order j := by
      rw [foretellAll_concat]
      exact Function.update_of_ne (fun e : j = last => hlast (e ▸ hj)) _ _
    have hbehind : ∀ p ∈ plan.graph.prerequisitesOf id, p ∈ order := by
      intro p hp
      cases List.mem_append.1 hid with
      | inl hid =>
        obtain ⟨l, r, rfl⟩ := List.append_of_mem hid
        rw [List.append_assoc] at horder'
        exact List.mem_append_left _ (hg.mem_of_topologicalOrder_eq horder' hp)
      | inr hid => exact hg.mem_of_topologicalOrder_eq horder' (List.mem_singleton.1 hid ▸ hp)
    rw [foretell_congr fun p hp => hsame (hbehind p hp)]
    cases List.mem_append.1 hid with
    | inl hid => rw [hsame hid, ih horder' id hid]
    | inr hid =>
      rw [List.mem_singleton.1 hid, foretellAll_concat]
      exact Function.update_self ..

/-- **The report of each job follows from those of its prerequisites.** -/
theorem foretold_eq (hg : plan.graph.WellFormed) {id : JobId} (hid : id < plan.graph.size) :
    plan.foretold outcome id = plan.foretell outcome (plan.foretold outcome) id :=
  foretellAll_eq hg (List.append_nil _).symm id (hg.mem_topologicalOrder.2 hid)

end BuildPlan

section Quiet

variable {ω σ : Type} {observe : WorldObserver ω σ} {plan : BuildPlan} {policy : FailurePolicy}
  {concurrency : Nat} {observed : σ} {told : List (Told ω)} {h : CoreHistory σ} {step : CoreStep}

/-- **Where nothing runs and nothing is pending, the states follow from the outcomes**, by
induction along the prerequisites. -/
theorem Scheduler.Settled.stateOf?_eq {s : Scheduler} (hs : s.Settled)
    (hg : s.plan.graph.WellFormed) (hplan : s.plan.Saturated) {outcome : JobId → JobOutcome}
    (hended : ∀ id, s.hasEnded id → s.stateOf? id = some (outcome id).state)
    (hrunning : ∀ id, s.stateOf? id ≠ some .running)
    (hpending : ∀ id, s.stateOf? id ≠ some .pending) {id : JobId} (hid : id < s.plan.graph.size) :
    s.stateOf? id = some (s.plan.foretold outcome id).state := by
  obtain ⟨rank, hrank⟩ := hg.exists_rank
  induction hr : rank id using Nat.strong_induction_on generalizing id with
  | _ n ih =>
    -- By what is known of the prerequisites, those that spoil the job are those that are
    -- foretold to.
    have hbefore : ∀ p ∈ s.plan.graph.prerequisitesOf id,
        s.stateOf? p = some (s.plan.foretold outcome p).state := fun p hp =>
      ih _ (hr ▸ (hrank id p hp).2) (hrank id p hp).1 rfl
    have hspoils {p : JobId} (hp : p ∈ s.plan.graph.prerequisitesOf id) :
        (s.plan.foretold outcome p == .failed || s.plan.foretold outcome p == .blocked) = true ↔
          s.stateOf? p = some .failed ∨ s.stateOf? p = some .blocked := by
      rw [hbefore p hp]
      cases s.plan.foretold outcome p <;> decide
    rw [BuildPlan.foretold_eq hg hid]
    unfold BuildPlan.foretell
    by_cases hscheduled : (s.plan.disposition id).isScheduled = true
    · rw [if_pos hscheduled]
      have hnotClean : ¬ s.isClean id := fun hc => by
        rw [(hs.clean_iff id hid).1 hc] at hscheduled
        cases hscheduled
      have hcases : s.stateOf? id = some .blocked ∨ s.hasEnded id :=
        (((hs.cases hid).resolve_left hnotClean).resolve_left (hpending id)).imp_right
          fun hstarted => hstarted.resolve_left (hrunning id)
      cases hcases with
      -- A blocked job is behind a failure, and then some prerequisite of its own spoils it.
      | inl hblocked =>
        obtain ⟨r, hfailed, hmem⟩ := hs.blamed id hblocked
        obtain ⟨-, p, hp, hspoilt⟩ := hs.blocked_behind hg hplan hfailed id hmem
        rw [if_pos (List.any_eq_true.2 ⟨p, hp, (hspoils hp).2 hspoilt⟩)]
        exact hblocked
      -- A job that has ended stood on prerequisites that are done, so none of them spoils it.
      | inr hend =>
        rw [if_neg fun hany => ?_, JobOutcome.state_status]
        · exact hended id hend
        · obtain ⟨p, hp, hspoilt⟩ := List.any_eq_true.1 hany
          exact Scheduler.not_isDone ((hspoils hp).1 hspoilt) (hs.grounded id (.inr hend) p hp)
    · rw [if_neg hscheduled]
      exact (hs.clean_iff id hid).2 (Bool.eq_false_iff.2 hscheduled)

/-- **In a run without revivals of a saturated plan the report follows from the outcomes**,
where no failure ends the handing out and nobody asks to stop: whatever the order in which jobs
end, and however many run at once. The run comes to its end, for as long as it goes on some job
is out whose end was not told. -/
theorem CoreRun.statusOf?_eq_foretold (hg : plan.graph.WellFormed) (hplan : plan.Saturated)
    (hquiet : Quiet observe) (outcome : JobId → JobOutcome)
    (hrun : CoreRun observe (.start plan .continueOnFailure concurrency observed) told h step)
    (htold : ∀ t ∈ told, ∃ id, t.event = .jobFinished id (outcome id)) :
    told.length ≤ plan.graph.size
      ∧ (step.keepRunning = true → ∃ id ∈ h.dispatched, id ∉ endedIn told)
      ∧ (step.keepRunning = false → ∀ id < plan.graph.size,
          h.core.finish.statusOf? id = some (plan.foretold outcome id) ∧
            plan.foretold outcome id = plan.foretell outcome (plan.foretold outcome) id) := by
  have hh := hrun.tallied hg
  have hnone : ∀ t ∈ told, (t.event == .cancelRequested) = false := fun t ht => by
    obtain ⟨id, he⟩ := htold t ht
    rw [he]
    rfl
  have hcancel : cancelledIn told = false := List.any_eq_false.2 fun t ht => by simp [hnone t ht]
  refine ⟨?_, hrun.exists_outstanding hg, fun hend id hid => ⟨?_, BuildPlan.foretold_eq hg hid⟩⟩
  · have hlength := hrun.length_le hg
    rwa [List.countP_eq_zero.2 fun t ht => by simp [hnone t ht]] at hlength
  -- At the end the states follow from the outcomes, and what is reported is the state.
  · have hended : ∀ id, h.core.scheduler.hasEnded id →
        h.core.scheduler.stateOf? id = some (outcome id).state := fun id hid => by
      obtain ⟨t, ht, hfinished⟩ := List.mem_filterMap.1 ((hh.mem_ended_iff id).2 hid)
      obtain ⟨other, he⟩ := htold t ht
      rw [he] at hfinished
      obtain rfl : other = id := Option.some.inj hfinished
      exact hrun.stateOf?_of_mem_told hg ht he
    have hstate := (hrun.settled hg hquiet).stateOf?_eq (hh.plan_eq.symm ▸ hg)
      (hh.plan_eq.symm ▸ hplan) hended ((hrun.keepRunning_eq_false_iff hg).1 hend)
      (hrun.not_pending hg hend hcancel fun h => by cases h) (hh.plan_eq.symm ▸ hid)
    rw [hh.plan_eq] at hstate
    refine (Scheduler.statusOf?_finalize_iff ?_).2 hstate
    rw [BuildPlan.foretold_eq hg hid]
    exact BuildPlan.foretell_ne_cancelled _ _ _ _

/-! In the diamond the top is done. The left side fails, the right side succeeds, and the bottom
is blocked, whichever side ends first. -/

namespace Scheduler.Diamond

/-- An observer that asks for nothing. -/
def silent : WorldObserver Unit Unit := fun _ _ _ => ((), [])

/-- The observer that revives nothing is quiet. -/
theorem quiet_silent : Quiet silent := fun _ _ _ => rfl

/-- The plan that leaves the top as it is. -/
def lower : BuildPlan := .cleanWhere graph [0].contains

/-- What waits for a scheduled job is scheduled in this plan too. -/
theorem saturated_lower : lower.Saturated := by
  intro p j hp _
  match j with
  | 0 => cases hp
  | 1 | 2 | 3 => rfl
  | n + 4 => cases hp

/-- The left side fails. -/
def leftFails (id : JobId) : JobOutcome := if id = 1 then .failed (.exit 1) else .succeeded

/-- The sides end one after the other. -/
def sides (order : List JobId) : List (Told Unit) :=
  order.map fun id => ⟨(), .jobFinished id (leftFails id)⟩

/-- The history of such a run. -/
def sideBySide (order : List JobId) : CoreHistory Unit :=
  .ofTold silent lower .continueOnFailure 2 () (sides order)

/-- Both orders in which the sides can end are runs to the end. -/
theorem run_sides : ∀ order ∈ [[1, 2], [2, 1]], ∃ step,
    CoreRun silent (.start lower .continueOnFailure 2 ()) (sides order) (sideBySide order) step ∧
      step.keepRunning = false := by
  intro order horder
  cases List.mem_pair.1 horder with
  | inl h =>
    subst h
    exact ⟨_, (CoreRun.begin.tell ⟨(), .jobFinished 1 (.failed (.exit 1))⟩
      (by decide +kernel)).tell ⟨(), .jobFinished 2 .succeeded⟩ (by decide +kernel),
      by decide +kernel⟩
  | inr h =>
    subst h
    exact ⟨_, (CoreRun.begin.tell ⟨(), .jobFinished 2 .succeeded⟩
      (by decide +kernel)).tell ⟨(), .jobFinished 1 (.failed (.exit 1))⟩ (by decide +kernel),
      by decide +kernel⟩

end Scheduler.Diamond

open Scheduler.Diamond in
/-- The left side fails. The jobs end as foretold, whichever side ends first. -/
theorem CoreRun.statusOf?_eq_foretold_diamond :
    lower.Saturated ∧ Quiet silent ∧ lower.graph.size = 4
      ∧ (List.range 4).map (lower.foretold leftFails) = [.skipped, .failed, .succeeded, .blocked]
      ∧ ∀ order ∈ [[1, 2], [2, 1]],
        (∀ t ∈ sides order, ∃ id, t.event = .jobFinished id (leftFails id)) ∧
        ∀ id < 4, (sideBySide order).core.finish.statusOf? id
          = some (lower.foretold leftFails id) := by
  refine ⟨saturated_lower, quiet_silent, rfl, by decide +kernel, fun order horder => ?_⟩
  obtain ⟨step, hrun, hend⟩ := run_sides order horder
  have htold : ∀ t ∈ sides order, ∃ id, t.event = .jobFinished id (leftFails id) := fun t ht => by
    obtain ⟨id, -, rfl⟩ := List.mem_map.1 ht
    exact ⟨id, rfl⟩
  obtain ⟨-, -, hstatus⟩ := CoreRun.statusOf?_eq_foretold graph_wellFormed saturated_lower
    quiet_silent leftFails hrun htold
  exact ⟨htold, fun id hid => (hstatus hend id hid).1⟩

/-! ## Behind a failure -/

/-- Between a failed or blocked job and one behind it that succeeded, the chain of
prerequisites passes from the building of a module that failed or is blocked to a clean job. -/
theorem Scheduler.Settled.exists_between {s : Scheduler} (hs : s.Settled)
    (hg : s.plan.graph.WellFormed) (hfollowed : s.Followed) {path : List JobId} {q j : JobId}
    (hchain : List.IsChain (fun p d => p ∈ s.plan.graph.prerequisitesOf d) (q :: path))
    (hlast : (q :: path).getLast? = some j)
    (hq : s.stateOf? q = some .failed ∨ s.stateOf? q = some .blocked)
    (hj : s.stateOf? j = some .succeeded) :
    ∃ m c, [m, c] <:+: q :: path
      ∧ (∃ job ∈ s.plan.graph.jobs, job.id = m ∧ job.isModuleBuild = true)
      ∧ (s.stateOf? m = some .failed ∨ s.stateOf? m = some .blocked) ∧ s.isClean c := by
  induction path generalizing q with
  | nil =>
    obtain rfl : q = j := Option.some.inj hlast
    rw [hj] at hq
    simp at hq
  | cons d rest ih =>
    obtain ⟨hqd, hrest⟩ := List.isChain_cons_cons.1 hchain
    have hnotDone := not_isDone hq
    obtain ⟨after, hafter, hlisted⟩ := JobGraph.mem_prerequisitesOf.1 hqd
    obtain ⟨hmem, rfl⟩ := hg.job?_eq_some_iff.1 hafter
    rcases hs.cases (hg.id_lt hmem) with hclean | hpending | hblocked | hstarted
    · -- A clean job waits for none that is not clean, other than the building of a module.
      obtain ⟨before, hbefore⟩ := JobGraph.exists_job?_of_lt (hg.lt_size_of_mem_prerequisitesOf hqd)
      obtain ⟨hmemBefore, rfl⟩ := hg.job?_eq_some_iff.1 hbefore
      refine ⟨before.id, after.id, ⟨[], rest, rfl⟩, ⟨before, hmemBefore, rfl, ?_⟩, hq, hclean⟩
      by_contra hm
      exact hnotDone (.inl (hfollowed before hmemBefore after hmem hlisted
        (Bool.eq_false_iff.2 hm) hclean))
    · exact absurd hpending (hs.not_pending hg hq hqd)
    · obtain ⟨m, c, hinfix, hmc⟩ := ih hrest hlast (.inr hblocked)
      exact ⟨m, c, List.infix_cons hinfix, hmc⟩
    · exact absurd (hs.grounded _ hstarted q hqd) hnotDone

/-- **In a run without revivals of a plan that was pruned, a job that succeeds behind a failed or
blocked one does so behind a clean job**: on every chain of prerequisites between the two, a
clean job waits for the building of a module that failed or is blocked. And whatever failure
a job that succeeds is behind, the job had been handed out when the core was told of it. -/
theorem CoreRun.succeeded_behind_failure {φ : Type} [FileSystem φ] {g : JobGraph}
    (hg : g.WellFormed) (c : Changes) (fs : φ) (hquiet : Quiet observe)
    (hrun : CoreRun observe (.start (g.prune c fs) policy concurrency observed) told h step)
    {q j : JobId}
    (hq : h.core.finish.statusOf? q = some .failed ∨ h.core.finish.statusOf? q = some .blocked)
    (hj : h.core.finish.statusOf? j = some .succeeded) :
    (∀ path, List.IsChain (fun p d => p ∈ g.prerequisitesOf d) (q :: path) →
        (q :: path).getLast? = some j →
        ∃ m c, [m, c] <:+: q :: path
          ∧ (∃ job ∈ g.jobs, job.id = m ∧ job.isModuleBuild = true)
          ∧ (h.core.finish.statusOf? m = some .failed ∨ h.core.finish.statusOf? m = some .blocked)
          ∧ h.core.finish.statusOf? c = some .skipped)
      ∧ ∀ before t after r kind, told = before ++ t :: after →
          t.event = .jobFinished r (.failed kind) → j ∈ (g.transitiveDependents r).toList →
          j ∈ (CoreHistory.ofTold observe (g.prune c fs) policy concurrency observed
            before).dispatched := by
  have hplan : (g.prune c fs).graph.WellFormed := hg
  have hh := hrun.tallied hplan
  have hs := hrun.settled hplan hquiet
  have hfollowed : h.core.scheduler.Followed := by
    rw [hrun.eq_ofTold]
    exact (CoreHistory.sound_ofTold hplan (JobGraph.closed_prune hg c fs)).followed
  have hreported {id : JobId} {status : JobStatus} (hne : status ≠ .cancelled) :
      h.core.finish.statusOf? id = some status ↔ h.core.scheduler.stateOf? id = some status.state :=
    Scheduler.statusOf?_finalize_iff hne
  have hjs : h.core.scheduler.stateOf? j = some .succeeded := (hreported (by decide)).1 hj
  have hqs : h.core.scheduler.stateOf? q = some .failed ∨
      h.core.scheduler.stateOf? q = some .blocked :=
    hq.imp (hreported (by decide)).1 (hreported (by decide)).1
  refine ⟨fun path hchain hlast => ?_, fun before t after r kind htold he hbehind => ?_⟩
  -- Somewhere between the two a clean job stands behind the building of a module.
  · have hgraph : h.core.scheduler.plan.graph = g := congrArg BuildPlan.graph hh.plan_eq
    obtain ⟨m, d, hinfix, hjob, hm, hd⟩ := hs.exists_between (hgraph.symm ▸ hg) hfollowed
      (hgraph.symm ▸ hchain) hlast hqs hjs
    exact ⟨m, d, hinfix, hgraph ▸ hjob,
      hm.imp (hreported (by decide)).2 (hreported (by decide)).2, (hreported (by decide)).2 hd⟩
  -- After the failure was told the job would have been blocked, so it was handed out before.
  · subst htold
    exact CoreRun.dispatched_before_failure hplan hquiet he hrun hbehind
      ((hh.mem_iff j).2 (.inr (.inl hjs)))

end Quiet

/-! A module is built before a compilation, which is followed by a link. Only the link is
unfinished, so it runs beside the building of the module, which fails. -/

namespace Scheduler.Imported

/-- A module, an input that imports it, and a program linked from that input. -/
def graph : JobGraph :=
  ⟨[{ Diamond.job 0 "module" [] with kind := .buildModule "module" },
    Diamond.job 1 "compile" [0], Diamond.job 2 "link" [1]]⟩

/-- The graph of these jobs is accepted. -/
theorem graph_wellFormed : graph.WellFormed :=
  JobGraph.wellFormed_of_isOk (by decide +kernel)

/-- The link is unfinished. -/
def changes : Changes := ⟨∅, OrderedSet.ofList [⟨"link"⟩], ∅⟩

/-- The plan builds the module because it always does, and links because of a change. The input is
left as it is. -/
def plan : BuildPlan := graph.prune changes MemoryFiles.empty

/-- The module cannot be built. -/
def ends : List (Told Unit) :=
  [⟨(), .jobFinished 0 (.failed (.exit 1))⟩, ⟨(), .jobFinished 2 .succeeded⟩]

/-- The two jobs are started together; then the module fails. -/
def history : CoreHistory Unit := .ofTold Diamond.silent plan .continueOnFailure 2 () ends

/-- With both ends told the run is over. -/
theorem run_ends : ∃ step,
    CoreRun Diamond.silent (.start plan .continueOnFailure 2 ()) ends history step ∧
      step.keepRunning = false :=
  ⟨_, (CoreRun.begin.tell ⟨(), .jobFinished 0 (.failed (.exit 1))⟩ (by decide +kernel)).tell
    ⟨(), .jobFinished 2 .succeeded⟩ (by decide +kernel), by decide +kernel⟩

end Scheduler.Imported

open Scheduler.Imported in
/-- The program is linked behind the failed module. Between the two stands the input, which was
skipped and waits for the module, and the link had been started before any end was told. -/
theorem CoreRun.succeeded_behind_failure_imported :
    history.core.finish.statusOf? 0 = some .failed
      ∧ history.core.finish.statusOf? 2 = some .succeeded
      ∧ List.IsChain (fun p d => p ∈ graph.prerequisitesOf d) [0, 1, 2]
      ∧ (∃ m c, [m, c] <:+: [0, 1, 2] ∧ history.core.finish.statusOf? c = some .skipped)
      ∧ 2 ∈ (CoreHistory.ofTold Scheduler.Diamond.silent plan .continueOnFailure 2 ()
          []).dispatched := by
  have hfailed : history.core.finish.statusOf? 0 = some .failed := by decide +kernel
  have hsucceeded : history.core.finish.statusOf? 2 = some .succeeded := by decide +kernel
  have hchain : List.IsChain (fun p d => p ∈ graph.prerequisitesOf d) [0, 1, 2] := by
    decide +kernel
  obtain ⟨step, hrun, -⟩ := run_ends
  obtain ⟨hbetween, hbefore⟩ := CoreRun.succeeded_behind_failure graph_wellFormed changes
    MemoryFiles.empty Scheduler.Diamond.quiet_silent hrun (.inl hfailed) hsucceeded
  obtain ⟨m, c, hinfix, -, -, hskipped⟩ := hbetween [1, 2] hchain rfl
  exact ⟨hfailed, hsucceeded, hchain, ⟨m, c, hinfix, hskipped⟩,
    hbefore [] _ _ 0 (.exit 1) rfl rfl (by decide +kernel)⟩

open Scheduler.Imported in
/-- **A job succeeds behind a failed one** where the failed one builds a module and a clean job
lies between the two. -/
theorem CoreRun.exists_succeeded_behind_failure :
    ∃ (g : JobGraph) (c : Changes) (fs : MemoryFiles) (policy : FailurePolicy)
      (concurrency : Nat) (observe : WorldObserver Unit Unit) (told : List (Told Unit))
      (h : CoreHistory Unit) (step : CoreStep) (q j : JobId),
      g.WellFormed ∧ Quiet observe
        ∧ CoreRun observe (.start (g.prune c fs) policy concurrency ()) told h step
        ∧ cancelledIn told = false ∧ step.keepRunning = false
        ∧ j ∈ (g.transitiveDependents q).toList
        ∧ h.core.finish.statusOf? q = some .failed
        ∧ h.core.finish.statusOf? j = some .succeeded := by
  obtain ⟨step, hrun, hend⟩ := run_ends
  exact ⟨graph, changes, MemoryFiles.empty, .continueOnFailure, 2, Scheduler.Diamond.silent, ends,
    history, step, 0, 2, graph_wellFormed, Scheduler.Diamond.quiet_silent, hrun, by decide, hend,
    by decide +kernel, by decide +kernel, by decide +kernel⟩

end IncrementalBuild
