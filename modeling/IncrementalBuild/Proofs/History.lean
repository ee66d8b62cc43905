import IncrementalBuild.FileSystem.Memory
import IncrementalBuild.Proofs.Bookkeeping
import IncrementalBuild.Proofs.Course
import IncrementalBuild.Proofs.Plan.Prune

/-!
# Histories of a core

A core may be asked to hand out jobs and may be told of ends and cancellations, in any
order and with any observer answering. Whatever it is asked, its scheduler goes through
operations one after the other, so what each operation keeps holds in every history.

A plan is **closed** when everything that waits for a scheduled job is scheduled, the
building of modules aside. Pruning makes closed plans. That no clean job waits for one
that is not clean then stays true to the end: jobs leave the clean state by being
revived alone, and all that is clean behind a revived job is revived with it.
-/

namespace IncrementalBuild

namespace Scheduler

/-- **No clean job waits for one that is not clean**, the building of modules aside. -/
def Followed (s : Scheduler) : Prop :=
  ∀ before ∈ s.plan.graph.jobs, ∀ after ∈ s.plan.graph.jobs,
    before.id ∈ after.prerequisites.toList → before.isModuleBuild = false →
      s.isClean after.id → s.isClean before.id

theorem isClean_start {plan : BuildPlan} (policy : FailurePolicy) {id : JobId}
    (hid : id < plan.graph.size) :
    (start plan policy).isClean id ↔ (plan.disposition id).isScheduled = false := by
  unfold isClean
  rw [stateOf?_start plan policy hid]
  cases (plan.disposition id).isScheduled <;> decide

/-- Under a closed plan no clean job waits for a pending one at the beginning. -/
theorem followed_start {plan : BuildPlan} (hg : plan.graph.WellFormed) (hplan : plan.Closed)
    (policy : FailurePolicy) : (start plan policy).Followed := by
  intro before hbefore after hafter hp hm hclean
  have hclean := (isClean_start policy (hg.id_lt hafter)).1 hclean
  refine (isClean_start policy (hg.id_lt hbefore)).2 (Bool.eq_false_iff.2 fun hs => ?_)
  rw [hplan before hbefore after hafter hp hm hs] at hclean
  cases hclean

/-- The jobs that an operation takes out of the clean state. -/
def revivedBy (s : Scheduler) : Operation → List JobId
  | .revive roots => s.cleanBehind roots
  | _ => []

/-- **No operation makes a job clean**, and only reviving takes one out of the clean
state. -/
theorem isClean_apply {s : Scheduler} (hs : s.Sound) (hg : s.plan.graph.WellFormed)
    (op : Operation) (j : JobId) :
    (s.apply op).isClean j ↔ s.isClean j ∧ j ∉ s.revivedBy op := by
  have hnone : s.isClean j ↔ s.isClean j ∧ j ∉ ([] : List JobId) :=
    (and_iff_left List.not_mem_nil).symm
  cases op with
  | dispatch limit => exact ((handedOut_dispatch limit hs).isClean_iff j).trans hnone
  | complete id outcome =>
    by_cases h : s.stateOf? id = some .running
    · exact ((ended_complete hs outcome h).isClean_iff h j).trans hnone
    · rw [apply, complete_of_not_running outcome h]
      exact hnone
  | revive roots => exact (revived_revive hs hg roots).isClean_iff j
  | cancel => exact hnone
  | finalize =>
    refine Iff.trans ?_ hnone
    show s.finalize.1.stateOf? j = _ ↔ s.stateOf? j = _
    rw [stateOf?_finalize]
    cases s.stateOf? j with
    | none => simp
    | some state => cases state <;> simp

/-- **Each operation keeps clean jobs from waiting for others.** What is clean behind a
revived job is revived too. -/
theorem Followed.apply {s : Scheduler} (h : s.Followed) (hs : s.Sound)
    (hg : s.plan.graph.WellFormed) (op : Operation) : (s.apply op).Followed := by
  intro before hbefore after hafter hp hm hclean
  rw [plan_apply hs hg op] at hbefore hafter
  obtain ⟨hafterClean, hnot⟩ := (isClean_apply hs hg op after.id).1 hclean
  have hbeforeClean := h before hbefore after hafter hp hm hafterClean
  refine (isClean_apply hs hg op before.id).2 ⟨hbeforeClean, fun hr => hnot ?_⟩
  cases op with
  | revive roots =>
    -- If the prerequisite is revived, so is all that is clean behind it.
    exact cleanBehind_closed hs hr (JobGraph.mem_dependentsOf.2 ⟨after, hafter, rfl, hp⟩)
      hafterClean
  | _ => exact absurd hr List.not_mem_nil

theorem Followed.applyAll (ops : List Operation) {s : Scheduler} (h : s.Followed)
    (hs : s.Counted) (hg : s.plan.graph.WellFormed) : (s.applyAll ops).Followed := by
  induction ops generalizing s with
  | nil => exact h
  | cons op rest ih =>
    exact ih (h.apply hs.sound hg op) (hs.apply hg op) ((plan_apply hs.sound hg op).symm ▸ hg)

theorem isClean_of_applyAll {s : Scheduler} (hs : s.Counted) (hg : s.plan.graph.WellFormed)
    (ops : List Operation) {j : JobId} (h : (s.applyAll ops).isClean j) : s.isClean j := by
  induction ops generalizing s with
  | nil => exact h
  | cons op rest ih =>
    have hplan := plan_apply hs.sound hg op
    exact ((isClean_apply hs.sound hg op j).1 (ih (hs.apply hg op) (hplan.symm ▸ hg) h)).1

/-- Reviving nothing changes nothing. -/
@[simp] theorem revive_nil (s : Scheduler) : (s.revive []).1 = s := by
  have hnone : s.plan.graph.topologicalOrder.filter (s.cleanBehind []).contains = [] := by
    rw [cleanBehind_nil]
    exact List.filter_eq_nil_iff.2 fun j _ => by simp
  unfold revive
  dsimp only
  rw [hnone]
  rfl

/-- A cancelled scheduler hands out nothing. -/
theorem dispatch_cancel (s : Scheduler) (limit : Nat) :
    s.cancel.dispatch limit = (s.cancel, []) := by
  unfold dispatch
  exact if_pos (Bool.or_true _)

end Scheduler

/-! ## What is asked of a core -/

/-- Something that is asked of a core: to hand out jobs, or to handle an event while an
observer listens. -/
inductive CoreCall (σ : Type) where
  | begin
  | tell (observe : Observer σ) (event : RuntimeEvent)

/-- **A core and what has become of it**: with the state of the observers and all jobs
that were handed out, in that order. -/
structure CoreHistory (σ : Type) where
  core : Core
  observed : σ
  dispatched : List JobId

section History

variable {σ : Type}

/-- Whether a call tells a core of the success of a job that its plan does not have, so that
the core breaks off. -/
def CoreCall.Strays (plan : BuildPlan) : CoreCall σ → Prop
  | .tell _ (.jobFinished id .succeeded) => plan.graph.size ≤ id
  | _ => False

theorem CoreCall.strays_iff {plan : BuildPlan} (call : CoreCall σ) :
    call.Strays plan ↔ ∃ observe id, call = .tell observe (.jobFinished id .succeeded) ∧
      plan.graph.size ≤ id := by
  constructor
  · intro hstrays
    match call, hstrays with
    | .tell observe (.jobFinished id .succeeded), hid => exact ⟨observe, id, rfl, hid⟩
  · rintro ⟨observe, id, rfl, hid⟩
    exact hid

/-- Nothing strays that tells the end of no job but one of the plan. -/
theorem CoreCall.not_strays_tell {plan : BuildPlan} {observe : Observer σ} {event : RuntimeEvent}
    (h : ∀ id ∈ event.finished?, id < plan.graph.size) :
    ¬ (CoreCall.tell observe event).Strays plan := by
  rw [strays_iff]
  rintro ⟨_, id, hcall, hid⟩
  obtain ⟨-, rfl⟩ := CoreCall.tell.inj hcall
  exact Nat.not_lt.2 hid (h id rfl)

/-- What a call makes the scheduler of a core do before jobs are handed out. -/
def CoreCall.prelude (c : Core) (observed : σ) : CoreCall σ → List Scheduler.Operation
  | .begin => []
  | .tell _ .cancelRequested => [.cancel]
  | .tell observe (.jobFinished id outcome) =>
    [.complete id outcome,
      .revive (Core.answer observe c.scheduler.plan.graph observed id outcome).2]

namespace CoreHistory

/-- Nothing has been asked yet. -/
def start (plan : BuildPlan) (policy : FailurePolicy) (concurrency : Nat) (observed : σ) :
    CoreHistory σ :=
  ⟨.ofPlan plan policy concurrency, observed, []⟩

/-- A history and one more call. -/
def call (h : CoreHistory σ) : CoreCall σ → CoreHistory σ
  | .begin =>
    let (core, step) := h.core.dispatch
    ⟨core, h.observed, h.dispatched ++ step.dispatched⟩
  | .tell observe event =>
    let (core, observed, step) := h.core.handle observe h.observed event
    ⟨core, observed, h.dispatched ++ step.dispatched⟩

/-- A history and some more calls. -/
def after (h : CoreHistory σ) (calls : List (CoreCall σ)) : CoreHistory σ :=
  calls.foldl call h

/-- A core that breaks off is left as it was. -/
theorem call_of_strays {h : CoreHistory σ} {call : CoreCall σ}
    (hstrays : call.Strays h.core.scheduler.plan) : h.call call = h := by
  obtain ⟨observe, id, rfl, hid⟩ := call.strays_iff.1 hstrays
  unfold CoreHistory.call Core.handle
  dsimp only
  rw [JobGraph.job?_eq_none_iff.2 hid]
  show CoreHistory.mk h.core h.observed (h.dispatched ++ []) = h
  rw [List.append_nil]

/-- **What any other call does**: the scheduler goes through the operations of the call, and
then jobs are handed out. -/
theorem call_spec (h : CoreHistory σ) {call : CoreCall σ}
    (hknown : ¬ call.Strays h.core.scheduler.plan) :
    (h.call call).core.scheduler
        = ((h.core.scheduler.applyAll (call.prelude h.core h.observed)).dispatch
            h.core.concurrency).1
      ∧ (h.call call).core.concurrency = h.core.concurrency
      ∧ (h.call call).dispatched = h.dispatched
          ++ ((h.core.scheduler.applyAll (call.prelude h.core h.observed)).dispatch
            h.core.concurrency).2 := by
  cases call with
  | begin => exact ⟨rfl, rfl, rfl⟩
  | tell observe event =>
    cases event with
    | cancelRequested =>
      -- The core hands out nothing here, and a cancelled scheduler has nothing to hand out.
      have hcancel := Scheduler.dispatch_cancel h.core.scheduler h.core.concurrency
      show _ = (h.core.scheduler.cancel.dispatch _).1 ∧ _ ∧
        _ = _ ++ (h.core.scheduler.cancel.dispatch _).2
      rw [hcancel]
      exact ⟨rfl, rfl, rfl⟩
    | jobFinished id outcome =>
      have hrevive (roots : List JobId) : h.core.scheduler.applyAll
          [.complete id outcome, .revive roots]
          = ((h.core.scheduler.complete id outcome).1.revive roots).1 := rfl
      -- Where nobody is asked or nothing is answered, reviving nothing stands for it.
      unfold CoreHistory.call CoreCall.prelude Core.handle Core.answer
      dsimp only
      rw [hrevive]
      cases outcome with
      | failed kind =>
        rw [Scheduler.revive_nil]
        exact ⟨rfl, rfl, rfl⟩
      | succeeded =>
        obtain ⟨job, hjob⟩ := JobGraph.exists_job?_of_lt (Nat.not_le.1 hknown)
        rw [hjob]
        dsimp only
        split
        · rename_i hroots
          rw [List.isEmpty_iff.1 hroots, Scheduler.revive_nil]
          exact ⟨rfl, rfl, rfl⟩
        · exact ⟨rfl, rfl, rfl⟩

/-- **What holds in every history**: the books are in order, no clean job waits for one
that is not clean, and what was handed out is not clean. -/
structure Sound (h : CoreHistory σ) (plan : BuildPlan) : Prop where
  plan_eq : h.core.scheduler.plan = plan
  counted : h.core.scheduler.Counted
  followed : h.core.scheduler.Followed
  not_clean : ∀ id ∈ h.dispatched, ¬ h.core.scheduler.isClean id

theorem sound_start {plan : BuildPlan} (hg : plan.graph.WellFormed) (hplan : plan.Closed)
    (policy : FailurePolicy) (concurrency : Nat) (observed : σ) :
    (start plan policy concurrency observed).Sound plan where
  plan_eq := rfl
  counted := Scheduler.counted_start plan policy
  followed := Scheduler.followed_start hg hplan policy
  not_clean _ h := absurd h List.not_mem_nil

/-- **A call keeps a history sound.** -/
theorem Sound.call {h : CoreHistory σ} {plan : BuildPlan} (hh : h.Sound plan)
    (hg : plan.graph.WellFormed) (call : CoreCall σ) : (h.call call).Sound plan := by
  obtain ⟨hplan, hs, hfollowed, hnot⟩ := hh
  subst hplan
  by_cases hstrays : call.Strays h.core.scheduler.plan
  · rw [call_of_strays hstrays]
    exact ⟨rfl, hs, hfollowed, hnot⟩
  obtain ⟨hscheduler, -, hdispatched⟩ := h.call_spec hstrays
  let ops := call.prelude h.core h.observed
  obtain ⟨hcounted, hplan⟩ := Scheduler.Balanced.applyAll ops hs hg
  have hgraph : (h.core.scheduler.applyAll ops).plan.graph.WellFormed := hplan.symm ▸ hg
  have hout := Scheduler.handedOut_dispatch h.core.concurrency hcounted.sound
  refine ⟨?_, ?_, ?_, fun id hid => ?_⟩
  · rw [hscheduler, hout.plan_eq, hplan]
  · rw [hscheduler]
    exact hcounted.dispatch _
  · rw [hscheduler]
    exact (hfollowed.applyAll ops hs hg).apply hcounted.sound hgraph (.dispatch _)
  · rw [hscheduler, hout.isClean_iff]
    rw [hdispatched] at hid
    rcases List.mem_append.1 hid with hid | hid
    · exact fun hc => hnot id hid (Scheduler.isClean_of_applyAll hs hg ops hc)
    · intro hc
      have hp := hout.was_pending id hid
      rw [Scheduler.isClean, hp] at hc
      cases hc

theorem Sound.after {plan : BuildPlan} (hg : plan.graph.WellFormed) (calls : List (CoreCall σ))
    {h : CoreHistory σ} (hh : h.Sound plan) : (h.after calls).Sound plan := by
  induction calls generalizing h with
  | nil => exact hh
  | cons call rest ih => exact ih (hh.call hg call)

end CoreHistory

/-- **What waits for a job that has to be done has to be done too**, at any time of any
history and when it has ended. So what waits for a job that was handed out is not
reported as skipped. -/
theorem CoreHistory.not_clean_behind {φ : Type} [FileSystem φ] {g : JobGraph}
    (hg : g.WellFormed) (c : Changes) (fs : φ) (policy : FailurePolicy) (concurrency : Nat)
    (observed : σ) (calls : List (CoreCall σ)) {before after : Job} (hbefore : before ∈ g.jobs)
    (hafter : after ∈ g.jobs) (hp : before.id ∈ after.prerequisites.toList)
    (hm : before.isModuleBuild = false) :
    let h := (CoreHistory.start (g.prune c fs) policy concurrency observed).after calls
    (h.core.scheduler.stateOf? before.id ≠ some .clean →
        h.core.scheduler.stateOf? after.id ≠ some .clean)
      ∧ (h.core.finish.stateOf? before.id ≠ some .clean →
        h.core.finish.stateOf? after.id ≠ some .clean)
      ∧ (before.id ∈ h.dispatched → h.core.finish.statusOf? after.id ≠ some .skipped) := by
  intro h
  have hh : h.Sound (g.prune c fs) := Sound.after hg calls
    (sound_start hg (JobGraph.closed_prune hg c fs) policy concurrency observed)
  have hplan := hh.plan_eq
  have hgraph : h.core.scheduler.plan.graph.WellFormed := hplan.symm ▸ hg
  have hkeep {s : Scheduler} (hs : s.Followed) (he : s.plan = g.prune c fs) :
      s.stateOf? before.id ≠ some .clean → s.stateOf? after.id ≠ some .clean :=
    mt (hs before (he.symm ▸ hbefore) after (he.symm ▸ hafter) hp hm)
  have hfinish := hkeep (hh.followed.apply hh.counted.sound hgraph .finalize) hplan
  have hclean (id : JobId) : h.core.finish.isClean id ↔ h.core.scheduler.isClean id :=
    (Scheduler.isClean_apply hh.counted.sound hgraph .finalize id).trans
      (and_iff_left List.not_mem_nil)
  refine ⟨hkeep hh.followed hplan, hfinish, fun hd hskip => ?_⟩
  exact hfinish (fun hc => hh.not_clean before.id hd ((hclean before.id).1 hc))
    (Scheduler.statusOf?_eq_skipped_iff.1 hskip)

/-! ### The history of a course -/

section Told

variable {ω : Type} {env : Environment ω} {observe : WorldObserver ω σ} {plan : BuildPlan}
  {policy : FailurePolicy} {concurrency : Nat} {world : ω} {observed : σ}
  {told : List (Told ω)} {e : Execution ω σ}

/-- What becomes of a core that begins and is then told of some events, each of them in the
world at that time. -/
def CoreHistory.ofTold (observe : WorldObserver ω σ) (plan : BuildPlan) (policy : FailurePolicy)
    (concurrency : Nat) (observed : σ) (told : List (Told ω)) : CoreHistory σ :=
  (start plan policy concurrency observed).after
    (.begin :: told.map fun t => .tell (observe t.world) t.event)

theorem CoreHistory.ofTold_concat (told : List (Told ω)) (t : Told ω) :
    ofTold observe plan policy concurrency observed (told ++ [t])
      = (ofTold observe plan policy concurrency observed told).call
          (.tell (observe t.world) t.event) := by
  unfold ofTold after
  rw [List.map_append, ← List.cons_append, List.foldl_append]
  rfl

/-- **An execution stands where the history of its core ends.** -/
theorem Course.history
    (h : Course env observe (.start plan policy concurrency world observed) told e) :
    (CoreHistory.ofTold observe plan policy concurrency observed told).core = e.core ∧
      (CoreHistory.ofTold observe plan policy concurrency observed told).observed
        = e.observed := by
  induction h with
  | start => exact ⟨rfl, rfl⟩
  | settle _ _ _ _ ih => exact ih
  | cancel _ ih => exact ih
  | drift _ _ ih => exact ih
  | handle _ _ _ ih =>
    rw [CoreHistory.ofTold_concat]
    unfold CoreHistory.call
    rw [ih.1, ih.2]
    exact ⟨rfl, rfl⟩

theorem CoreHistory.sound_ofTold (hg : plan.graph.WellFormed) (hplan : plan.Closed) :
    (ofTold observe plan policy concurrency observed told).Sound plan :=
  Sound.after hg _ (sound_start hg hplan policy concurrency observed)

end Told

/-! In the diamond the job on the right is stale, and the end of it revives the job on the
left, which nothing was to be done about. -/

namespace Scheduler.Diamond

/-- The right side is unfinished. -/
def changes : Changes := ⟨∅, OrderedSet.ofList [⟨"right"⟩], ∅⟩

/-- The left side is asked for when any other job has succeeded. -/
def calls : List (CoreCall Unit) :=
  [.begin, .tell (fun _ _ => ((), [1])) (.jobFinished 2 .succeeded)]

end Scheduler.Diamond

open Scheduler.Diamond in
theorem CoreHistory.not_clean_behind_diamond :
    let h := (CoreHistory.start (graph.prune changes MemoryFiles.empty) .continueOnFailure 2
      ()).after calls
    job 1 "left" [0] ∈ graph.jobs ∧ job 3 "bottom" [1, 2] ∈ graph.jobs
      ∧ (job 1 "left" [0]).id ∈ (job 3 "bottom" [1, 2]).prerequisites.toList
      ∧ (job 1 "left" [0]).isModuleBuild = false
      ∧ h.dispatched = [2, 1] ∧ h.core.finish.statusOf? 3 ≠ some .skipped := by
  intro h
  have hleft : job 1 "left" [0] ∈ graph.jobs := by simp [graph]
  have hbottom : job 3 "bottom" [1, 2] ∈ graph.jobs := by simp [graph]
  have hp : (job 1 "left" [0]).id ∈ (job 3 "bottom" [1, 2]).prerequisites.toList := by decide
  have hdispatched : h.dispatched = [2, 1] := by decide +kernel
  obtain ⟨-, -, hskip⟩ := not_clean_behind graph_wellFormed changes MemoryFiles.empty
    .continueOnFailure 2 () calls hleft hbottom hp rfl
  exact ⟨hleft, hbottom, hp, rfl, hdispatched,
    hskip (hdispatched.symm ▸ List.mem_cons_of_mem _ List.mem_cons_self)⟩

end History

end IncrementalBuild
