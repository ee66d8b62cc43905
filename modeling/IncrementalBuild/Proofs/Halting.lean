import IncrementalBuild.Proofs.Statuses

/-!
# Runs that are cut short

A request to stop ends the handing out of jobs, and so does a failure under the policy that
says so. What runs by then is waited for, and ends as is told. Jobs that were not handed
out are told apart by the failures among all those ends, also the ones that come after the
request: what is behind a failed job is blocked, and everything else is given up.

Once a failure has ended the handing out, only jobs that were running when it was told can
still fail, so that there are no more failures than jobs may run at once.
-/

namespace IncrementalBuild

/-- Whether an event ends the handing out of jobs. -/
def RuntimeEvent.closes (policy : FailurePolicy) (event : RuntimeEvent) : Bool :=
  event == .cancelRequested || (event.isFailure && policy == .failFast)

/-- What is closed hands out nothing. -/
theorem Scheduler.dispatch_of_closed {s : Scheduler} (h : s.isClosed = true) (limit : Nat) :
    s.dispatch limit = (s, []) := by
  unfold dispatch
  rw [if_pos h]

section Runs

variable {ω σ : Type} {observe : WorldObserver ω σ} {plan : BuildPlan} {policy : FailurePolicy}
  {concurrency : Nat} {observed : σ} {told : List (Told ω)} {h : CoreHistory σ} {step : CoreStep}

/-! ## Nothing more is handed out -/

/-- A run that was told of an event that ends the handing out is closed. -/
theorem CoreRun.isClosed (hg : plan.graph.WellFormed)
    (hrun : CoreRun observe (.start plan policy concurrency observed) told h step) {t : Told ω}
    (ht : t ∈ told) (hcloses : t.event.closes policy = true) :
    h.core.scheduler.isClosed = true := by
  obtain ⟨-, hhalted, hcancelled⟩ := Scheduler.gate_eq_iff.1 (hrun.gate_eq hg)
  unfold Scheduler.isClosed
  rw [hhalted, hcancelled, Bool.or_eq_true]
  unfold RuntimeEvent.closes at hcloses
  rw [Bool.or_eq_true, Bool.and_eq_true] at hcloses
  cases hcloses with
  | inl hcancel => exact .inr (List.any_eq_true.2 ⟨t, ht, hcancel⟩)
  | inr hfailure =>
    exact .inl (Bool.and_eq_true_iff.2 ⟨List.any_eq_true.2 ⟨t, ht, hfailure.1⟩, hfailure.2⟩)

/-- A call to a core hands out nothing if the core is closed afterwards. -/
theorem CoreHistory.dispatched_call_of_closed (h : CoreHistory σ) (call : CoreCall σ)
    (hclosed : (h.call call).core.scheduler.isClosed = true) :
    (h.call call).dispatched = h.dispatched := by
  by_cases hstrays : call.Strays h.core.scheduler.plan
  · rw [call_of_strays hstrays]
  obtain ⟨hscheduler, -, hdispatched⟩ := h.call_spec hstrays
  -- Handing out neither closes a scheduler nor opens it, so it was closed before.
  obtain ⟨-, hhalted, hcancelled⟩ := Scheduler.gate_eq_iff.1 (Scheduler.gate_dispatch
    (h.core.scheduler.applyAll (call.prelude h.core h.observed)) h.core.concurrency)
  have hbefore : (h.core.scheduler.applyAll (call.prelude h.core h.observed)).isClosed = true := by
    rw [hscheduler] at hclosed
    unfold Scheduler.isClosed at hclosed ⊢
    rwa [← hhalted, ← hcancelled]
  rw [hdispatched, Scheduler.dispatch_of_closed hbefore]
  exact List.append_nil _

/-- **From the event that ends it on nothing is handed out**, neither when the core is told of
the event nor afterwards. -/
theorem CoreRun.dispatched_eq_of_closes (hg : plan.graph.WellFormed) {before after : List (Told ω)}
    {t : Told ω} (hcloses : t.event.closes policy = true)
    (hrun : CoreRun observe (.start plan policy concurrency observed) (before ++ t :: after)
      h step) :
    h.dispatched
      = (CoreHistory.ofTold observe plan policy concurrency observed before).dispatched := by
  induction after using List.reverseRecOn generalizing h step with
  | nil =>
    have hclosed := hrun.isClosed hg (List.mem_append_right _ List.mem_cons_self) hcloses
    obtain ⟨h₀, step₀, hbefore, -, rfl⟩ := hrun.exists_before
    rw [← hbefore.eq_ofTold]
    exact h₀.dispatched_call_of_closed _ hclosed
  | append_singleton after last ih =>
    have hclosed := hrun.isClosed hg (List.mem_append_right _ List.mem_cons_self) hcloses
    have hrun' : CoreRun observe (.start plan policy concurrency observed)
        ((before ++ t :: after) ++ [last]) h step := by
      rwa [List.append_assoc]
    obtain ⟨h₀, step₀, hbefore, -, rfl⟩ := hrun'.exists_before
    rw [h₀.dispatched_call_of_closed _ hclosed, ih hbefore]

/-! ## How many jobs fail -/

/-- The beginning of a run is a run. -/
theorem CoreRun.exists_beginning {before after : List (Told ω)}
    (hrun : CoreRun observe (.start plan policy concurrency observed) (before ++ after) h step) :
    ∃ step', CoreRun observe (.start plan policy concurrency observed) before
      (.ofTold observe plan policy concurrency observed before) step' := by
  induction after using List.reverseRecOn generalizing h step with
  | nil =>
    rw [List.append_nil] at hrun
    exact ⟨step, hrun.eq_ofTold ▸ hrun⟩
  | append_singleton after last ih =>
    rw [← List.append_assoc] at hrun
    obtain ⟨h₀, step₀, hbefore, -, -⟩ := hrun.exists_before
    exact ih hbefore

/-- What has ended did so as some event told. -/
theorem CoreRun.exists_told (hg : plan.graph.WellFormed)
    (hrun : CoreRun observe (.start plan policy concurrency observed) told h step) {id : JobId}
    (hid : id ∈ endedIn told) : ∃ t ∈ told, ∃ outcome, t.event = .jobFinished id outcome ∧
      h.core.scheduler.stateOf? id = some outcome.state := by
  obtain ⟨t, ht, hfinished⟩ := List.mem_filterMap.1 hid
  obtain ⟨world, event⟩ := t
  cases event with
  | cancelRequested => cases hfinished
  | jobFinished other outcome =>
    obtain rfl : other = id := Option.some.inj hfinished
    exact ⟨_, ht, outcome, rfl, hrun.stateOf?_of_mem_told hg ht rfl⟩

/-- **Where a failure ends the handing out, what fails was running when the first failure was
told**, or no job fails. -/
theorem CoreRun.exists_running_of_failed (hg : plan.graph.WellFormed)
    (hrun : CoreRun observe (.start plan .failFast concurrency observed) told h step) :
    ∃ before step', CoreRun observe (.start plan .failFast concurrency observed) before
        (.ofTold observe plan .failFast concurrency observed before) step' ∧
      ∀ id, h.core.scheduler.stateOf? id = some .failed →
        (CoreHistory.ofTold observe plan .failFast concurrency observed
          before).core.scheduler.stateOf? id = some .running := by
  have hh := hrun.tallied hg
  -- A job that has failed was told to have failed.
  have hfailed {id : JobId} (hid : h.core.scheduler.stateOf? id = some .failed) :
      ∃ t ∈ told, t.event.isFailure = true ∧ t.event.finished? = some id := by
    obtain ⟨t, ht, outcome, he, hstate⟩ := hrun.exists_told hg ((hh.mem_ended_iff id).2 (.inr hid))
    rw [hid] at hstate
    refine ⟨t, ht, ?_, by rw [he]; rfl⟩
    rw [he]
    cases outcome with
    | succeeded => cases hstate
    | failed kind => rfl
  -- Without a failure the run can be cut at its beginning.
  cases hany : failedIn told with
  | false =>
    obtain ⟨step', hbegin⟩ :=
      CoreRun.exists_beginning (show CoreRun _ _ ([] ++ told) h step from hrun)
    refine ⟨[], step', hbegin, fun id hid => ?_⟩
    obtain ⟨t, ht, hfailure, -⟩ := hfailed hid
    exact absurd hfailure (List.any_eq_false.1 hany t ht)
  | true =>
    -- Otherwise it is cut at the first failure, which closes it: whatever fails later was handed
    -- out before.
    obtain ⟨t, before, after, hnone, htold, hfirst⟩ : ∃ t before after,
        (∀ t' ∈ before, t'.event.isFailure = false) ∧ told = before ++ t :: after ∧
          t.event.isFailure = true := by
      obtain ⟨t, hfind⟩ :=
        Option.isSome_iff_exists.1 (List.find?_isSome.2 (List.any_eq_true.1 hany))
      obtain ⟨hfailure, before, after, htold, hnone⟩ := List.find?_eq_some_iff_append.1 hfind
      exact ⟨t, before, after, fun t' ht' => by simpa using hnone t' ht', htold, hfailure⟩
    subst htold
    obtain ⟨step', hbefore⟩ := hrun.exists_beginning
    have hclosed : t.event.closes .failFast = true := by
      unfold RuntimeEvent.closes
      rw [hfirst]
      exact Bool.or_true _
    refine ⟨before, step', hbefore, fun id hid => ?_⟩
    refine ((hbefore.tallied hg).running_iff id).2 ⟨?_, fun hended => ?_⟩
    · rw [← hrun.dispatched_eq_of_closes hg hclosed]
      exact (hh.mem_iff id).2 (.inr (.inr hid))
    · -- What ended before did not fail, and ends once.
      obtain ⟨t', ht', hfailure, hfinished⟩ := hfailed hid
      have hsplit := hh.nodup_ended
      unfold endedIn at hsplit
      rw [List.filterMap_append, List.nodup_append] at hsplit
      cases List.mem_append.1 ht' with
      | inl ht' =>
        rw [hnone t' ht'] at hfailure
        cases hfailure
      | inr ht' =>
        exact hsplit.2.2 id hended id (List.mem_filterMap.2 ⟨t', ht', hfinished⟩) rfl

/-- **Where a failure ends the handing out, no more jobs fail than may run at once.** -/
theorem CoreRun.countP_failed_le (hg : plan.graph.WellFormed)
    (hrun : CoreRun observe (.start plan .failFast concurrency observed) told h step) :
    plan.graph.ids.countP (fun id => h.core.scheduler.stateOf? id == some .failed)
      ≤ max concurrency 1 := by
  obtain ⟨before, step', hbefore, hrunning⟩ := hrun.exists_running_of_failed hg
  have hb := hbefore.tallied hg
  refine le_trans (List.countP_mono_left fun id _ hid => ?_)
    (hb.plan_eq ▸ hb.counted.running_eq_countP ▸ hb.running_le)
  exact beq_iff_eq.2 (hrunning id (beq_iff_eq.1 hid))

/-! ## What becomes of each job -/

/-- **Where nothing runs any more, a job that was scheduled and was not handed out is blocked
behind a failed one and pending otherwise.** -/
theorem Scheduler.Settled.stateOf?_of_not_started {s : Scheduler} (hs : s.Settled) {id : JobId}
    (hid : id < s.plan.graph.size) (hscheduled : (s.plan.disposition id).isScheduled = true)
    (hnot : ¬ s.hasStarted id) :
    ((∃ r, s.stateOf? r = some .failed ∧ id ∈ (s.plan.graph.transitiveDependents r).toList) →
        s.stateOf? id = some .blocked)
      ∧ ((¬ ∃ r, s.stateOf? r = some .failed ∧
          id ∈ (s.plan.graph.transitiveDependents r).toList) → s.stateOf? id = some .pending) := by
  have hnotClean : ¬ s.isClean id := fun hc => by
    rw [(hs.clean_iff id hid).1 hc] at hscheduled
    cases hscheduled
  have hcases := (hs.cases hid).resolve_left hnotClean
  refine ⟨fun ⟨r, hr, hmem⟩ => ?_, fun hnone => ?_⟩
  · exact (hcases.resolve_left (hs.cleared r hr id hmem)).resolve_right hnot
  · cases hcases with
    | inl hpending => exact hpending
    | inr hrest => exact absurd (hs.blamed id (hrest.resolve_right hnot)) hnone

/-- At the end a pending job is reported as given up. -/
theorem Scheduler.statusOf?_finalize_of_pending {s : Scheduler} {id : JobId}
    (h : s.stateOf? id = some .pending) : s.finalize.1.statusOf? id = some .cancelled := by
  unfold statusOf?
  rw [stateOf?_finalize, h]
  rfl

/-- **A request to stop, or a failure under the policy that says so, ends the handing out at
once, and what runs is waited for and ends as is told.** When nothing runs any more, each job
that was scheduled stands as was told if it was handed out; if not, it is blocked behind a
failed job and given up otherwise. Where failures end the handing out there are no more of
them than jobs may run at once. -/
theorem CoreRun.cut_short (hg : plan.graph.WellFormed) (hquiet : Quiet observe)
    (hrun : CoreRun observe (.start plan policy concurrency observed) told h step) :
    (∀ before t after, told = before ++ t :: after → t.event.closes policy = true →
        h.dispatched
          = (CoreHistory.ofTold observe plan policy concurrency observed before).dispatched)
      ∧ (∀ id ∈ h.dispatched, id ∉ endedIn told →
          h.core.scheduler.stateOf? id = some .running ∧ step.keepRunning = true)
      ∧ (∀ t ∈ told, ∀ id outcome, t.event = .jobFinished id outcome →
          h.core.finish.statusOf? id = some outcome.status)
      ∧ (step.keepRunning = false → ∀ id < plan.graph.size,
          (plan.disposition id).isScheduled = true →
          (id ∈ h.dispatched → ∃ t ∈ told, ∃ outcome, t.event = .jobFinished id outcome ∧
            h.core.finish.statusOf? id = some outcome.status) ∧
          (id ∉ h.dispatched →
            (∃ r, h.core.finish.statusOf? r = some .failed ∧
              id ∈ (plan.graph.transitiveDependents r).toList) →
            h.core.finish.statusOf? id = some .blocked) ∧
          (id ∉ h.dispatched →
            (¬ ∃ r, h.core.finish.statusOf? r = some .failed ∧
              id ∈ (plan.graph.transitiveDependents r).toList) →
            h.core.finish.statusOf? id = some .cancelled))
      ∧ (policy = .failFast →
          plan.graph.ids.countP (fun id => h.core.finish.statusOf? id == some .failed)
            ≤ max concurrency 1) := by
  -- How a job is reported is its state, but for jobs that are given up at the end.
  have hh := hrun.tallied hg
  have hs := hrun.settled hg hquiet
  have hreported {id : JobId} {status : JobStatus} (hne : status ≠ .cancelled) :
      h.core.finish.statusOf? id = some status ↔ h.core.scheduler.stateOf? id = some status.state :=
    Scheduler.statusOf?_finalize_iff hne
  have houtcome {id : JobId} (outcome : JobOutcome)
      (hstate : h.core.scheduler.stateOf? id = some outcome.state) :
      h.core.finish.statusOf? id = some outcome.status := by
    refine (hreported ?_).2 (by rwa [JobOutcome.state_status])
    cases outcome with
    | succeeded => decide
    | failed kind => simp [JobOutcome.status]
  have hkeep := hrun.keepRunning_eq_false_iff hg
  refine ⟨fun before t after htold hcloses => ?_, fun id hid hnot => ?_,
    fun t ht id outcome he => houtcome outcome (hrun.stateOf?_of_mem_told hg ht he),
    fun hend id hid hscheduled => ⟨fun hd => ?_, fun hd hbehind => ?_, fun hd hnone => ?_⟩,
    fun hpolicy => ?_⟩
  -- The parts of the statement in their order: after the closing event nothing is handed out,
  -- jobs that run are waited for, their ends count, and the others are blocked, cancelled or
  -- failed.
  · subst htold
    exact hrun.dispatched_eq_of_closes hg hcloses
  · have hrunning := (hh.running_iff id).2 ⟨hid, hnot⟩
    exact ⟨hrunning, Bool.not_eq_false _ ▸ fun hend => hkeep.1 hend id hrunning⟩
  · have hended := ((hh.mem_iff id).1 hd).resolve_left (hkeep.1 hend id)
    obtain ⟨t, ht, outcome, he, hstate⟩ := hrun.exists_told hg ((hh.mem_ended_iff id).2 hended)
    exact ⟨t, ht, outcome, he, houtcome outcome hstate⟩
  · obtain ⟨r, hr, hmem⟩ := hbehind
    refine (hreported (by decide)).2 ((hs.stateOf?_of_not_started (hh.plan_eq.symm ▸ hid)
      (hh.plan_eq.symm ▸ hscheduled) (mt (hh.mem_iff id).2 hd)).1 ⟨r, ?_, hh.plan_eq.symm ▸ hmem⟩)
    exact (hreported (by decide)).1 hr
  · refine Scheduler.statusOf?_finalize_of_pending ((hs.stateOf?_of_not_started
      (hh.plan_eq.symm ▸ hid) (hh.plan_eq.symm ▸ hscheduled) (mt (hh.mem_iff id).2 hd)).2 ?_)
    rintro ⟨r, hr, hmem⟩
    exact hnone ⟨r, (hreported (by decide)).2 hr, hh.plan_eq ▸ hmem⟩
  · subst hpolicy
    refine le_trans (List.countP_mono_left fun id _ hid => ?_) (hrun.countP_failed_le hg)
    exact beq_iff_eq.2 ((hreported (by decide)).1 (beq_iff_eq.1 hid))

end Runs

/-! Two of three jobs start, and a fourth waits for the first. The first fails, somebody asks to
stop, and the second one succeeds: the third is given up, and the fourth is blocked. -/

namespace Scheduler.Abandoned

def graph : JobGraph :=
  ⟨[Diamond.job 0 "first" [], Diamond.job 1 "second" [], Diamond.job 2 "third" [],
    Diamond.job 3 "fourth" [0]]⟩

theorem graph_wellFormed : graph.WellFormed :=
  JobGraph.wellFormed_of_isOk (by decide +kernel)

/-- Nothing is done yet. -/
def plan : BuildPlan := .cleanWhere graph fun _ => false

/-- The failure that ends the handing out. -/
def failure : Told Unit := ⟨(), .jobFinished 0 (.failed (.exit 1))⟩

/-- What the core is told after the failure. -/
def rest : List (Told Unit) := [⟨(), .cancelRequested⟩, ⟨(), .jobFinished 1 .succeeded⟩]

def history : CoreHistory Unit :=
  .ofTold Diamond.silent plan .failFast 2 () (failure :: rest)

theorem run_rest : ∃ step,
    CoreRun Diamond.silent (.start plan .failFast 2 ()) (failure :: rest) history step ∧
      step.keepRunning = false :=
  ⟨_, ((CoreRun.begin.tell failure (by decide +kernel)).tell ⟨(), .cancelRequested⟩
    (by decide +kernel)).tell ⟨(), .jobFinished 1 .succeeded⟩ (by decide +kernel),
    by decide +kernel⟩

end Scheduler.Abandoned

open Scheduler.Abandoned in
theorem CoreRun.cut_short_abandoned :
    ∃ step, CoreRun Scheduler.Diamond.silent (.start plan .failFast 2 ()) (failure :: rest) history
        step
      ∧ Quiet Scheduler.Diamond.silent ∧ step.keepRunning = false
      ∧ failure.event.closes .failFast = true ∧ history.dispatched = [0, 1]
      ∧ history.dispatched
        = (CoreHistory.ofTold Scheduler.Diamond.silent plan .failFast 2 () []).dispatched
      ∧ history.core.finish.statusOf? 0 = some .failed
      ∧ history.core.finish.statusOf? 1 = some .succeeded
      ∧ history.core.finish.statusOf? 2 = some .cancelled
      ∧ history.core.finish.statusOf? 3 = some .blocked
      ∧ plan.graph.ids.countP (fun id => history.core.finish.statusOf? id == some .failed) ≤ 2 := by
  have hdispatched : history.dispatched = [0, 1] := by decide +kernel
  have hnone : ¬ ∃ r, history.core.finish.statusOf? r = some .failed ∧
      2 ∈ (plan.graph.transitiveDependents r).toList := by
    rintro ⟨r, -, hmem⟩
    have hwaits : ∀ j ∈ (plan.graph.transitiveDependents r).toList,
        ∃ p, p ∈ plan.graph.prerequisitesOf j := JobGraph.transitiveDependents_induction
      (fun d hd => ⟨r, graph_wellFormed.mem_dependentsOf_iff.1 hd⟩)
      fun d j _ hj => ⟨d, graph_wellFormed.mem_dependentsOf_iff.1 hj⟩
    obtain ⟨p, hp⟩ := hwaits 2 hmem
    cases hp
  obtain ⟨step, hrun, hend⟩ := run_rest
  obtain ⟨hnothing, -, htold, hjobs, hcount⟩ :=
    hrun.cut_short graph_wellFormed Scheduler.Diamond.quiet_silent
  have hfailed := htold failure List.mem_cons_self 0 (.failed (.exit 1)) rfl
  exact ⟨step, hrun, Scheduler.Diamond.quiet_silent, hend, by decide, hdispatched,
    hnothing [] failure rest rfl (by decide), hfailed,
    htold ⟨(), .jobFinished 1 .succeeded⟩ (by simp [rest]) 1 .succeeded rfl,
    (hjobs hend 2 (by decide) rfl).2.2 (by rw [hdispatched]; decide) hnone,
    (hjobs hend 3 (by decide) rfl).2.1 (by rw [hdispatched]; decide)
      ⟨0, hfailed, by decide +kernel⟩,
    hcount rfl⟩

end IncrementalBuild
