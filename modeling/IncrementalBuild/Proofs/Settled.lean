import IncrementalBuild.Proofs.Dispatch
import IncrementalBuild.Proofs.Run

/-!
# Runs without revivals

Where no observer asks for anything, an event takes jobs one way only: from pending over
running to an end, or from pending to blocked. The states then explain each other at any
time. What has started stands behind done jobs, and what is behind a failed job is not
pending. A blocked job is behind a failed one, and what is clean is what was not scheduled.

In a plan that schedules all that waits for a scheduled job, everything behind a failed job
is blocked: a job there is not clean, as the failed one was scheduled; it is not pending;
and it has not started, since what it waits for is not done.
-/

namespace IncrementalBuild

/-- An observer that never asks for anything. -/
def Quiet {ω σ : Type} (observe : WorldObserver ω σ) : Prop :=
  ∀ world observed job, (observe world observed job).2 = []

/-- **A saturated plan**: what waits for a scheduled job is scheduled. -/
def BuildPlan.Saturated (plan : BuildPlan) : Prop :=
  ∀ p j, p ∈ plan.graph.prerequisitesOf j → (plan.disposition p).isScheduled = true →
    (plan.disposition j).isScheduled = true

namespace Scheduler

/-- What an event does to a scheduler where nothing is revived. -/
def learn (s : Scheduler) : RuntimeEvent → Scheduler
  | .cancelRequested => s.cancel
  | .jobFinished id outcome => (s.complete id outcome).1

/-- **How the states explain each other** where nothing is revived. -/
structure Settled (s : Scheduler) : Prop where
  counted : s.Counted
  /-- What has started waits for done jobs only. -/
  grounded : ∀ j, s.hasStarted j → ∀ p ∈ s.plan.graph.prerequisitesOf j, s.isDone p
  /-- Nothing behind a failure is pending. -/
  cleared : ∀ r, s.stateOf? r = some .failed →
    ∀ j ∈ (s.plan.graph.transitiveDependents r).toList, s.stateOf? j ≠ some .pending
  /-- What is blocked is behind a failure. -/
  blamed : ∀ j, s.stateOf? j = some .blocked →
    ∃ r, s.stateOf? r = some .failed ∧ j ∈ (s.plan.graph.transitiveDependents r).toList
  not_cancelled : ∀ j, s.stateOf? j ≠ some .cancelled
  clean_iff : ∀ j < s.plan.graph.size,
    s.isClean j ↔ (s.plan.disposition j).isScheduled = false

/-- At the beginning nothing has started, and nothing is blocked. -/
theorem settled_start (plan : BuildPlan) (policy : FailurePolicy) :
    (start plan policy).Settled where
  counted := counted_start plan policy
  grounded j hj := absurd hj fun h => h.elim (stateOf?_start_ne (by decide) (by decide))
    fun h => h.elim (stateOf?_start_ne (by decide) (by decide))
      (stateOf?_start_ne (by decide) (by decide))
  cleared r hr := absurd hr (stateOf?_start_ne (by decide) (by decide))
  blamed j hj := absurd hj (stateOf?_start_ne (by decide) (by decide))
  not_cancelled j := stateOf?_start_ne (by decide) (by decide)
  clean_iff j hj := isClean_start policy hj

section Settled

variable {s s' : Scheduler} {j p r : JobId}

theorem not_isDone (hp : s.stateOf? p = some .failed ∨ s.stateOf? p = some .blocked) :
    ¬ s.isDone p := by
  unfold isDone
  cases hp with
  | inl hp => simp [hp]
  | inr hp => simp [hp]

/-- What waits for a failed or a blocked job is not pending. -/
theorem Settled.not_pending (hs : s.Settled) (hg : s.plan.graph.WellFormed)
    (hp : s.stateOf? p = some .failed ∨ s.stateOf? p = some .blocked)
    (hj : p ∈ s.plan.graph.prerequisitesOf j) : s.stateOf? j ≠ some .pending := by
  have hdependent : j ∈ s.plan.graph.dependentsOf p := hg.mem_dependentsOf_iff.2 hj
  cases hp with
  | inl hfailed => exact hs.cleared p hfailed j (hg.mem_transitiveDependents hdependent)
  | inr hblocked =>
    obtain ⟨r, hr, hmem⟩ := hs.blamed p hblocked
    exact hs.cleared r hr j (hg.transitiveDependents_closed hmem hdependent)

theorem Settled.unspoilt (hs : s.Settled) (hg : s.plan.graph.WellFormed) : s.Unspoilt := by
  intro j hj p hp
  obtain ⟨state, hstate⟩ := hs.counted.sound.exists_state (hg.lt_size_of_mem_prerequisitesOf hp)
  rw [poisons_of_stateOf? hstate]
  cases state with
  | failed => exact absurd hj (hs.not_pending hg (.inl hstate) hp)
  | blocked => exact absurd hj (hs.not_pending hg (.inr hstate) hp)
  | cancelled => exact absurd hstate (hs.not_cancelled p)
  | clean | pending | running | succeeded => rfl

/-- Where a job can stand. -/
theorem Settled.cases (hs : s.Settled) (hj : j < s.plan.graph.size) :
    s.isClean j ∨ s.stateOf? j = some .pending ∨ s.stateOf? j = some .blocked ∨
      s.hasStarted j := by
  obtain ⟨state, hstate⟩ := hs.counted.sound.exists_state hj
  have hnotCancelled := hs.not_cancelled j
  unfold isClean hasStarted hasEnded
  cases state <;> simp_all

/-- In a saturated plan what waits for a failed or a blocked job is blocked: the job that it
waits for was scheduled and is not done. -/
theorem Settled.blocked_of_mem (hs : s.Settled) (hg : s.plan.graph.WellFormed)
    (hplan : s.plan.Saturated) (hp : s.stateOf? p = some .failed ∨ s.stateOf? p = some .blocked)
    (hj : j ∈ s.plan.graph.dependentsOf p) : s.stateOf? j = some .blocked := by
  have hwaits := hg.mem_dependentsOf_iff.1 hj
  have hsize := hg.lt_size_of_mem_dependentsOf hj
  have hnotDone := not_isDone hp
  have hscheduled : (s.plan.disposition p).isScheduled = true := by
    by_contra hnot
    exact hnotDone (.inl ((hs.clean_iff p (hg.lt_size_of_mem_prerequisitesOf hwaits)).2
      (Bool.eq_false_iff.2 hnot)))
  have hnotClean : ¬ s.isClean j := fun hc => by
    have := (hs.clean_iff j hsize).1 hc
    rw [hplan p j hwaits hscheduled] at this
    cases this
  have hnotPending := hs.not_pending hg hp hwaits
  have hnotStarted : ¬ s.hasStarted j := fun hstarted =>
    hnotDone (hs.grounded j hstarted p hwaits)
  exact (((hs.cases hsize).resolve_left hnotClean).resolve_left hnotPending).resolve_right
    hnotStarted

/-- **In a saturated plan everything behind a failed job is blocked**, and waits for a job
that failed or is blocked itself. -/
theorem Settled.blocked_behind (hs : s.Settled) (hg : s.plan.graph.WellFormed)
    (hplan : s.plan.Saturated) (hr : s.stateOf? r = some .failed) :
    ∀ j ∈ (s.plan.graph.transitiveDependents r).toList, s.stateOf? j = some .blocked ∧
      ∃ p ∈ s.plan.graph.prerequisitesOf j,
        s.stateOf? p = some .failed ∨ s.stateOf? p = some .blocked := by
  refine JobGraph.transitiveDependents_induction (fun d hd => ?_) fun d j hd hj => ?_
  · exact ⟨hs.blocked_of_mem hg hplan (.inl hr) hd, r, hg.mem_dependentsOf_iff.1 hd, .inl hr⟩
  · exact ⟨hs.blocked_of_mem hg hplan (.inr hd.1) hj, d, hg.mem_dependentsOf_iff.1 hj, .inr hd.1⟩

/-! ## What an event keeps -/

theorem HandedOut.isDone_iff {ids : List JobId} (h : HandedOut s s' ids) :
    s'.isDone j ↔ s.isDone j := by
  unfold isDone
  rw [h.stateOf?_iff (by decide) (by decide), h.stateOf?_iff (by decide) (by decide)]

/-- **Handing out keeps the states settled.** What is handed out waits for done jobs. -/
theorem Settled.dispatch (hs : s.Settled) (hg : s.plan.graph.WellFormed) (limit : Nat) :
    (s.dispatch limit).1.Settled := by
  have hout := handedOut_dispatch limit hs.counted.sound
  have hplan := hout.plan_eq
  have hstays {j : JobId} {state : JobState} (hp : state ≠ .pending) (hr : state ≠ .running) :
      (s.dispatch limit).1.stateOf? j = some state ↔ s.stateOf? j = some state :=
    hout.stateOf?_iff hp hr
  refine ⟨hs.counted.dispatch limit, fun j hj p hp => ?_, fun r hr j hj hpending => ?_,
    fun j hj => ?_, fun j hj => ?_, fun j hj => ?_⟩
  · rw [hplan] at hp
    rw [hout.isDone_iff]
    unfold hasStarted at hj
    rw [hout.running_iff, hout.hasEnded_iff] at hj
    cases hj with
    | inr hended => exact hs.grounded j (.inr hended) p hp
    | inl hrunning =>
      cases hrunning with
      | inl hrunning => exact hs.grounded j (.inl hrunning) p hp
      | inr hnew => exact (hs.unspoilt hg).isDone_of_mem_dispatch hs.counted hg hnew hp
  · rw [hplan] at hj
    have hnot : j ∉ (s.dispatch limit).2 := fun hm => by
      rw [hout.is_running j hm] at hpending
      cases hpending
    rw [hout.others j hnot] at hpending
    exact hs.cleared r ((hstays (by decide) (by decide)).1 hr) j hj hpending
  · obtain ⟨r, hr, hmem⟩ := hs.blamed j ((hstays (by decide) (by decide)).1 hj)
    exact ⟨r, (hstays (by decide) (by decide)).2 hr, hplan.symm ▸ hmem⟩
  · exact hs.not_cancelled j ((hstays (by decide) (by decide)).1 hj)
  · rw [hplan] at hj ⊢
    exact (hout.isClean_iff j).trans (hs.clean_iff j hj)

/-- **The end of a job keeps the states settled.** A failure blocks what is pending behind
it. -/
theorem Settled.complete (hs : s.Settled) (hg : s.plan.graph.WellFormed) {id : JobId}
    (hrun : s.stateOf? id = some .running) (outcome : JobOutcome) :
    (s.complete id outcome).1.Settled := by
  have hended := ended_complete hs.counted.sound outcome hrun
  have hplan := hended.plan_eq
  -- Of running, ended, clean and cancelled jobs none changes but `id`: a failure blocks pending
  -- jobs only.
  have hstays {j : JobId} (hj : j ≠ id) {state : JobState} (hp : state ≠ .pending)
      (hb : state ≠ .blocked) :
      (s.complete id outcome).1.stateOf? j = some state ↔ s.stateOf? j = some state :=
    hended.stateOf?_iff hj hp hb
  have hne {j : JobId} {state : JobState} (hstate : state ≠ .running)
      (h : s.stateOf? j = some state) : j ≠ id := fun e =>
    hstate (Option.some.inj (h.symm.trans (e ▸ hrun)))
  have hne' {j : JobId} {state : JobState} (hs : state ≠ .succeeded) (hf : state ≠ .failed)
      (h : (s.complete id outcome).1.stateOf? j = some state) : j ≠ id := fun e =>
    outcome.state_ne hs hf (Option.some.inj (hended.ended.symm.trans (e ▸ h)))
  refine ⟨hs.counted.complete hg id outcome, fun j hj p hp => ?_, fun r hr j hj hpending => ?_,
    fun j hj => ?_, fun j hj => ?_, fun j hj => ?_⟩
  -- What has started stands on prerequisites that are done. They stay done.
  · rw [hplan] at hp
    have hstarted : s.hasStarted j := by
      by_cases hid : j = id
      · exact .inl (hid ▸ hrun)
      · unfold hasStarted hasEnded at hj ⊢
        rwa [hstays hid (by decide) (by decide), hstays hid (by decide) (by decide),
          hstays hid (by decide) (by decide)] at hj
    refine (hs.grounded j hstarted p hp).imp (fun h => ?_) fun h => ?_
    · exact (hstays (hne (by decide) h) (by decide) (by decide)).2 h
    · exact (hstays (hne (by decide) h) (by decide) (by decide)).2 h
  -- Behind a failed job nothing is pending. If the failure is that of `id`, what was pending
  -- behind it has just been blocked.
  · rw [hplan] at hj
    have hjd : j ≠ id := hne' (by decide) (by decide) hpending
    have hbefore : s.stateOf? j = some .pending := hended.was_pending hpending
    by_cases hid : r = id
    · subst hid
      cases outcome with
      | succeeded =>
        rw [hended.ended] at hr
        cases hr
      | failed kind =>
        rw [stateOf?_complete_failed hs.counted.sound hrun, if_neg hjd,
          if_pos ⟨hj, hbefore⟩] at hpending
        cases hpending
    · exact hs.cleared r ((hstays hid (by decide) (by decide)).1 hr) j hj hbefore
  -- A blocked job is behind a failed one, which is `id` for those that are blocked now.
  · rw [hplan]
    have hjd : j ≠ id := hne' (by decide) (by decide) hj
    cases outcome with
    | succeeded =>
      rw [stateOf?_complete_succeeded hs.counted.sound hrun, if_neg hjd] at hj
      obtain ⟨r, hr, hmem⟩ := hs.blamed j hj
      exact ⟨r, (hstays (hne (by decide) hr) (by decide) (by decide)).2 hr, hmem⟩
    | failed kind =>
      rw [stateOf?_complete_failed hs.counted.sound hrun, if_neg hjd] at hj
      split at hj
      · rename_i hbehind
        exact ⟨id, hended.ended, hbehind.1⟩
      · obtain ⟨r, hr, hmem⟩ := hs.blamed j hj
        exact ⟨r, (hstays (hne (by decide) hr) (by decide) (by decide)).2 hr, hmem⟩
  · have hjd : j ≠ id := hne' (by decide) (by decide) hj
    exact hs.not_cancelled j ((hstays hjd (by decide) (by decide)).1 hj)
  · rw [hplan] at hj ⊢
    exact (hended.isClean_iff hrun j).trans (hs.clean_iff j hj)

theorem Settled.cancel (hs : s.Settled) : s.cancel.Settled :=
  { hs with counted := hs.counted.cancel }

theorem plan_learn (hs : s.Sound) (event : RuntimeEvent) : (s.learn event).plan = s.plan := by
  cases event with
  | cancelRequested => rfl
  | jobFinished id outcome => exact plan_complete hs id outcome

/-- **Every event keeps the states settled** where nothing is revived. -/
theorem Settled.learn (hs : s.Settled) (hg : s.plan.graph.WellFormed) {event : RuntimeEvent}
    (hrun : ∀ id ∈ event.finished?, s.stateOf? id = some .running) :
    (s.learn event).Settled := by
  cases event with
  | cancelRequested => exact hs.cancel
  | jobFinished id outcome => exact hs.complete hg (hrun id rfl) outcome

end Settled

end Scheduler

section Quiet

variable {ω σ : Type} {observe : WorldObserver ω σ} {plan : BuildPlan} {policy : FailurePolicy}
  {concurrency : Nat} {observed : σ} {told : List (Told ω)} {h : CoreHistory σ} {step : CoreStep}

/-- What a core does with an event where nothing is revived: its scheduler learns of it, and
jobs are handed out. -/
theorem CoreHistory.call_of_quiet (hquiet : Quiet observe) (h : CoreHistory σ)
    {t : Told ω}
    (hknown : ¬ (CoreCall.tell (observe t.world) t.event).Strays h.core.scheduler.plan) :
    (h.call (.tell (observe t.world) t.event)).core.scheduler
        = ((h.core.scheduler.learn t.event).dispatch h.core.concurrency).1
      ∧ (h.call (.tell (observe t.world) t.event)).dispatched
        = h.dispatched ++ ((h.core.scheduler.learn t.event).dispatch h.core.concurrency).2 := by
  have hprelude : h.core.scheduler.applyAll
      (CoreCall.prelude h.core h.observed (.tell (observe t.world) t.event))
      = h.core.scheduler.learn t.event := by
    obtain ⟨world, event⟩ := t
    cases event with
    | cancelRequested => rfl
    | jobFinished id outcome =>
      have hanswer : (Core.answer (observe world) h.core.scheduler.plan.graph h.observed id
          outcome).2 = [] := by
        unfold Core.answer
        split
        · exact hquiet world h.observed _
        · rfl
      show ((h.core.scheduler.complete id outcome).1.revive (Core.answer (observe world)
        h.core.scheduler.plan.graph h.observed id outcome).2).1 = _
      rw [hanswer, Scheduler.revive_nil]
      rfl
  obtain ⟨hscheduler, -, hdispatched⟩ := h.call_spec hknown
  rw [hprelude] at hscheduler hdispatched
  exact ⟨hscheduler, hdispatched⟩

/-- **Runs without revivals stay settled.** -/
theorem CoreRun.settled (hg : plan.graph.WellFormed) (hquiet : Quiet observe)
    (hrun : CoreRun observe (.start plan policy concurrency observed) told h step) :
    h.core.scheduler.Settled := by
  induction hrun with
  | begin => exact (Scheduler.settled_start plan policy).dispatch hg _
  | @tell told h step t hbefore hends ih =>
    have hh := hbefore.tallied hg
    have hgraph : h.core.scheduler.plan.graph.WellFormed := hh.plan_eq.symm ▸ hg
    have hlearn := ih.learn hgraph fun id hid => (hh.running_iff id).2 (hends id hid)
    rw [(h.call_of_quiet hquiet (hh.not_strays hends)).1]
    exact hlearn.dispatch ((Scheduler.plan_learn hh.counted.sound t.event).symm ▸ hgraph) _

/-- A call that follows a failure or tells of it hands out nothing that is behind the failure. -/
theorem CoreRun.mem_dispatched_of_behind (hg : plan.graph.WellFormed) (hquiet : Quiet observe)
    (hrun : CoreRun observe (.start plan policy concurrency observed) told h step)
    {last : Told ω} {step' : CoreStep}
    (hrun' : CoreRun observe (.start plan policy concurrency observed) (told ++ [last])
      (h.call (.tell (observe last.world) last.event)) step')
    {t : Told ω} (ht : t ∈ told ++ [last]) {r : JobId} {kind : FailureKind}
    (he : t.event = .jobFinished r (.failed kind)) {j : JobId}
    (hj : j ∈ (plan.graph.transitiveDependents r).toList)
    (hd : j ∈ (h.call (.tell (observe last.world) last.event)).dispatched) :
    j ∈ h.dispatched := by
  obtain ⟨h₀, step₀, hbefore, hends, heq⟩ := hrun'.exists_before
  obtain rfl : h = h₀ := hrun.eq_ofTold.trans hbefore.eq_ofTold.symm
  have hh := hrun.tallied hg
  have hgraph : h.core.scheduler.plan.graph.WellFormed := hh.plan_eq.symm ▸ hg
  have hplan := Scheduler.plan_learn hh.counted.sound last.event
  have hlearn := (hrun.settled hg hquiet).learn hgraph fun id hid =>
    (hh.running_iff id).2 (hends id hid)
  obtain ⟨hscheduler, hdispatched⟩ := h.call_of_quiet hquiet (hh.not_strays hends)
  have hout := Scheduler.handedOut_dispatch h.core.concurrency hlearn.counted.sound
  have hfailed := hrun'.stateOf?_of_mem_told hg ht he
  rw [hscheduler] at hfailed
  rw [hdispatched] at hd
  refine (List.mem_append.1 hd).resolve_right fun hnew => ?_
  refine hlearn.cleared r ((hout.stateOf?_iff (by decide) (by decide)).1 hfailed) j ?_
    (hout.was_pending j hnew)
  rw [hplan, hh.plan_eq]
  exact hj

/-- **What is behind a failure is not handed out once the failure was told**: it is not pending
any more. So what has started there had started before. -/
theorem CoreRun.dispatched_before_failure (hg : plan.graph.WellFormed) (hquiet : Quiet observe)
    {before after : List (Told ω)} {t : Told ω} {r : JobId} {kind : FailureKind}
    (he : t.event = .jobFinished r (.failed kind))
    (hrun : CoreRun observe (.start plan policy concurrency observed) (before ++ t :: after) h step)
    {j : JobId} (hj : j ∈ (plan.graph.transitiveDependents r).toList) (hd : j ∈ h.dispatched) :
    j ∈ (CoreHistory.ofTold observe plan policy concurrency observed before).dispatched := by
  induction after using List.reverseRecOn generalizing h step with
  | nil =>
    obtain ⟨h₀, step₀, hbefore, hends, rfl⟩ := hrun.exists_before
    rw [← hbefore.eq_ofTold]
    exact hbefore.mem_dispatched_of_behind hg hquiet hrun (List.mem_append_right _
      List.mem_cons_self) he hj hd
  | append_singleton after last ih =>
    have hrun' : CoreRun observe (.start plan policy concurrency observed)
        ((before ++ t :: after) ++ [last]) h step := by
      rwa [List.append_assoc]
    obtain ⟨h₀, step₀, hbefore, hends, rfl⟩ := hrun'.exists_before
    exact ih hbefore (hbefore.mem_dispatched_of_behind hg hquiet hrun'
      (List.mem_append_left _ (List.mem_append_right _ List.mem_cons_self)) he hj hd)

end Quiet

end IncrementalBuild
