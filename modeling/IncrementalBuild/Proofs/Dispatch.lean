import IncrementalBuild.Proofs.Revival

/-!
# What is handed out stands behind done jobs

A job is ready when none of its prerequisites is still to be done. That says nothing of how
they have ended, so what keeps a job from being handed out behind a failure is that no job
stays pending there: whatever makes a job fail or blocks it also blocks the pending jobs
that wait for it.

One operation does less. A revived job that stands behind a failure is blocked, but the
jobs that wait for it were blocked only if they were clean too. A job that is pending
already stays so, and is handed out. Apart from such revivals the scheduler hands out
nothing before all that it waits for is left as it is or has succeeded.
-/

namespace IncrementalBuild

/-- Prerequisites are jobs of lower rank. -/
theorem JobGraph.WellFormed.exists_rank {g : JobGraph} (hg : g.WellFormed) :
    ∃ rank : JobId → Nat, ∀ j, ∀ p ∈ g.prerequisitesOf j, p < g.size ∧ rank p < rank j := by
  obtain ⟨rank, hrank⟩ := hg.ranked
  refine ⟨rank, fun j p hp => ?_⟩
  obtain ⟨job, hjob, hlisted⟩ := mem_prerequisitesOf.1 hp
  obtain ⟨hmem, rfl⟩ := hg.job?_eq_some_iff.1 hjob
  exact hrank job hmem p hlisted

/-- A prerequisite is a job of the graph. -/
theorem JobGraph.WellFormed.lt_size_of_mem_prerequisitesOf {g : JobGraph} (hg : g.WellFormed)
    {j p : JobId} (h : p ∈ g.prerequisitesOf j) : p < g.size := by
  obtain ⟨rank, hrank⟩ := hg.exists_rank
  exact (hrank j p h).1

namespace Scheduler

/-- **A done job**: it is left as it is, or it has succeeded. -/
def isDone (s : Scheduler) (id : JobId) : Prop :=
  s.stateOf? id = some .clean ∨ s.stateOf? id = some .succeeded

/-- **No pending job waits for one that keeps it from ever running.** -/
def Unspoilt (s : Scheduler) : Prop :=
  ∀ j, s.stateOf? j = some .pending → ∀ p ∈ s.plan.graph.prerequisitesOf j, s.poisons p = false

section States

variable {s : Scheduler} {p : JobId}

/-- A job is done if it is no longer to be done and keeps nothing from running. -/
theorem Sound.isDone_of (hs : s.Sound) (hp : p < s.plan.graph.size) (hopen : s.isOpen p = false)
    (hpoisons : s.poisons p = false) : s.isDone p := by
  obtain ⟨state, h⟩ := hs.exists_state hp
  rw [isOpen_of_stateOf? h] at hopen
  rw [poisons_of_stateOf? h] at hpoisons
  unfold isDone
  cases state <;> simp_all [JobState.isTerminal, JobState.poisons]

end States

/-! ## The beginning

Jobs are pending or clean at the beginning, so nothing has failed yet. -/

/-- At the beginning nothing keeps anything from running. -/
theorem poisons_start (plan : BuildPlan) (policy : FailurePolicy) (j : JobId) :
    (start plan policy).poisons j = false := by
  show ((plan.dispositions.map _).getD j JobState.clean).poisons = false
  rw [List.getD_eq_getElem?_getD, List.getElem?_map]
  cases plan.dispositions[j]? with
  | none => rfl
  | some d =>
    show (if d.isScheduled then JobState.pending else JobState.clean).poisons = false
    split <;> rfl

/-- Hence no pending job is spoilt at the beginning. -/
theorem unspoilt_start (plan : BuildPlan) (policy : FailurePolicy) :
    (start plan policy).Unspoilt :=
  fun _ _ p _ => poisons_start plan policy p

/-! ## Handing out

Handing out makes some pending jobs run. Neither state keeps anything from running, so it does not
matter here which jobs are chosen, and what a chosen job waits for is done because nothing of it is
open. -/

/-- Handing out changes nothing about what keeps jobs from running. -/
theorem HandedOut.poisons_eq {s s' : Scheduler} {ids : List JobId} (h : HandedOut s s' ids)
    (j : JobId) : s'.poisons j = s.poisons j := by
  by_cases hj : j ∈ ids
  · rw [poisons_of_stateOf? (h.is_running j hj), poisons_of_stateOf? (h.was_pending j hj)]
    rfl
  · exact poisons_congr (h.others j hj)

/-- **Handing out leaves no pending job spoilt.** -/
theorem Unspoilt.dispatch {s : Scheduler} (h : s.Unspoilt) (hs : s.Sound) (limit : Nat) :
    (s.dispatch limit).1.Unspoilt := by
  have hout := handedOut_dispatch limit hs
  intro j hj p hp
  rw [hout.plan_eq] at hp
  -- A job that was handed out runs now, so `j` was pending before and was left alone.
  have hnot : j ∉ (s.dispatch limit).2 := fun hm => by
    rw [hout.is_running j hm] at hj
    cases hj
  rw [hout.poisons_eq]
  exact h j (hout.others j hnot ▸ hj) p hp

/-- **What is handed out waits for done jobs only**, where no pending job waits for one that
keeps it from running. -/
theorem Unspoilt.isDone_of_mem_dispatch {s : Scheduler} (h : s.Unspoilt) (hs : s.Counted)
    (hg : s.plan.graph.WellFormed) {limit : Nat} {j p : JobId} (hj : j ∈ (s.dispatch limit).2)
    (hp : p ∈ s.plan.graph.prerequisitesOf j) : s.isDone p :=
  hs.sound.isDone_of (hg.lt_size_of_mem_prerequisitesOf hp) (hs.isOpen_of_mem_dispatch hj hp)
    (h j ((handedOut_dispatch limit hs.sound).was_pending j hj) p hp)

/-! ## Ends of jobs -/

/-- **The end of a job leaves no pending job behind one that keeps it from running.** What
waits for a job that is blocked with the others is behind the failure as well. -/
theorem Unspoilt.complete {s : Scheduler} (h : s.Unspoilt) (hs : s.Sound)
    (hg : s.plan.graph.WellFormed) (id : JobId) (outcome : JobOutcome) :
    (s.complete id outcome).1.Unspoilt := by
  -- An end that is told of a job that does not run is ignored.
  by_cases hrun : s.stateOf? id = some .running
  · intro j hj p hp
    rw [(ended_complete hs outcome hrun).plan_eq] at hp
    cases outcome with
    | succeeded =>
      have hstate := stateOf?_complete_succeeded hs hrun
      have hpending : s.stateOf? j = some .pending := by
        rw [hstate] at hj
        split at hj
        · cases hj
        · exact hj
      -- A success spoils nothing: the only state that changes is that of `id`, which has
      -- succeeded.
      by_cases hid : p = id
      · rw [poisons_of_stateOf? ((hstate p).trans (if_pos hid))]
        rfl
      · rw [poisons_congr ((hstate p).trans (if_neg hid))]
        exact h j hpending p hp
    | failed kind =>
      have hstate := stateOf?_complete_failed hs hrun kind
      -- A failure blocks all pending jobs behind it. So a job that is still pending is not
      -- behind `id`, and then neither is what it waits for: that has kept its state.
      have hdependent : j ∈ s.plan.graph.dependentsOf p := hg.mem_dependentsOf_iff.2 hp
      obtain ⟨hpending, hnot⟩ : s.stateOf? j = some .pending ∧
          j ∉ (s.plan.graph.transitiveDependents id).toList := by
        rw [hstate] at hj
        split at hj
        · cases hj
        split at hj
        · cases hj
        · rename_i hnot
          exact ⟨hj, fun hm => hnot ⟨hm, hj⟩⟩
      have hid : p ≠ id := fun e => hnot (hg.mem_transitiveDependents (e ▸ hdependent))
      have hahead : p ∉ (s.plan.graph.transitiveDependents id).toList := fun hm =>
        hnot (hg.transitiveDependents_closed hm hdependent)
      rw [poisons_congr ((hstate p).trans
        ((if_neg hid).trans (if_neg fun hb => hahead hb.1)))]
      exact h j hpending p hp
  · rw [complete_of_not_running outcome hrun]
    exact h

/-! ## Reviving

A job that is brought back is pending or blocked, according to what it waits for *after* the
revival. A job that was pending all along was checked before it, and the revival does not look at it
again. It can only be spoilt by a prerequisite that the revival has blocked, and this is what
`SparesPending` excludes. -/

/-- **What a revival makes of each job that it brings back**: it is pending and waits for none that
keeps it from running, or it is blocked and listed so. -/
theorem revive_cases {s : Scheduler} (hs : s.Sound) (hg : s.plan.graph.WellFormed)
    (roots : List JobId) {j : JobId} (hj : j ∈ s.cleanBehind roots) :
    ((s.revive roots).1.stateOf? j = some .pending ∧
        ∀ p ∈ s.plan.graph.prerequisitesOf j, (s.revive roots).1.poisons p = false) ∨
      (s.revive roots).1.stateOf? j = some .blocked ∧ j ∈ (s.revive roots).2.blocked := by
  obtain ⟨step, hpass, hstep⟩ := outcome_revive hs hg roots
  have hmem := (mem_filter_cleanBehind hs hg roots).2 hj
  refine (hpass.cases j hmem).imp (fun h => ⟨h.1, fun p hp => ?_⟩) fun h => ⟨h.1, ?_⟩
  · rw [spoilt_iff, (revived_revive hs hg roots).plan_eq] at h
    exact Bool.eq_false_iff.2 fun hpoison => h.2 ⟨p, hp, hpoison⟩
  · rw [hstep]
    show j ∈ step.blocked
    rw [hpass.blocked]
    exact List.mem_append_right _ (List.mem_filter.2 ⟨hmem, beq_iff_eq.2 h.1⟩)

/-- **A revival that spares the pending jobs**: none of them waits for a job that the
revival blocks. -/
def SparesPending (s : Scheduler) (roots : List JobId) : Prop :=
  ∀ b ∈ (s.revive roots).2.blocked, ∀ j ∈ s.plan.graph.dependentsOf b,
    s.stateOf? j ≠ some .pending

/-- **A revival leaves no pending job spoilt**, if it blocks nothing that a pending job waits
for. -/
theorem Unspoilt.revive {s : Scheduler} (h : s.Unspoilt) (hs : s.Sound)
    (hg : s.plan.graph.WellFormed) {roots : List JobId} (hspares : s.SparesPending roots) :
    (s.revive roots).1.Unspoilt := by
  have hrevived := revived_revive hs hg roots
  intro j hj p hp
  rw [hrevived.plan_eq] at hp
  by_cases hback : j ∈ s.cleanBehind roots
  -- A job that came back as pending has been checked.
  · have := (revive_cases hs hg roots hback).resolve_right fun hb => by
      rw [hb.1] at hj
      cases hj
    exact this.2 p hp
  · have hpending : s.stateOf? j = some .pending := hrevived.others j hback ▸ hj
    -- A job that was pending already: what it waits for came back too, or has kept its state.
    by_cases hpback : p ∈ s.cleanBehind roots
    · have := (revive_cases hs hg roots hpback).resolve_right fun hb =>
        hspares p hb.2 j (hg.mem_dependentsOf_iff.2 hp) hpending
      rw [poisons_of_stateOf? this.1]
      rfl
    · rw [poisons_congr (hrevived.others p hpback)]
      exact h j hpending p hp

/-! ## Ending -/

/-- Cancelling only raises a flag, and no state changes. -/
theorem Unspoilt.cancel {s : Scheduler} (h : s.Unspoilt) : s.cancel.Unspoilt := h

/-- Once the pending jobs are given up, none is left. -/
theorem unspoilt_finalize (s : Scheduler) : s.finalize.1.Unspoilt := by
  intro j hj
  rw [stateOf?_finalize] at hj
  cases h : s.stateOf? j with
  | none => simp [h] at hj
  | some state => cases state <;> simp [h] at hj

/-! ## Operations in any order

A step lemma for each operation, and from them the run. Operations are arbitrary here: ends may be
told of jobs that do not run, and revivals may be of any jobs, but for the condition on those that
block. -/

/-- **An operation leaves no pending job spoilt**, unless it is a revival that blocks something that
a pending job waits for. -/
theorem Unspoilt.apply {s : Scheduler} (h : s.Unspoilt) (hs : s.Sound)
    (hg : s.plan.graph.WellFormed) (op : Operation)
    (hspares : ∀ roots, op = .revive roots → s.SparesPending roots) : (s.apply op).Unspoilt := by
  cases op with
  | dispatch limit => exact h.dispatch hs limit
  | complete id outcome => exact h.complete hs hg id outcome
  | revive roots => exact h.revive hs hg (hspares roots rfl)
  | cancel => exact h.cancel
  | finalize => exact unspoilt_finalize s

/-- **No pending job is spoilt after any operations**, if the revivals among them spare the pending
jobs at the time when they are done. -/
theorem Unspoilt.applyAll (ops : List Operation) {s : Scheduler} (h : s.Unspoilt)
    (hs : s.Counted) (hg : s.plan.graph.WellFormed)
    (hspares : ∀ i roots, ops[i]? = some (.revive roots) →
      (s.applyAll (ops.take i)).SparesPending roots) :
    (s.applyAll ops).Unspoilt := by
  induction ops generalizing s with
  | nil => exact h
  | cons op rest ih =>
    -- The condition on the rest is the one on all, one place further on.
    refine ih (h.apply hs.sound hg op fun roots he => hspares 0 roots (congrArg some he))
      (hs.apply hg op) ((plan_apply hs.sound hg op).symm ▸ hg) fun i roots hi => ?_
    exact hspares (i + 1) roots hi

/-- **Whatever is handed out waits for done jobs only**, as long as no revival blocks a job
that a pending one waits for. Handing out does not touch the prerequisites, so they are
done before and after each job that is handed out. -/
theorem done_before_dispatch (plan : BuildPlan) (hg : plan.graph.WellFormed)
    (policy : FailurePolicy) (ops : List Operation)
    (hspares : ∀ i roots, ops[i]? = some (.revive roots) →
      ((start plan policy).applyAll (ops.take i)).SparesPending roots) (limit : Nat) :
    let s := (start plan policy).applyAll ops
    ∀ id ∈ (s.dispatch limit).2, ∀ p ∈ plan.graph.prerequisitesOf id,
      (s.stateOf? p = some .clean ∨ s.stateOf? p = some .succeeded) ∧
        (s.dispatch limit).1.stateOf? p = s.stateOf? p := by
  intro s id hid p hp
  obtain ⟨hs, hplan⟩ : s.Counted ∧ s.plan = plan :=
    Balanced.applyAll ops (counted_start plan policy) hg
  have hunspoilt : s.Unspoilt :=
    (unspoilt_start plan policy).applyAll ops (counted_start plan policy) hg hspares
  have hdone : s.isDone p :=
    hunspoilt.isDone_of_mem_dispatch hs (hplan.symm ▸ hg) hid (hplan.symm ▸ hp)
  have hout := handedOut_dispatch limit hs.sound
  -- What is handed out was pending, and `p` is done. So `p` is not handed out along with `id`,
  -- and keeps its state.
  refine ⟨hdone, hout.others p fun hm => ?_⟩
  have hpending := hout.was_pending p hm
  unfold isDone at hdone
  simp [hpending] at hdone

/-! In the diamond the right side is revived while the left side runs. The bottom is handed
out when both have succeeded. -/

namespace Diamond

/-- Both sides are done, one of them after a revival. -/
def rounds : List Operation :=
  [.dispatch 8, .complete 0 .succeeded, .revive [2], .dispatch 8, .complete 1 .succeeded,
    .complete 2 .succeeded]

/-- The right side is not behind a failure, so nothing is blocked. -/
theorem spares_rounds (i : Nat) (roots : List JobId) (h : rounds[i]? = some (.revive roots)) :
    ((start plan .continueOnFailure).applyAll (rounds.take i)).SparesPending roots := by
  match i with
  | 2 =>
    cases h
    have hnone : (((start plan .continueOnFailure).applyAll (rounds.take 2)).revive [2]).2.blocked
        = [] := by decide +kernel
    intro b hb
    rw [hnone] at hb
    exact absurd hb List.not_mem_nil
  | 0 | 1 | 3 | 4 | 5 => cases h
  | n + 6 => cases h

end Diamond

/-- Behind these rounds the bottom is handed out, and both sides are done. -/
theorem done_before_dispatch_diamond :
    let s := (start Diamond.plan .continueOnFailure).applyAll Diamond.rounds
    Diamond.plan.graph.WellFormed
      ∧ (∀ i roots, Diamond.rounds[i]? = some (.revive roots) →
          ((start Diamond.plan .continueOnFailure).applyAll (Diamond.rounds.take i)).SparesPending
            roots)
      ∧ (s.dispatch 8).2 = [3] ∧ Diamond.plan.graph.prerequisitesOf 3 = [1, 2]
      ∧ ∀ p ∈ [1, 2], s.stateOf? p = some .clean ∨ s.stateOf? p = some .succeeded := by
  intro s
  have hout : (s.dispatch 8).2 = [3] := by decide +kernel
  have hpre : Diamond.plan.graph.prerequisitesOf 3 = [1, 2] := by decide +kernel
  refine ⟨Diamond.graph_wellFormed, Diamond.spares_rounds, hout, hpre, fun p hp => ?_⟩
  exact (done_before_dispatch Diamond.plan Diamond.graph_wellFormed .continueOnFailure
    Diamond.rounds Diamond.spares_rounds 8 3 (by rw [hout]; decide) p (hpre.symm ▸ hp)).1

/-! Three jobs in a row. The first fails while the others are clean; the last is revived, and
then the one between them, which is blocked. -/

namespace Row

/-- Each job waits for the one before it. -/
def graph : JobGraph :=
  ⟨[Diamond.job 0 "first" [], Diamond.job 1 "second" [0], Diamond.job 2 "third" [1]]⟩

/-- The row is accepted as a graph. -/
theorem graph_wellFormed : graph.WellFormed :=
  JobGraph.wellFormed_of_isOk (by decide +kernel)

/-- The plan that schedules the first job only. -/
def plan : BuildPlan := .cleanWhere graph [1, 2].contains

/-- The first job fails. Then the third is revived and becomes pending, and last the second, which
is blocked. -/
def operations : List Operation :=
  [.dispatch 8, .complete 0 (.failed (.exit 1)), .revive [2], .revive [1]]

end Row

/-- **A job is handed out behind a blocked one** where a revival blocks a job that a pending
one waits for. -/
theorem exists_dispatched_behind_blocked :
    ∃ (plan : BuildPlan) (policy : FailurePolicy) (ops : List Operation) (limit id p : Nat),
      let s := (start plan policy).applyAll ops
      plan.graph.WellFormed ∧ id ∈ (s.dispatch limit).2 ∧ p ∈ plan.graph.prerequisitesOf id
        ∧ s.stateOf? p = some .blocked :=
  ⟨Row.plan, .continueOnFailure, Row.operations, 8, 2, 1, Row.graph_wellFormed,
    by decide +kernel, by decide +kernel, by decide +kernel⟩

end Scheduler

end IncrementalBuild
