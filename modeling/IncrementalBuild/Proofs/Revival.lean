import IncrementalBuild.Proofs.Bookkeeping

/-!
# What a revival comes to

The clean jobs that are reached from clean roots by way of clean jobs come back into the run, and no
other job moves. Each of them is blocked if it waits for a job that keeps it from ever running, and
is pending otherwise.

What a job waits for may come back with it, so that its fate hangs on one that is settled in the
same pass. It is settled before: the pass follows the topological order, and what it finds about the
prerequisites of a job when it comes to the job is what is true of them at the end. This is why all
of the outcome, the lists included, can be told from the states at the end alone.
-/

namespace IncrementalBuild

/-- **A list of the jobs that have a property**, each once, in topological order. -/
def JobGraph.Lists (g : JobGraph) (P : JobId → Prop) (l : List JobId) : Prop :=
  l.Sublist g.topologicalOrder ∧ ∀ j, j ∈ l ↔ P j

/-- Some of the jobs in the order of the graph are listed in that order. -/
theorem JobGraph.lists_filter {g : JobGraph} {P : JobId → Prop} {ids : List JobId}
    {keep : JobId → Bool} (hids : ids.Sublist g.topologicalOrder)
    (h : ∀ j, j ∈ ids ∧ keep j = true ↔ P j) : g.Lists P (ids.filter keep) :=
  ⟨List.filter_sublist.trans hids, fun j => List.mem_filter.trans (h j)⟩

namespace Scheduler

/-- Whether a job keeps those behind it from ever running. -/
def poisons (s : Scheduler) (id : JobId) : Bool := (s.states.getD id .clean).poisons

/-- Whether a job waits for one that has failed, is blocked or was given up. -/
def Spoilt (s : Scheduler) (j : JobId) : Prop :=
  ∃ p ∈ s.plan.graph.prerequisitesOf j,
    s.stateOf? p = some .failed ∨ s.stateOf? p = some .blocked ∨ s.stateOf? p = some .cancelled

/-- Whether a job waits for one that is still to be done. -/
def Waits (s : Scheduler) (j : JobId) : Prop :=
  ∃ p ∈ s.plan.graph.prerequisitesOf j,
    s.stateOf? p = some .pending ∨ s.stateOf? p = some .running

/-- **The jobs that roots bring back**: they are clean, and reached from a clean root along jobs
that wait for one another and are clean themselves. -/
def Awoken (s : Scheduler) (roots : List JobId) (j : JobId) : Prop :=
  ∃ root ∈ roots, s.isClean root ∧
    Relation.ReflTransGen (fun p d => d ∈ s.plan.graph.dependentsOf p ∧ s.isClean d) root j

/-- **What bringing back clean jobs has to come to.** -/
structure RevivesExactly (s : Scheduler) (roots : List JobId) (s' : Scheduler)
    (step : SchedulerStep) : Prop where
  is_blocked : ∀ j, s.Awoken roots j → s'.Spoilt j → s'.stateOf? j = some .blocked
  is_pending : ∀ j, s.Awoken roots j → ¬ s'.Spoilt j → s'.stateOf? j = some .pending
  others : ∀ j, ¬ s.Awoken roots j → s'.stateOf? j = s.stateOf? j
  revived : s.plan.graph.Lists (fun j => s.Awoken roots j ∧ s'.stateOf? j = some .pending)
    step.revived
  blocked : s.plan.graph.Lists (fun j => s.Awoken roots j ∧ s'.stateOf? j = some .blocked)
    step.blocked
  ready : s.plan.graph.Lists
    (fun j => s.Awoken roots j ∧ s'.stateOf? j = some .pending ∧ ¬ s'.Waits j) step.ready

section States

variable {s s' : Scheduler} {j p : JobId}

/-- Whether a job keeps others from running depends on its state. -/
theorem poisons_of_stateOf? {state : JobState} (h : s.stateOf? j = some state) :
    s.poisons j = state.poisons := by
  unfold poisons
  rw [List.getD_eq_getElem?_getD, show s.states[j]? = some state from h]
  rfl

/-- Jobs with one state are alike in this. -/
theorem poisons_congr (h : s'.stateOf? j = s.stateOf? j) : s'.poisons j = s.poisons j := by
  unfold poisons
  rw [List.getD_eq_getElem?_getD, List.getD_eq_getElem?_getD,
    show s'.states[j]? = s.states[j]? from h]

/-- A job keeps others from running if it has failed, is blocked or was given up. -/
theorem poisons_iff : s.poisons j = true ↔
    s.stateOf? j = some .failed ∨ s.stateOf? j = some .blocked ∨
      s.stateOf? j = some .cancelled := by
  cases h : s.stateOf? j with
  | none =>
    have : s.poisons j = false := by
      unfold poisons
      rw [List.getD_eq_getElem?_getD, show s.states[j]? = none from h]
      rfl
    simp [this]
  | some state => rw [poisons_of_stateOf? h]; cases state <;> simp [JobState.poisons]

/-- A job is spoilt if a prerequisite keeps it from running. -/
theorem spoilt_iff : s.Spoilt j ↔ ∃ p ∈ s.plan.graph.prerequisitesOf j, s.poisons p = true :=
  exists_congr fun _ => and_congr_right fun _ => poisons_iff.symm

/-- A job that waits for none still to be done counts none. -/
theorem waitsFor_eq_zero_iff : s.waitsFor j = 0 ↔ ¬ s.Waits j := by
  unfold waitsFor Waits
  rw [List.countP_eq_zero]
  simp [isOpen]

end States

/-! ## One job after the other -/

section Revive

variable {s : Scheduler} {selected ids : List JobId} {step : SchedulerStep} {id : JobId}

/-- Making dependents wait moves none of them. -/
theorem states_foldl_delay (s : Scheduler) (ids : List JobId) :
    (ids.foldl delay s).states = s.states := by
  induction ids generalizing s with
  | nil => rfl
  | cons id rest ih =>
    refine (ih (s.delay id)).trans ?_
    unfold delay
    split <;> rfl

/-- **What a pass over some jobs has come to**: what has become of each, and how they are listed. -/
structure PassOutcome (step : SchedulerStep) (ids : List JobId) (s' : Scheduler)
    (step' : SchedulerStep) : Prop where
  cases : ∀ j ∈ ids, s'.stateOf? j = some .pending ∧ ¬ s'.Spoilt j ∨
    s'.stateOf? j = some .blocked ∧ s'.Spoilt j
  revived : step'.revived = step.revived ++ ids.filter (s'.stateOf? · == some .pending)
  blocked : step'.blocked = step.blocked ++ ids.filter (s'.stateOf? · == some .blocked)
  ready : step'.ready = step.ready ++
    ids.filter fun j => s'.stateOf? j == some .pending && s'.waitsFor j == 0

/-- **One clean job** is blocked if it waits for one that keeps it from running, and is pending
otherwise. -/
theorem outcome_reviveOne (hs : s.Sound) (selected : List JobId) (step : SchedulerStep)
    (hclean : s.isClean id) :
    let r := reviveOne selected (s, step) id
    PassOutcome step [id] r.1 r.2 := by
  intro r
  have hone : Revived s r.1 [id] := revived_reviveOne hs selected step hclean
  have hpoisons {p : JobId} (hp : p ≠ id) : r.1.poisons p = s.poisons p :=
    poisons_congr (hone.others p fun h => hp (List.mem_singleton.1 h))
  have hset (state : JobState) : (s.states.set id state)[id]? = some state := by
    rw [getElem?_set_states, if_pos rfl, show s.stateOf? id = some .clean from hclean]
    rfl
  -- One of its prerequisites keeps it from running, so it is blocked. That prerequisite is
  -- another job, for the job itself is clean.
  by_cases hany : (s.plan.graph.prerequisitesOf id).any s.poisons = true
  · have hr : r = ({ s with states := s.states.set id .blocked },
        { step with blocked := step.blocked ++ [id] }) := if_pos hany
    have hid : r.1.stateOf? id = some .blocked := by
      rw [hr]
      exact hset .blocked
    have hstep : r.2 = { step with blocked := step.blocked ++ [id] } := congrArg Prod.snd hr
    obtain ⟨p, hp, hpoison⟩ := List.any_eq_true.1 hany
    have hpid : p ≠ id := fun e => by
      rw [e, poisons_of_stateOf? hclean] at hpoison
      cases hpoison
    have hspoilt : r.1.Spoilt id :=
      spoilt_iff.2 ⟨p, hone.plan_eq ▸ hp, (hpoisons hpid).trans hpoison⟩
    refine ⟨List.forall_mem_singleton.2 (.inr ⟨hid, hspoilt⟩), ?_, ?_, ?_⟩ <;> simp [hid, hstep]
  -- None does, so it is opened again, with a count of those that it still waits for; the other
  -- changes are to counts only.
  · let waiting := unfinished s.plan.graph (s.states.set id .pending) id
    have hr : r = (((s.plan.graph.dependentsOf id).filter (fun d => !selected.contains d)).foldl
          delay (s.reopen id),
        { step with
          revived := step.revived ++ [id]
          ready := if waiting = 0 then step.ready ++ [id] else step.ready }) := if_neg hany
    have hstates : r.1.states = s.states.set id .pending := by
      rw [hr]
      exact states_foldl_delay (s.reopen id) _
    have hid : r.1.stateOf? id = some .pending :=
      (congrArg (·[id]?) hstates).trans (hset .pending)
    have hwaiting : waiting = r.1.waitsFor id := by
      rw [← unfinished_eq_waitsFor, hone.plan_eq, hstates]
    have hstep : r.2 = { step with
        revived := step.revived ++ [id]
        ready := if r.1.waitsFor id = 0 then step.ready ++ [id] else step.ready } := by
      rw [← hwaiting]
      exact congrArg Prod.snd hr
    have hclear : ¬ r.1.Spoilt id := by
      rw [spoilt_iff, hone.plan_eq]
      rintro ⟨p, hp, hpoison⟩
      by_cases hpid : p = id
      · rw [hpid, poisons_of_stateOf? hid] at hpoison
        cases hpoison
      · exact hany (List.any_eq_true.2 ⟨p, hp, (hpoisons hpid).symm.trans hpoison⟩)
    refine ⟨List.forall_mem_singleton.2 (.inl ⟨hid, hclear⟩), ?_, ?_, ?_⟩
    · simp [hid, hstep]
    · simp [hid, hstep]
    · by_cases hzero : r.1.waitsFor id = 0 <;> simp [hid, hstep, hzero]

/-- **A job is left as it is by the revival of others** that it does not wait for. -/
theorem Revived.keeps {s' : Scheduler} (h : Revived s s' ids) {j : JobId} (hj : j ∉ ids)
    (hpre : ∀ p ∈ s.plan.graph.prerequisitesOf j, p ∉ ids) :
    s'.stateOf? j = s.stateOf? j ∧ (s'.Spoilt j ↔ s.Spoilt j) ∧ s'.waitsFor j = s.waitsFor j := by
  refine ⟨h.others j hj, ?_, waitsFor_congr h.plan_eq fun p hp =>
    isOpen_congr (h.others p (hpre p hp))⟩
  rw [spoilt_iff, spoilt_iff, h.plan_eq]
  exact exists_congr fun p => and_congr_right fun hp => by
    rw [poisons_congr (h.others p (hpre p hp))]

/-- One pass after another is a pass over the jobs of both, where the second leaves those of the
first as they are. -/
theorem PassOutcome.trans {s₁ s₂ : Scheduler} {step₁ step₂ : SchedulerStep} {rest : List JobId}
    (h : PassOutcome step ids s₁ step₁) (h' : PassOutcome step₁ rest s₂ step₂)
    (hkeep : ∀ j ∈ ids, s₂.stateOf? j = s₁.stateOf? j ∧ (s₂.Spoilt j ↔ s₁.Spoilt j) ∧
      s₂.waitsFor j = s₁.waitsFor j) : PassOutcome step (ids ++ rest) s₂ step₂ := by
  have hfilter (state : JobState) : ids.filter (s₂.stateOf? · == some state)
      = ids.filter (s₁.stateOf? · == some state) :=
    List.filter_congr fun j hj => by rw [(hkeep j hj).1]
  refine ⟨fun j hj => ?_, ?_, ?_, ?_⟩
  · rcases List.mem_append.1 hj with hj | hj
    · obtain ⟨hstate, hspoilt, -⟩ := hkeep j hj
      rw [hstate, hspoilt]
      exact h.cases j hj
    · exact h'.cases j hj
  · rw [h'.revived, h.revived, List.filter_append, hfilter, List.append_assoc]
  · rw [h'.blocked, h.blocked, List.filter_append, hfilter, List.append_assoc]
  · have hready : ids.filter (fun j => s₂.stateOf? j == some .pending && s₂.waitsFor j == 0)
        = ids.filter fun j => s₁.stateOf? j == some .pending && s₁.waitsFor j == 0 :=
      List.filter_congr fun j hj => by rw [(hkeep j hj).1, (hkeep j hj).2.2]
    rw [h'.ready, h.ready, List.filter_append, hready, List.append_assoc]

/-- **What becomes of some clean jobs, each behind its prerequisites.** -/
theorem outcome_foldl_reviveOne (hs : s.Sound) (step : SchedulerStep) (hn : ids.Nodup)
    (hclean : ∀ id ∈ ids, s.isClean id)
    (horder : ids.Pairwise fun a b => b ∉ s.plan.graph.prerequisitesOf a) :
    let r := ids.foldl (reviveOne selected) (s, step)
    PassOutcome step ids r.1 r.2 := by
  induction ids generalizing s step with
  | nil => exact ⟨fun j hj => absurd hj List.not_mem_nil, by simp, by simp, by simp⟩
  | cons id rest ih =>
    obtain ⟨hnot, hrest⟩ := List.nodup_cons.1 hn
    obtain ⟨hfirst, hlater⟩ := List.pairwise_cons.1 horder
    have hid := hclean id List.mem_cons_self
    have hone := revived_reviveOne hs selected step hid
    have hcleanRest : ∀ j ∈ rest, (reviveOne selected (s, step) id).1.isClean j := fun j hj =>
      (hone.others j fun h => hnot (List.mem_singleton.1 h ▸ hj)).trans
        (hclean j (List.mem_cons_of_mem _ hj))
    have hmore := revived_foldl_reviveOne selected hrest hone.sound hcleanRest
      (reviveOne selected (s, step) id).2
    -- The jobs that come later are none that this one waits for.
    refine (outcome_reviveOne hs selected step hid).trans
      (ih hone.sound _ hrest hcleanRest (hone.plan_eq ▸ hlater)) fun j hj => ?_
    obtain rfl := List.mem_singleton.1 hj
    exact hmore.keeps hnot fun p hp hm => hfirst p hm (hone.plan_eq ▸ hp)

/-! ## A whole revival -/

/-- **The jobs that a revival looks at are those that the roots bring back.** -/
theorem mem_cleanBehind_iff (hs : s.Sound) {roots : List JobId} {j : JobId} :
    j ∈ s.cleanBehind roots ↔ s.Awoken roots j := by
  have hclean (p : JobId) :
      p ∈ s.plan.graph.ids.filter (fun id => s.stateOf? id == some .clean) ↔ s.isClean p := by
    rw [List.mem_filter, beq_iff_eq, JobGraph.mem_ids]
    exact and_iff_right_of_imp hs.lt_size
  unfold cleanBehind Awoken
  rw [mem_reachable_iff]
  simp only [hclean]

/-- The jobs that a revival goes through, in their order. -/
theorem outcome_revive (hs : s.Sound) (hg : s.plan.graph.WellFormed) (roots : List JobId) :
    ∃ step : SchedulerStep, PassOutcome .none
        (s.plan.graph.topologicalOrder.filter (s.cleanBehind roots).contains)
        (s.revive roots).1 step ∧
      (s.revive roots).2
        = { step with ready := step.ready.filter (s.revive roots).1.ready.contains } :=
  ⟨_, outcome_foldl_reviveOne hs .none (hg.nodup_topologicalOrder.filter _)
    (fun _ hid => isClean_of_mem_cleanBehind ((mem_filter_cleanBehind hs hg roots).1 hid))
    (hg.pairwise_topologicalOrder.filter _), rfl⟩

/-- **A revival comes to what it has to.** -/
theorem Balanced.revivesExactly (hs : s.Counted) (hg : s.plan.graph.WellFormed)
    (roots : List JobId) : RevivesExactly s roots (s.revive roots).1 (s.revive roots).2 := by
  obtain ⟨step, hpass, hstep⟩ := outcome_revive hs.sound hg roots
  have hrevived := revived_revive hs.sound hg roots
  have hcounted := hs.revive hg roots
  have hmem (j : JobId) : j ∈ s.plan.graph.topologicalOrder.filter (s.cleanBehind roots).contains ↔
      s.Awoken roots j :=
    (mem_filter_cleanBehind hs.sound hg roots).trans (mem_cleanBehind_iff hs.sound)
  have hsub : (s.plan.graph.topologicalOrder.filter (s.cleanBehind roots).contains).Sublist
      s.plan.graph.topologicalOrder := List.filter_sublist
  rw [hstep]
  generalize s.plan.graph.topologicalOrder.filter (s.cleanBehind roots).contains = ids
    at hpass hmem hsub
  generalize (s.revive roots).1 = s' at hpass hrevived hcounted ⊢
  constructor
  case is_blocked =>
    intro j hj hspoilt
    exact ((hpass.cases j ((hmem j).2 hj)).resolve_left fun h => h.2 hspoilt).1
  case is_pending =>
    intro j hj hspoilt
    exact ((hpass.cases j ((hmem j).2 hj)).resolve_right fun h => hspoilt h.2).1
  case others =>
    exact fun j hj => hrevived.others j fun h => hj ((mem_cleanBehind_iff hs.sound).1 h)
  case revived =>
    rw [hpass.revived]
    exact JobGraph.lists_filter hsub fun j => by rw [hmem, beq_iff_eq]
  case blocked =>
    rw [hpass.blocked]
    exact JobGraph.lists_filter hsub fun j => by rw [hmem, beq_iff_eq]
  case ready =>
    have hready : step.ready
        = ids.filter fun j => s'.stateOf? j == some .pending && s'.waitsFor j == 0 := hpass.ready
    rw [hready]
    refine JobGraph.lists_filter (List.filter_sublist.trans hsub) fun j => ?_
    rw [List.mem_filter, hmem, Bool.and_eq_true, beq_iff_eq, beq_iff_eq, waitsFor_eq_zero_iff]
    -- What was ready when its turn came is ready at the end, as the books are in order.
    refine and_iff_left_of_imp fun h => (hcounted.ready_iff j).2 ⟨h.2.1, ?_⟩
    exact (hcounted.remaining_eq j h.2.1).trans (waitsFor_eq_zero_iff.2 h.2.2)

/-- **Revival is exact in every state that a scheduler can come to**, for any list of roots. -/
theorem revive_exact (plan : BuildPlan) (hg : plan.graph.WellFormed) (policy : FailurePolicy)
    (ops : List Operation) (roots : List JobId) :
    let s := (start plan policy).applyAll ops
    RevivesExactly s roots (s.revive roots).1 (s.revive roots).2 := by
  intro s
  obtain ⟨hs, hplan⟩ : s.Counted ∧ s.plan = plan :=
    Balanced.applyAll ops (counted_start plan policy) hg
  exact hs.revivesExactly (hplan ▸ hg) roots

end Revive

/-! The left side of the diamond and its bottom are clean, and the right side has failed. -/

namespace Diamond

/-- The plan that leaves the left side and the bottom as they are. -/
def halfClean : BuildPlan := .cleanWhere graph [1, 3].contains

/-- The top succeeds, and the right side fails. -/
def failing : List Operation :=
  [.dispatch 8, .complete 0 .succeeded, .dispatch 8, .complete 2 (.failed (.exit 1))]

end Diamond

open Diamond in
/-- After the right side has failed, reviving the left side makes that pending and blocks the
bottom. -/
theorem revive_exact_diamond :
    let s := (start halfClean .continueOnFailure).applyAll failing
    halfClean.graph.WellFormed
      ∧ s.states = [.succeeded, .clean, .failed, .clean]
      ∧ (s.revive [1, 1, 9, 0]).2 = ⟨[1], [3], [1], false⟩
      ∧ s.Awoken [1, 1, 9, 0] 3 ∧ ¬ s.Awoken [1, 1, 9, 0] 0
      ∧ ¬ (s.revive [1, 1, 9, 0]).1.Spoilt 1 := by
  intro s
  have hexact := revive_exact halfClean graph_wellFormed .continueOnFailure failing [1, 1, 9, 0]
  have hstates : s.states = [.succeeded, .clean, .failed, .clean] := by decide +kernel
  have hstep : (s.revive [1, 1, 9, 0]).2 = ⟨[1], [3], [1], false⟩ := by decide +kernel
  have hafter : (s.revive [1, 1, 9, 0]).1.states = [.succeeded, .pending, .failed, .blocked] := by
    decide +kernel
  have hstate (id : JobId) : (s.revive [1, 1, 9, 0]).1.stateOf? id
      = [JobState.succeeded, .pending, .failed, .blocked][id]? := congrArg (·[id]?) hafter
  have hbottom := (hexact.blocked.2 3).1 (by rw [hstep]; decide)
  have hleft := (hexact.revived.2 1).1 (by rw [hstep]; decide)
  refine ⟨graph_wellFormed, hstates, hstep, hbottom.1, fun htop => ?_, fun hspoilt => ?_⟩
  · by_cases hspoilt : (s.revive [1, 1, 9, 0]).1.Spoilt 0
    · exact absurd ((hstate 0).symm.trans (hexact.is_blocked 0 htop hspoilt)) (by decide)
    · exact absurd ((hstate 0).symm.trans (hexact.is_pending 0 htop hspoilt)) (by decide)
  · exact absurd ((hstate 1).symm.trans (hexact.is_blocked 1 hleft.1 hspoilt)) (by decide)

end Scheduler

end IncrementalBuild
