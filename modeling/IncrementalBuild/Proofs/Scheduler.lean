import IncrementalBuild.Scheduler
import IncrementalBuild.Proofs.JobGraph

/-!
# What a scheduler does to each job

Every operation of a scheduler is described by what it does to the state of each
job. A job that is handed out was pending, a job that ends was running, and only
reviving takes a job out of the clean state; no operation puts one into it.
-/

namespace IncrementalBuild

/-- The state of a job that ended so. -/
def JobOutcome.state : JobOutcome → JobState
  | .succeeded => .succeeded
  | .failed _ => .failed

namespace Scheduler

/-- **What holds of a scheduler at any time**: every job has a state, and what can
be handed out is pending. -/
structure Sound (s : Scheduler) : Prop where
  length_states : s.states.length = s.plan.graph.size
  pending_of_ready : ∀ id, s.ready.contains id = true → s.stateOf? id = some .pending

/-- A clean job. -/
def isClean (s : Scheduler) (id : JobId) : Prop := s.stateOf? id = some .clean

section States

variable {s : Scheduler} {id j : JobId}

/-- Setting the state of one job leaves those of all others. -/
theorem getElem?_set_states (s : Scheduler) (id j : JobId) (state : JobState) :
    (s.states.set id state)[j]?
      = if j = id then (s.stateOf? id).map fun _ => state else s.stateOf? j := by
  unfold stateOf?
  rw [List.getElem?_set]
  by_cases h : id = j
  · subst h
    by_cases hlt : id < s.states.length
    · simp [hlt]
    · simp [hlt]
  · rw [if_neg h, if_neg (Ne.symm h)]

theorem Sound.exists_state (hs : s.Sound) (h : id < s.plan.graph.size) :
    ∃ state, s.stateOf? id = some state :=
  ⟨_, List.getElem?_eq_getElem (hs.length_states ▸ h)⟩

theorem Sound.lt_size (hs : s.Sound) {state : JobState} (h : s.stateOf? id = some state) :
    id < s.plan.graph.size :=
  hs.length_states ▸ (List.getElem?_eq_some_iff.1 h).1

/-- **A scheduler begins sound.** -/
theorem sound_start (plan : BuildPlan) (policy : FailurePolicy) : (start plan policy).Sound where
  length_states := by
    show (plan.dispositions.map _).length = _
    rw [List.length_map]
    exact plan.length_eq
  pending_of_ready id h := by
    have h : (OrderedSet.ofList _).contains id = true := h
    rw [OrderedSet.contains_iff_mem_toList, OrderedSet.mem_toList_ofList, List.mem_filter,
      Bool.and_eq_true, beq_iff_eq] at h
    obtain ⟨hid, hstate, -⟩ := h
    have hlt : id < plan.dispositions.length := plan.length_eq ▸ JobGraph.mem_ids.1 hid
    show (plan.dispositions.map _)[id]? = _
    rw [List.getD_eq_getElem?_getD, List.getElem?_map, List.getElem?_eq_getElem hlt] at hstate
    rw [List.getElem?_map, List.getElem?_eq_getElem hlt]
    exact congrArg some hstate

/-- Where a job stands at the beginning. -/
theorem stateOf?_start (plan : BuildPlan) (policy : FailurePolicy)
    (h : id < plan.graph.size) :
    (start plan policy).stateOf? id
      = some (if (plan.disposition id).isScheduled then .pending else .clean) := by
  have hlt : id < plan.dispositions.length := plan.length_eq ▸ h
  show (plan.dispositions.map _)[id]? = _
  rw [List.getElem?_map, List.getElem?_eq_getElem hlt]
  unfold BuildPlan.disposition
  rw [List.getD_eq_getElem?_getD, List.getElem?_eq_getElem hlt]
  rfl

end States

/-! ## Handing out -/

/-- What handing out jobs has done. -/
structure HandedOut (s s' : Scheduler) (ids : List JobId) : Prop where
  sound : s'.Sound
  plan_eq : s'.plan = s.plan
  nodup : ids.Nodup
  was_pending : ∀ j ∈ ids, s.stateOf? j = some .pending
  is_running : ∀ j ∈ ids, s'.stateOf? j = some .running
  others : ∀ j, j ∉ ids → s'.stateOf? j = s.stateOf? j

/-- Handing out jobs leaves the clean ones clean, and makes no other clean. -/
theorem HandedOut.isClean_iff {s s' : Scheduler} {ids : List JobId} (h : HandedOut s s' ids)
    (j : JobId) : s'.isClean j ↔ s.isClean j := by
  unfold isClean
  by_cases hj : j ∈ ids
  · rw [h.is_running j hj, h.was_pending j hj]
    decide
  · rw [h.others j hj]

theorem HandedOut.refl {s : Scheduler} (hs : s.Sound) : HandedOut s s [] where
  sound := hs
  plan_eq := rfl
  nodup := List.nodup_nil
  was_pending _ h := absurd h List.not_mem_nil
  is_running _ h := absurd h List.not_mem_nil
  others _ _ := rfl

/-- **Jobs that are handed out were pending and are running**; all others stand
where they stood. -/
theorem handedOut_handOut (room : Nat) {s : Scheduler} (hs : s.Sound) :
    HandedOut s (s.handOut room).1 (s.handOut room).2 := by
  induction room generalizing s with
  | zero => exact .refl hs
  | succ room ih =>
    unfold handOut
    split
    · exact .refl hs
    · rename_i id rest hready
      have hpending : s.stateOf? id = some .pending := hs.pending_of_ready id
        (OrderedSet.contains_iff_mem_toList.2 (by rw [hready]; exact List.mem_cons_self))
      -- The first job that is ready is handed out, and the rest of the room goes to the others.
      let first : Scheduler :=
        { s with
          states := s.states.set id .running
          ready := s.ready.erase id
          running := s.running + 1 }
      have hstate (j : JobId) : first.stateOf? j
          = if j = id then some .running else s.stateOf? j := by
        refine (getElem?_set_states s id j .running).trans ?_
        rw [hpending]
        rfl
      have hfirst : first.Sound :=
        ⟨(List.length_set).trans hs.length_states, fun j hj => by
          have hj : (s.ready.erase id).contains j = true := hj
          rw [OrderedMap.contains_erase, Bool.and_eq_true, bne_iff_ne, ne_eq,
            Std.compare_eq_iff_eq] at hj
          rw [hstate, if_neg (Ne.symm hj.1)]
          exact hs.pending_of_ready j hj.2⟩
      have hrest := ih hfirst
      show HandedOut s (first.handOut room).1 (id :: (first.handOut room).2)
      -- It runs from then on, so it is not handed out again.
      have hnot : id ∉ (first.handOut room).2 := fun h => by
        have := hrest.was_pending id h
        rw [hstate, if_pos rfl] at this
        cases this
      refine ⟨hrest.sound, hrest.plan_eq, List.nodup_cons.2 ⟨hnot, hrest.nodup⟩,
        fun j hj => ?_, fun j hj => ?_, fun j hj => ?_⟩
      · rcases List.mem_cons.1 hj with rfl | hj
        · exact hpending
        · have := hrest.was_pending j hj
          rwa [hstate, if_neg fun e : j = id => hnot (e ▸ hj)] at this
      · rcases List.mem_cons.1 hj with rfl | hj
        · rw [hrest.others j hnot, hstate, if_pos rfl]
        · exact hrest.is_running j hj
      · rw [hrest.others j fun h => hj (List.mem_cons_of_mem _ h), hstate,
          if_neg fun e : j = id => hj (e ▸ List.mem_cons_self)]

theorem handedOut_dispatch (limit : Nat) {s : Scheduler} (hs : s.Sound) :
    HandedOut s (s.dispatch limit).1 (s.dispatch limit).2 := by
  unfold dispatch
  split
  · exact .refl hs
  · exact handedOut_handOut _ hs

/-! ## Ends of jobs -/

/-- Releasing a job changes no state. -/
theorem releaseOne_spec {s : Scheduler} (hs : s.Sound) (id : JobId) :
    (s.releaseOne id).1.Sound ∧ (s.releaseOne id).1.plan = s.plan ∧
      (s.releaseOne id).1.states = s.states := by
  unfold releaseOne
  split
  · rename_i hpending
    dsimp only
    split
    · refine ⟨⟨hs.length_states, fun j hj => ?_⟩, rfl, rfl⟩
      have hj : (s.ready.add id).contains j = true := hj
      rw [OrderedSet.contains_add, Bool.or_eq_true, beq_iff_eq, Std.compare_eq_iff_eq] at hj
      rcases hj with rfl | hj
      · exact beq_iff_eq.1 hpending
      · exact hs.pending_of_ready j hj
    · exact ⟨⟨hs.length_states, hs.pending_of_ready⟩, rfl, rfl⟩
  · exact ⟨hs, rfl, rfl⟩

theorem releaseAll_spec {s : Scheduler} (hs : s.Sound) (ids : List JobId) :
    (s.releaseAll ids).1.Sound ∧ (s.releaseAll ids).1.plan = s.plan ∧
      (s.releaseAll ids).1.states = s.states := by
  induction ids generalizing s with
  | nil => exact ⟨hs, rfl, rfl⟩
  | cons id rest ih =>
    obtain ⟨hsound, hplan, hstates⟩ := releaseOne_spec hs id
    obtain ⟨hsound', hplan', hstates'⟩ := ih hsound
    exact ⟨hsound', hplan'.trans hplan, hstates'.trans hstates⟩

/-- **Blocking touches pending jobs of the list alone.** -/
theorem blockAll_spec {s : Scheduler} (hs : s.Sound) (ids : List JobId) :
    (s.blockAll ids).1.Sound ∧ (s.blockAll ids).1.plan = s.plan ∧
      ∀ j, (s.blockAll ids).1.stateOf? j
        = if j ∈ ids ∧ s.stateOf? j = some .pending then some .blocked else s.stateOf? j := by
  induction ids generalizing s with
  | nil => exact ⟨hs, rfl, fun j => by simp [blockAll]⟩
  | cons id rest ih =>
    unfold blockAll
    split
    · rename_i hpending
      have hpending : s.stateOf? id = some .pending := beq_iff_eq.1 hpending
      let next : Scheduler :=
        { s with states := s.states.set id .blocked, ready := s.ready.erase id }
      have hstate (j : JobId) : next.stateOf? j
          = if j = id then some .blocked else s.stateOf? j := by
        refine (getElem?_set_states s id j .blocked).trans ?_
        rw [hpending]
        rfl
      have hnext : next.Sound :=
        ⟨(List.length_set).trans hs.length_states, fun j hj => by
          have hj : (s.ready.erase id).contains j = true := hj
          rw [OrderedMap.contains_erase, Bool.and_eq_true, bne_iff_ne, ne_eq,
            Std.compare_eq_iff_eq] at hj
          rw [hstate, if_neg (Ne.symm hj.1)]
          exact hs.pending_of_ready j hj.2⟩
      obtain ⟨hsound, hplan, hrest⟩ := ih hnext
      refine ⟨hsound, hplan, fun j => (hrest j).trans ?_⟩
      rw [hstate]
      by_cases hj : j = id
      · subst hj
        simp [hpending]
      · simp [hj]
    · rename_i hpending
      obtain ⟨hsound, hplan, hrest⟩ := ih hs
      refine ⟨hsound, hplan, fun j => (hrest j).trans ?_⟩
      by_cases hj : j = id
      · subst hj
        have hne : s.stateOf? j ≠ some .pending := fun h => hpending (beq_iff_eq.2 h)
        simp [hne]
      · simp [hj]

/-- What learning of the end of a job has done. -/
structure Ended (s s' : Scheduler) (id : JobId) (outcome : JobOutcome) : Prop where
  sound : s'.Sound
  plan_eq : s'.plan = s.plan
  ended : s'.stateOf? id = some outcome.state
  others : ∀ j, j ≠ id → s'.stateOf? j = s.stateOf? j ∨
    s.stateOf? j = some .pending ∧ s'.stateOf? j = some .blocked

/-- The end of a job leaves the clean ones clean, and makes no other clean. -/
theorem Ended.isClean_iff {s s' : Scheduler} {id : JobId} {outcome : JobOutcome}
    (h : Ended s s' id outcome) (hrun : s.stateOf? id = some .running) (j : JobId) :
    s'.isClean j ↔ s.isClean j := by
  unfold isClean
  by_cases hj : j = id
  · rw [hj, h.ended, hrun]
    cases outcome <;> simp [JobOutcome.state]
  · rcases h.others j hj with he | ⟨hp, hb⟩
    · rw [he]
    · rw [hp, hb]
      decide

/-- **Whose state a job's end leaves**: that of the job itself, one from before, or that of a
job which the end blocks. -/
theorem Ended.cases {s s' : Scheduler} {id : JobId} {outcome : JobOutcome}
    (h : Ended s s' id outcome) {j : JobId} {state : JobState} (hj : s'.stateOf? j = some state) :
    (j = id ∧ outcome.state = state) ∨ s.stateOf? j = some state ∨
      (s.stateOf? j = some .pending ∧ state = .blocked) := by
  by_cases hne : j = id
  · subst hne
    exact .inl ⟨rfl, Option.some.inj (h.ended.symm.trans hj)⟩
  · rcases h.others j hne with he | ⟨hp, hb⟩
    · exact .inr (.inl (he ▸ hj))
    · exact .inr (.inr ⟨hp, Option.some.inj (hj.symm.trans hb)⟩)

/-- The end of a job makes no job pending. -/
theorem Ended.was_pending {s s' : Scheduler} {id : JobId} {outcome : JobOutcome}
    (h : Ended s s' id outcome) {j : JobId} (hj : s'.stateOf? j = some .pending) :
    s.stateOf? j = some .pending := by
  rcases h.cases hj with ⟨-, he⟩ | hj | ⟨-, he⟩
  · cases outcome <;> cases he
  · exact hj
  · cases he

/-- What is said about a job that is not running changes nothing. -/
theorem complete_of_not_running {s : Scheduler} {id : JobId} (outcome : JobOutcome)
    (h : s.stateOf? id ≠ some .running) : (s.complete id outcome).1 = s := by
  unfold complete
  rw [if_pos h]

/-- The scheduler once a running job has ended, before anything is done about the jobs
that wait for it. -/
def close (s : Scheduler) (id : JobId) (state : JobState) : Scheduler :=
  { s with running := s.running - 1, states := s.states.set id state }

section Ends

variable {s : Scheduler} {id : JobId}

theorem stateOf?_close (h : s.stateOf? id = some .running) (state : JobState) (j : JobId) :
    (s.close id state).stateOf? j = if j = id then some state else s.stateOf? j := by
  refine (getElem?_set_states s id j state).trans ?_
  rw [h]
  rfl

theorem sound_close (hs : s.Sound) (h : s.stateOf? id = some .running) (state : JobState) :
    (s.close id state).Sound := by
  refine ⟨(List.length_set).trans hs.length_states, fun j hj => ?_⟩
  have hpending := hs.pending_of_ready j hj
  rw [stateOf?_close h, if_neg fun e : j = id => by rw [e, h] at hpending; cases hpending]
  exact hpending

/-- What a success does: the jobs that wait for it are released. -/
theorem complete_succeeded (h : s.stateOf? id = some .running) :
    (s.complete id .succeeded).1
      = ((s.close id .succeeded).releaseAll (s.plan.graph.dependentsOf id)).1 := by
  unfold complete
  rw [if_neg fun hne => hne h]
  rfl

/-- **A success changes the state of one job.** -/
theorem stateOf?_complete_succeeded (hs : s.Sound) (h : s.stateOf? id = some .running)
    (j : JobId) :
    (s.complete id .succeeded).1.stateOf? j
      = if j = id then some .succeeded else s.stateOf? j := by
  obtain ⟨-, -, hstates⟩ :=
    releaseAll_spec (sound_close hs h .succeeded) (s.plan.graph.dependentsOf id)
  rw [complete_succeeded h, ← stateOf?_close h]
  exact congrArg (·[j]?) hstates

/-- **A failure blocks the pending jobs behind it**, and changes no other state. -/
theorem stateOf?_complete_failed (hs : s.Sound) (h : s.stateOf? id = some .running)
    (kind : FailureKind) (j : JobId) :
    (s.complete id (.failed kind)).1.stateOf? j
      = if j = id then some .failed
        else if j ∈ (s.plan.graph.transitiveDependents id).toList ∧ s.stateOf? j = some .pending
          then some .blocked
        else s.stateOf? j := by
  obtain ⟨-, -, hstates⟩ :=
    blockAll_spec (sound_close hs h .failed) (s.plan.graph.transitiveDependents id).toList
  unfold complete
  rw [if_neg fun hne => hne h]
  refine (hstates j).trans ?_
  rw [stateOf?_close h]
  by_cases hj : j = id
  · simp [hj]
  · simp only [if_neg hj]

/-- **A running job ends as is said**, and at most pending jobs are blocked. -/
theorem ended_complete (hs : s.Sound) (outcome : JobOutcome)
    (h : s.stateOf? id = some .running) : Ended s (s.complete id outcome).1 id outcome := by
  cases outcome with
  | succeeded =>
    have hstate := stateOf?_complete_succeeded hs h
    obtain ⟨hsound, hplan, -⟩ :=
      releaseAll_spec (sound_close hs h .succeeded) (s.plan.graph.dependentsOf id)
    rw [← complete_succeeded h] at hsound hplan
    exact ⟨hsound, hplan, (hstate id).trans (if_pos rfl),
      fun j hj => .inl ((hstate j).trans (if_neg hj))⟩
  | failed kind =>
    have hstate := stateOf?_complete_failed hs h kind
    obtain ⟨hsound, hplan, -⟩ :=
      blockAll_spec (sound_close hs h .failed) (s.plan.graph.transitiveDependents id).toList
    refine ⟨?_, ?_, (hstate id).trans (if_pos rfl), fun j hj => ?_⟩
    · unfold complete
      rw [if_neg fun hne => hne h]
      exact ⟨hsound.length_states, hsound.pending_of_ready⟩
    · unfold complete
      rw [if_neg fun hne => hne h]
      exact hplan
    · rw [hstate, if_neg hj]
      split
      · rename_i hb
        exact .inr ⟨hb.2, rfl⟩
      · exact .inl rfl

end Ends

/-! ## Reviving -/

/-- What follows a clean job through clean jobs is clean. -/
theorem isClean_of_mem_cleanBehind {s : Scheduler} {roots : List JobId} {j : JobId}
    (h : j ∈ s.cleanBehind roots) : s.isClean j := by
  have := mem_unseen_of_mem_reachable h
  exact beq_iff_eq.1 (List.mem_filter.1 this).2

/-- Clean roots are revived. -/
theorem mem_cleanBehind_of_mem {s : Scheduler} (hs : s.Sound) {roots : List JobId} {j : JobId}
    (hj : j ∈ roots) (hclean : s.isClean j) : j ∈ s.cleanBehind roots :=
  mem_reachable_of_mem_stack hj
    (List.mem_filter.2 ⟨JobGraph.mem_ids.2 (hs.lt_size hclean), beq_iff_eq.2 hclean⟩)

/-- Clean jobs that wait for a revived one are revived. -/
theorem cleanBehind_closed {s : Scheduler} (hs : s.Sound) {roots : List JobId} {p j : JobId}
    (hp : p ∈ s.cleanBehind roots) (hj : j ∈ s.plan.graph.dependentsOf p)
    (hclean : s.isClean j) : j ∈ s.cleanBehind roots :=
  reachable_closed hp hj
    (List.mem_filter.2 ⟨JobGraph.mem_ids.2 (hs.lt_size hclean), beq_iff_eq.2 hclean⟩)

/-- Delaying jobs changes no state. -/
theorem foldl_delay_spec {s : Scheduler} (hs : s.Sound) (ids : List JobId) :
    (ids.foldl delay s).Sound ∧ (ids.foldl delay s).plan = s.plan ∧
      (ids.foldl delay s).states = s.states := by
  induction ids generalizing s with
  | nil => exact ⟨hs, rfl, rfl⟩
  | cons id rest ih =>
    have hone : (s.delay id).Sound ∧ (s.delay id).plan = s.plan ∧
        (s.delay id).states = s.states := by
      unfold delay
      split
      · refine ⟨⟨hs.length_states, fun j hj => hs.pending_of_ready j ?_⟩, rfl, rfl⟩
        have hj : (s.ready.erase id).contains j = true := hj
        rw [OrderedMap.contains_erase, Bool.and_eq_true] at hj
        exact hj.2
      · exact ⟨hs, rfl, rfl⟩
    obtain ⟨hsound, hplan, hstates⟩ := hone
    obtain ⟨hsound', hplan', hstates'⟩ := ih hsound
    exact ⟨hsound', hplan'.trans hplan, hstates'.trans hstates⟩

/-- What reviving jobs has done. -/
structure Revived (s s' : Scheduler) (ids : List JobId) : Prop where
  sound : s'.Sound
  plan_eq : s'.plan = s.plan
  revived : ∀ j ∈ ids, s'.stateOf? j = some .pending ∨ s'.stateOf? j = some .blocked
  others : ∀ j, j ∉ ids → s'.stateOf? j = s.stateOf? j

/-- The clean jobs after a revival are those that were clean and were not revived. -/
theorem Revived.isClean_iff {s s' : Scheduler} {ids : List JobId} (h : Revived s s' ids)
    (j : JobId) : s'.isClean j ↔ s.isClean j ∧ j ∉ ids := by
  unfold isClean
  by_cases hj : j ∈ ids
  · refine iff_of_false (fun e => ?_) fun e => e.2 hj
    rcases h.revived j hj with he | he
    · rw [he] at e
      cases e
    · rw [he] at e
      cases e
  · rw [h.others j hj]
    exact (and_iff_left hj).symm

/-- **Reviving one clean job** makes it pending or blocked, and touches no other. -/
theorem revived_reviveOne {s : Scheduler} (hs : s.Sound) (selected : List JobId)
    (step : SchedulerStep) {id : JobId} (hclean : s.isClean id) :
    Revived s (reviveOne selected (s, step) id).1 [id] := by
  have hstate (state : JobState) (j : JobId) : (s.states.set id state)[j]?
      = if j = id then some state else s.stateOf? j := by
    rw [getElem?_set_states, hclean]
    rfl
  -- A clean job is not ready, so what is ready is another one.
  have hne {j : JobId} (hj : s.ready.contains j = true) : j ≠ id := by
    rintro rfl
    have := hs.pending_of_ready j hj
    rw [hclean] at this
    cases this
  have hlength (state : JobState) : (s.states.set id state).length = s.plan.graph.size :=
    List.length_set.trans hs.length_states
  unfold reviveOne
  dsimp only
  split
  · refine ⟨⟨hlength .blocked, fun j hj => ?_⟩, rfl, fun j hj => ?_, fun j hj => ?_⟩
    · exact (hstate .blocked j).trans ((if_neg (hne hj)).trans (hs.pending_of_ready j hj))
    · obtain rfl := List.mem_singleton.1 hj
      exact .inr ((hstate .blocked j).trans (if_pos rfl))
    · exact (hstate .blocked j).trans (if_neg fun e => hj (List.mem_singleton.2 e))
  -- Where nothing keeps it from running it becomes pending with a new count. What waits for it
  -- is counted up after that, which no state depends on.
  · let next : Scheduler :=
      { s with
        states := s.states.set id .pending
        remaining := s.remaining.set id
          (unfinished s.plan.graph (s.states.set id .pending) id)
        ready := if unfinished s.plan.graph (s.states.set id .pending) id = 0 then s.ready.add id
          else s.ready }
    have hnext : next.Sound := by
      refine ⟨hlength .pending, fun j hj => ?_⟩
      show (s.states.set id .pending)[j]? = _
      rw [hstate]
      by_cases hid : j = id
      · exact if_pos hid
      · rw [if_neg hid]
        refine hs.pending_of_ready j ?_
        have hj : OrderedMap.contains (if unfinished s.plan.graph _ id = 0 then s.ready.add id
          else s.ready) j = true := hj
        split at hj
        · rw [OrderedSet.contains_add, Bool.or_eq_true, beq_iff_eq, Std.compare_eq_iff_eq] at hj
          exact hj.resolve_left (Ne.symm hid)
        · exact hj
    obtain ⟨hsound, hplan, hstates⟩ := foldl_delay_spec hnext
      ((s.plan.graph.dependentsOf id).filter fun d => !selected.contains d)
    have hsame (j : JobId) := (congrArg (·[j]?) hstates).trans (hstate .pending j)
    refine ⟨hsound, hplan, fun j hj => ?_, fun j hj => ?_⟩
    · obtain rfl := List.mem_singleton.1 hj
      exact .inl ((hsame j).trans (if_pos rfl))
    · exact (hsame j).trans (if_neg fun e => hj (List.mem_singleton.2 e))

theorem revived_foldl_reviveOne (selected : List JobId) {ids : List JobId} (hn : ids.Nodup)
    {s : Scheduler} (hs : s.Sound) (hclean : ∀ j ∈ ids, s.isClean j) (step : SchedulerStep) :
    Revived s (ids.foldl (reviveOne selected) (s, step)).1 ids := by
  induction ids generalizing s step with
  | nil =>
    exact ⟨hs, rfl, fun j h => absurd h List.not_mem_nil, fun j _ => rfl⟩
  | cons id rest ih =>
    obtain ⟨hnot, hrest⟩ := List.nodup_cons.1 hn
    have hone := revived_reviveOne hs selected step (hclean id List.mem_cons_self)
    have hkeep (j : JobId) (hj : j ≠ id) := hone.others j fun h => hj (List.mem_singleton.1 h)
    have hmore := ih hrest hone.sound
      (fun j hj => (hkeep j fun e => hnot (e ▸ hj)).trans
        (hclean j (List.mem_cons_of_mem _ hj)))
      (reviveOne selected (s, step) id).2
    rw [List.foldl_cons]
    refine ⟨hmore.sound, hmore.plan_eq.trans hone.plan_eq, fun j hj => ?_, fun j hj => ?_⟩
    · rcases List.mem_cons.1 hj with rfl | hj
      · rw [hmore.others j hnot]
        exact hone.revived j List.mem_cons_self
      · exact hmore.revived j hj
    · rw [List.mem_cons, not_or] at hj
      rw [hmore.others j hj.2, hkeep j hj.1]

/-- The jobs behind the roots are all gone through. -/
theorem mem_filter_cleanBehind {s : Scheduler} (hs : s.Sound) (hg : s.plan.graph.WellFormed)
    (roots : List JobId) {j : JobId} :
    j ∈ s.plan.graph.topologicalOrder.filter (s.cleanBehind roots).contains ↔
      j ∈ s.cleanBehind roots := by
  rw [List.mem_filter, hg.mem_topologicalOrder, List.contains_iff_mem]
  exact and_iff_right_of_imp fun h => hs.lt_size (isClean_of_mem_cleanBehind h)

/-- **Reviving takes the clean jobs behind the roots out of the clean state**, and
leaves all others where they stand. -/
theorem revived_revive {s : Scheduler} (hs : s.Sound) (hg : s.plan.graph.WellFormed)
    (roots : List JobId) : Revived s (s.revive roots).1 (s.cleanBehind roots) := by
  have hmem {j : JobId} := mem_filter_cleanBehind (j := j) hs hg roots
  have h := revived_foldl_reviveOne (s.cleanBehind roots) (hg.nodup_topologicalOrder.filter _) hs
    (fun j hj => isClean_of_mem_cleanBehind (hmem.1 hj)) .none
  exact ⟨h.sound, h.plan_eq, fun j hj => h.revived j (hmem.2 hj),
    fun j hj => h.others j (mt hmem.1 hj)⟩

/-! ## Ending -/

/-- **At the end the pending jobs are cancelled.** -/
theorem stateOf?_finalize (s : Scheduler) (id : JobId) :
    s.finalize.1.stateOf? id
      = (s.stateOf? id).map fun state => if state = .pending then .cancelled else state :=
  List.getElem?_map

/-- Clean jobs, and no others, are reported as skipped. -/
theorem statusOf?_eq_skipped_iff {s : Scheduler} {id : JobId} :
    s.statusOf? id = some .skipped ↔ s.isClean id := by
  unfold statusOf? isClean
  cases s.stateOf? id with
  | none => simp
  | some state => cases state <;> simp [JobState.status?]

end Scheduler

end IncrementalBuild
