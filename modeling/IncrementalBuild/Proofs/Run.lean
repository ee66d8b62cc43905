import IncrementalBuild.Proofs.History

/-!
# Runs of a core

A core begins, and is then told of requests to stop and of the ends of the jobs that it has
handed out, one of each, in any order and with any observer answering. This module follows
such a run: which jobs were handed out, which of them still run, and whether the core asks
for more.

Jobs that have started are those that were handed out, and each starts once, because what
is revived was clean and has never started. The core asks for more exactly as long as a
job runs: whenever none runs, all that is ready has been handed out. If nothing has ended
the handing out, nothing is left pending then, for a pending job of least rank would wait
for nothing and be ready.
-/

namespace IncrementalBuild

/-- A job ends in success or in failure. -/
theorem JobOutcome.state_ne (outcome : JobOutcome) {state : JobState} (hs : state ≠ .succeeded)
    (hf : state ≠ .failed) : outcome.state ≠ state := by
  cases outcome with
  | succeeded => exact hs.symm
  | failed kind => exact hf.symm

namespace Scheduler

/-- The job has run to its end. -/
def hasEnded (s : Scheduler) (id : JobId) : Prop :=
  s.stateOf? id = some .succeeded ∨ s.stateOf? id = some .failed

/-- The job was handed out. -/
def hasStarted (s : Scheduler) (id : JobId) : Prop :=
  s.stateOf? id = some .running ∨ s.hasEnded id

/-! ## States that an operation leaves alone -/

section States

variable {s s' : Scheduler} {ids : List JobId} {id j : JobId} {state : JobState}

theorem HandedOut.stateOf?_iff (h : HandedOut s s' ids) (hp : state ≠ .pending)
    (hr : state ≠ .running) : s'.stateOf? j = some state ↔ s.stateOf? j = some state := by
  by_cases hj : j ∈ ids
  · rw [h.is_running j hj, h.was_pending j hj, Option.some_inj, Option.some_inj]
    exact iff_of_false hr.symm hp.symm
  · rw [h.others j hj]

theorem HandedOut.hasEnded_iff (h : HandedOut s s' ids) : s'.hasEnded j ↔ s.hasEnded j := by
  unfold hasEnded
  rw [h.stateOf?_iff (by decide) (by decide), h.stateOf?_iff (by decide) (by decide)]

theorem HandedOut.running_iff (h : HandedOut s s' ids) :
    s'.stateOf? j = some .running ↔ s.stateOf? j = some .running ∨ j ∈ ids := by
  by_cases hj : j ∈ ids
  · exact iff_of_true (h.is_running j hj) (.inr hj)
  · rw [h.others j hj]
    exact (or_iff_left hj).symm

theorem Ended.stateOf?_iff {outcome : JobOutcome} (h : Ended s s' id outcome) (hj : j ≠ id)
    (hp : state ≠ .pending) (hb : state ≠ .blocked) :
    s'.stateOf? j = some state ↔ s.stateOf? j = some state := by
  cases h.others j hj with
  | inl he => rw [he]
  | inr he =>
    rw [he.1, he.2, Option.some_inj, Option.some_inj]
    exact iff_of_false hb.symm hp.symm

/-- Reviving takes jobs from the clean state into the pending and the blocked one. -/
theorem Revived.stateOf?_iff (h : Revived s s' ids) (hids : ∀ j ∈ ids, s.isClean j)
    (hc : state ≠ .clean) (hp : state ≠ .pending) (hb : state ≠ .blocked) :
    s'.stateOf? j = some state ↔ s.stateOf? j = some state := by
  by_cases hj : j ∈ ids
  · rw [show s.stateOf? j = some .clean from hids j hj, Option.some_inj]
    refine iff_of_false (fun he => ?_) hc.symm
    cases h.revived j hj with
    | inl hs => exact hp (Option.some.inj (he.symm.trans hs))
    | inr hs => exact hb (Option.some.inj (he.symm.trans hs))
  · rw [h.others j hj]

/-- At the beginning jobs are pending or clean. -/
theorem stateOf?_start_ne {plan : BuildPlan} {policy : FailurePolicy} (hp : state ≠ .pending)
    (hc : state ≠ .clean) : (start plan policy).stateOf? j ≠ some state := by
  intro h
  rw [stateOf?_start plan policy ((sound_start plan policy).lt_size h), Option.some_inj] at h
  split at h
  · exact hp h.symm
  · exact hc h.symm

end States

/-! ## Ends and new starts -/

/-- **Some jobs have ended, and some have started**, while all others that had started
stand where they stood. -/
structure Advanced (s s' : Scheduler) (ended new : List JobId) : Prop where
  plan_eq : s'.plan = s.plan
  counted : s'.Counted
  ended_iff : ∀ j, s'.hasEnded j ↔ s.hasEnded j ∨ j ∈ ended
  running_iff : ∀ j, s'.stateOf? j = some .running ↔
    s.stateOf? j = some .running ∧ j ∉ ended ∨ j ∈ new
  nodup : new.Nodup
  fresh : ∀ j ∈ new, ¬ s.hasStarted j ∧ j ∉ ended

theorem Advanced.refl {s : Scheduler} (hs : s.Counted) : s.Advanced s [] [] where
  plan_eq := rfl
  counted := hs
  ended_iff j := by simp
  running_iff j := by simp
  nodup := List.nodup_nil
  fresh j h := absurd h List.not_mem_nil

theorem advanced_cancel {s : Scheduler} (hs : s.Counted) : s.Advanced s.cancel [] [] :=
  { Advanced.refl hs with counted := hs.cancel }

/-- **What an end and a revival do to the jobs that are neither clean nor still to be done**:
one more has ended as was said. -/
theorem stateOf?_complete_revive {s : Scheduler} (hs : s.Sound) (hg : s.plan.graph.WellFormed)
    {id : JobId} (hrun : s.stateOf? id = some .running) (outcome : JobOutcome)
    (roots : List JobId) :
    (s.applyAll [.complete id outcome, .revive roots]).stateOf? id = some outcome.state
      ∧ ∀ j ≠ id, ∀ state, state ≠ .clean → state ≠ .pending → state ≠ .blocked →
        ((s.applyAll [.complete id outcome, .revive roots]).stateOf? j = some state ↔
          s.stateOf? j = some state) := by
  have hended := ended_complete hs outcome hrun
  have hgraph : (s.complete id outcome).1.plan.graph.WellFormed := hended.plan_eq.symm ▸ hg
  have hrevived := revived_revive hended.sound hgraph roots
  have hclean : ∀ j ∈ (s.complete id outcome).1.cleanBehind roots,
      (s.complete id outcome).1.isClean j := fun j => isClean_of_mem_cleanBehind
  refine ⟨?_, fun j hj state hc hp hb => ?_⟩
  · exact (hrevived.stateOf?_iff hclean (outcome.state_ne (by decide) (by decide))
      (outcome.state_ne (by decide) (by decide))
      (outcome.state_ne (by decide) (by decide))).2 hended.ended
  · exact (hrevived.stateOf?_iff hclean hc hp hb).trans (hended.stateOf?_iff hj hp hb)

/-- An end and a revival let one job end and start none. -/
theorem advanced_complete_revive {s : Scheduler} (hs : s.Counted) (hg : s.plan.graph.WellFormed)
    {id : JobId} (hrun : s.stateOf? id = some .running) (outcome : JobOutcome)
    (roots : List JobId) :
    s.Advanced (s.applyAll [.complete id outcome, .revive roots]) [id] [] := by
  obtain ⟨hcounted, hplan⟩ :=
    Balanced.applyAll [.complete id outcome, .revive roots] hs hg
  obtain ⟨hid, hstate⟩ := stateOf?_complete_revive hs.sound hg hrun outcome roots
  refine ⟨hplan, hcounted, fun j => ?_, fun j => ?_, List.nodup_nil,
    fun j h => absurd h List.not_mem_nil⟩
  · by_cases hj : j = id
    · subst hj
      refine iff_of_true ?_ (.inr List.mem_cons_self)
      unfold hasEnded
      rw [hid]
      cases outcome <;> simp [JobOutcome.state]
    · unfold hasEnded
      rw [hstate j hj _ (by decide) (by decide) (by decide),
        hstate j hj _ (by decide) (by decide) (by decide)]
      simp [hj]
  · by_cases hj : j = id
    · subst hj
      rw [hid]
      cases outcome <;> simp [JobOutcome.state]
    · rw [hstate j hj _ (by decide) (by decide) (by decide)]
      simp [hj]

/-- **Handing out starts jobs.** -/
theorem Advanced.dispatch {s s' : Scheduler} {ended : List JobId} (h : s.Advanced s' ended [])
    (limit : Nat) : s.Advanced (s'.dispatch limit).1 ended (s'.dispatch limit).2 := by
  have hout := handedOut_dispatch limit h.counted.sound
  refine ⟨hout.plan_eq.trans h.plan_eq, h.counted.dispatch limit, fun j => ?_, fun j => ?_,
    hout.nodup, fun j hj => ?_⟩
  · rw [← h.ended_iff, hout.hasEnded_iff]
  · rw [hout.running_iff, h.running_iff]
    simp
  · have hpending := hout.was_pending j hj
    have hnotEnded : ¬ s'.hasEnded j := by
      unfold hasEnded
      simp [hpending]
    have hnotRunning : s'.stateOf? j ≠ some .running := by simp [hpending]
    rw [h.ended_iff, not_or] at hnotEnded
    rw [ne_eq, h.running_iff, not_or] at hnotRunning
    exact ⟨fun hs => hs.elim (fun hr => hnotRunning.1 ⟨hr, hnotEnded.2⟩) hnotEnded.1,
      hnotEnded.2⟩

/-! ## How many jobs run -/

/-- A list is counted place by place. -/
theorem countP_eq_countP_range {α : Type} (p : α → Bool) (l : List α) :
    l.countP p = (List.range l.length).countP fun i => (l[i]?).any p := by
  induction l with
  | nil => rfl
  | cons a rest ih =>
    rw [List.countP_cons, List.length_cons, List.range_succ_eq_map, List.countP_cons,
      List.countP_map, ih]
    rfl

/-- **The running jobs are counted.** -/
theorem Balanced.running_eq_countP {s : Scheduler} (hs : s.Counted) :
    s.running = s.plan.graph.ids.countP fun id => s.stateOf? id == some .running := by
  rw [hs.running_eq, List.count_eq_countP, countP_eq_countP_range, hs.length_states]
  refine List.countP_congr fun id _ => ?_
  show (s.stateOf? id).any _ = true ↔ _
  cases s.stateOf? id <;> simp

theorem Balanced.running_eq_zero_iff {s : Scheduler} (hs : s.Counted) :
    s.running = 0 ↔ ∀ id, s.stateOf? id ≠ some .running := by
  rw [hs.running_eq, List.count_eq_zero, List.mem_iff_getElem?, not_exists]
  rfl

/-- Where no job runs that did not run before, no more jobs run. -/
theorem Advanced.running_le {s s' : Scheduler} {ended : List JobId} (hs : s.Counted)
    (h : s.Advanced s' ended []) : s'.running ≤ s.running := by
  rw [h.counted.running_eq_countP, hs.running_eq_countP, h.plan_eq]
  refine List.countP_mono_left fun j _ hj => ?_
  rw [beq_iff_eq, h.running_iff] at hj
  exact beq_iff_eq.2 (hj.resolve_right List.not_mem_nil).1

theorem running_handOut (room : Nat) (s : Scheduler) :
    s.running ≤ (s.handOut room).1.running ∧ (s.handOut room).1.running ≤ s.running + room := by
  induction room generalizing s with
  | zero => exact ⟨Nat.le_refl _, Nat.le_refl _⟩
  | succ room ih =>
    cases hready : s.ready.toList with
    | nil =>
      unfold handOut
      rw [hready]
      exact ⟨Nat.le_refl _, Nat.le_add_right _ _⟩
    | cons id rest =>
      rw [handOut_succ room hready]
      have := ih (s.handOne id)
      have hone : (s.handOne id).running = s.running + 1 := rfl
      dsimp only
      omega

/-- **No more jobs are handed out than may run at once.** -/
theorem running_dispatch_le {s : Scheduler} {limit : Nat} (h : s.running ≤ limit) :
    (s.dispatch limit).1.running ≤ limit := by
  unfold dispatch
  split
  · exact h
  · have := (running_handOut (min (limit - s.running) s.ready.size) s).2
    omega

/-- **If no job runs after a handing out, the scheduler is finished**: there was room, so
all that was ready would have been handed out. -/
theorem isFinished_dispatch {s : Scheduler} {limit : Nat} (hlimit : 0 < limit)
    (h : (s.dispatch limit).1.running = 0) : (s.dispatch limit).1.isFinished = true := by
  unfold dispatch at h ⊢
  split
  · rename_i hclosed
    rw [if_pos hclosed] at h
    unfold isFinished
    rw [show s.running = 0 from h, hclosed]
    rfl
  · rename_i hclosed
    rw [if_neg hclosed] at h
    cases hready : s.ready.toList with
    | nil =>
      have hentries : s.ready.entries = [] := List.map_eq_nil_iff.1 hready
      have hroom : min (limit - s.running) s.ready.size = 0 := by
        show min _ s.ready.entries.length = 0
        rw [hentries]
        exact Nat.min_zero _
      rw [hroom] at h ⊢
      show (s.running == 0 && (s.isClosed || s.ready.entries.isEmpty)) = true
      rw [show s.running = 0 from h, hentries]
      simp
    | cons id rest =>
      have hsize : s.ready.size = rest.length + 1 := by
        show s.ready.entries.length = _
        rw [← List.length_map, ← List.length_cons, ← hready]
        rfl
      have hzero : s.running = 0 := by
        have := (running_handOut (min (limit - s.running) s.ready.size) s).1
        omega
      obtain ⟨room, hroom⟩ : ∃ room, min (limit - s.running) s.ready.size = room + 1 :=
        ⟨min (limit - s.running) s.ready.size - 1, by omega⟩
      rw [hroom, handOut_succ room hready] at h
      have := (running_handOut room (s.handOne id)).1
      have hone : (s.handOne id).running = s.running + 1 := rfl
      dsimp only at h
      omega

/-- **Nothing is stranded**: where nothing runs and nothing is ready, nothing is pending. A
pending job of least rank would wait for nothing. -/
theorem Balanced.not_pending {s : Scheduler} (hs : s.Counted) (hg : s.plan.graph.WellFormed)
    (hidle : ∀ id, s.stateOf? id ≠ some .running) (hready : s.ready.isEmpty = true) (id : JobId) :
    s.stateOf? id ≠ some .pending := by
  obtain ⟨rank, hrank⟩ := hg.ranked
  induction hr : rank id using Nat.strong_induction_on generalizing id with
  | _ n ih =>
    intro hpending
    have hzero : s.waitsFor id = 0 := List.countP_eq_zero.2 fun p hp => by
      obtain ⟨job, hjob, hlisted⟩ := JobGraph.mem_prerequisitesOf.1 hp
      obtain ⟨hmem, rfl⟩ := hg.job?_eq_some_iff.1 hjob
      have hnot := ih _ (hr ▸ (hrank job hmem p hlisted).2) p rfl
      unfold isOpen
      simp [hidle p, hnot]
    have hcount : s.remaining.getD id 0 = s.waitsFor id := hs.remaining_eq id hpending
    have hmem := OrderedSet.contains_iff_mem_toList.1
      ((hs.ready_iff id).2 ⟨hpending, hcount.trans hzero⟩)
    have hnone : s.ready.toList = [] := List.map_eq_nil_iff.2 (List.isEmpty_iff.1 hready)
    rw [hnone] at hmem
    exact absurd hmem List.not_mem_nil

/-! ## What ends the handing out -/

/-- The policy, and what has ended the handing out of jobs. -/
def gate (s : Scheduler) : FailurePolicy × Bool × Bool := (s.policy, s.halted, s.cancelled)

theorem gate_eq_iff {s : Scheduler} {policy : FailurePolicy} {halted cancelled : Bool} :
    s.gate = (policy, halted, cancelled) ↔
      s.policy = policy ∧ s.halted = halted ∧ s.cancelled = cancelled := by
  simp [gate]

theorem gate_dispatch (s : Scheduler) (limit : Nat) : (s.dispatch limit).1.gate = s.gate := by
  have hout (room : Nat) : ∀ s : Scheduler, (s.handOut room).1.gate = s.gate := by
    induction room with
    | zero => exact fun _ => rfl
    | succ room ih =>
      intro s
      unfold handOut
      split
      · rfl
      · exact ih _
  unfold dispatch
  split
  · rfl
  · exact hout _ s

theorem gate_releaseAll (s : Scheduler) (ids : List JobId) :
    (s.releaseAll ids).1.gate = s.gate := by
  induction ids generalizing s with
  | nil => rfl
  | cons id rest ih =>
    refine (ih (s.releaseOne id).1).trans ?_
    unfold releaseOne
    split
    · dsimp only
      split <;> rfl
    · rfl

theorem gate_blockAll (s : Scheduler) (ids : List JobId) : (s.blockAll ids).1.gate = s.gate := by
  induction ids generalizing s with
  | nil => rfl
  | cons id rest ih =>
    unfold blockAll
    split
    · exact ih _
    · exact ih s

theorem gate_foldl_delay (s : Scheduler) (ids : List JobId) :
    (ids.foldl delay s).gate = s.gate := by
  induction ids generalizing s with
  | nil => rfl
  | cons id rest ih =>
    refine (ih (s.delay id)).trans ?_
    unfold delay
    split <;> rfl

theorem gate_revive (s : Scheduler) (roots : List JobId) : (s.revive roots).1.gate = s.gate := by
  have hfold (selected ids : List JobId) : ∀ acc : Scheduler × SchedulerStep,
      (ids.foldl (reviveOne selected) acc).1.gate = acc.1.gate := by
    induction ids with
    | nil => exact fun _ => rfl
    | cons id rest ih =>
      refine fun acc => (ih _).trans ?_
      unfold reviveOne
      dsimp only
      split
      · rfl
      · exact gate_foldl_delay _ _
  exact hfold _ _ _

/-- **A failure ends the handing out under the policy that says so.** -/
theorem gate_complete {s : Scheduler} {id : JobId} (hrun : s.stateOf? id = some .running)
    (outcome : JobOutcome) :
    (s.complete id outcome).1.gate
      = (s.policy, s.halted || (!outcome.isSuccess && s.policy == .failFast), s.cancelled) := by
  cases outcome with
  | succeeded =>
    rw [complete_succeeded hrun, gate_releaseAll]
    show (s.policy, s.halted, s.cancelled) = (s.policy, s.halted || false, s.cancelled)
    rw [Bool.or_false]
  | failed kind =>
    let blocked := (s.close id .failed).blockAll (s.plan.graph.transitiveDependents id).toList
    obtain ⟨hpolicy, hhalted, hcancelled⟩ :
        blocked.1.policy = s.policy ∧ blocked.1.halted = s.halted ∧
          blocked.1.cancelled = s.cancelled :=
      gate_eq_iff.1 (gate_blockAll (s.close id .failed) _)
    unfold complete
    rw [if_neg fun hne => hne hrun]
    show (blocked.1.policy,
      blocked.1.halted || (blocked.1.policy == .failFast && !blocked.1.halted),
      blocked.1.cancelled) = _
    rw [hpolicy, hhalted, hcancelled]
    cases s.halted <;> simp [JobOutcome.isSuccess]

/-- The jobs that have started are those that had, and the new ones. -/
theorem Advanced.hasStarted_iff {s s' : Scheduler} {ended new : List JobId}
    (h : s.Advanced s' ended new) (hrun : ∀ id ∈ ended, s.stateOf? id = some .running)
    (j : JobId) : s'.hasStarted j ↔ s.hasStarted j ∨ j ∈ new := by
  unfold hasStarted
  rw [h.running_iff, h.ended_iff]
  by_cases hj : j ∈ ended
  · simp [hj, hrun j hj]
  · simp only [hj, not_false_eq_true, and_true, or_false]
    tauto

end Scheduler

section Runs

variable {ω σ : Type}

/-! ## What a core answers -/

/-- What a core answers when it is called. -/
def CoreHistory.reply (h : CoreHistory σ) : CoreCall σ → CoreStep
  | .begin => h.core.dispatch.2
  | .tell observe event => (h.core.handle observe h.observed event).2.2

/-- **A core that does not break off asks for more as long as its scheduler is not
finished.** -/
theorem CoreHistory.keepRunning_reply (h : CoreHistory σ) {call : CoreCall σ}
    (hsafe : (h.reply call).crashed = false) :
    (h.reply call).keepRunning = !(h.call call).core.scheduler.isFinished := by
  cases call with
  | begin => rfl
  | tell observe event =>
    cases event with
    | cancelRequested => rfl
    | jobFinished id outcome =>
      unfold reply CoreHistory.call Core.handle at *
      dsimp only at *
      split at hsafe
      · rfl
      · cases hsafe
      · rfl

/-- **A core breaks off exactly where a call strays.** -/
theorem CoreHistory.crashed_reply_iff (h : CoreHistory σ) (call : CoreCall σ) :
    (h.reply call).crashed = true ↔ call.Strays h.core.scheduler.plan := by
  have hnever : ∀ {p : Prop}, (false = true ↔ p) ↔ ¬ p := by simp
  cases call with
  | begin => exact hnever.2 id
  | tell observe event =>
    cases event with
    | cancelRequested => exact hnever.2 id
    | jobFinished id outcome =>
      cases outcome with
      | failed kind => exact hnever.2 fun h => h
      | succeeded =>
        unfold reply Core.handle CoreCall.Strays
        dsimp only
        rw [← JobGraph.job?_eq_none_iff]
        cases h.core.scheduler.plan.graph.job? id with
        | none => exact iff_of_true rfl rfl
        | some job => exact iff_of_false Bool.false_ne_true (by simp)

/-- The job of which a call tells the end. -/
def CoreCall.finished? : CoreCall σ → Option JobId
  | .begin => none
  | .tell _ event => event.finished?

/-- The jobs of which some events tell the end. -/
def endedIn (told : List (Told ω)) : List JobId := told.filterMap fun t => t.event.finished?

theorem endedIn_concat (told : List (Told ω)) (t : Told ω) :
    endedIn (told ++ [t]) = endedIn told ++ t.event.finished?.toList := by
  unfold endedIn
  rw [List.filterMap_append]
  cases h : t.event.finished? <;> simp [h]

/-! ## Runs -/

/-- **The runs of a core**: it begins, and is told of requests to stop and of the ends of
jobs that were handed out, of each once. -/
inductive CoreRun (observe : WorldObserver ω σ) (first : CoreHistory σ) :
    List (Told ω) → CoreHistory σ → CoreStep → Prop
  /-- It begins. -/
  | begin : CoreRun observe first [] (first.call .begin) (first.reply .begin)
  /-- It is told of something. -/
  | tell {told h step} (t : Told ω) : CoreRun observe first told h step →
      (∀ id ∈ t.event.finished?, id ∈ h.dispatched ∧ id ∉ endedIn told) →
      CoreRun observe first (told ++ [t]) (h.call (.tell (observe t.world) t.event))
        (h.reply (.tell (observe t.world) t.event))

namespace CoreHistory

/-- **What was handed out and what has ended agree with the states**, where the ends of
some jobs were told. -/
structure Tallied (h : CoreHistory σ) (plan : BuildPlan) (limit : Nat) (ended : List JobId) :
    Prop where
  plan_eq : h.core.scheduler.plan = plan
  counted : h.core.scheduler.Counted
  limit_eq : h.core.concurrency = limit
  running_le : h.core.scheduler.running ≤ limit
  nodup : h.dispatched.Nodup
  mem_iff : ∀ id, id ∈ h.dispatched ↔ h.core.scheduler.hasStarted id
  nodup_ended : ended.Nodup
  mem_ended_iff : ∀ id, id ∈ ended ↔ h.core.scheduler.hasEnded id

section Tallied

variable {h : CoreHistory σ} {plan : BuildPlan} {limit : Nat} {ended : List JobId}

theorem tallied_start (plan : BuildPlan) (policy : FailurePolicy) (concurrency : Nat)
    (observed : σ) :
    (start plan policy concurrency observed).Tallied plan (max concurrency 1) [] := by
  have hended (id : JobId) : ¬ (Scheduler.start plan policy).hasEnded id := fun h =>
    h.elim (Scheduler.stateOf?_start_ne (by decide) (by decide))
      (Scheduler.stateOf?_start_ne (by decide) (by decide))
  have hstarted (id : JobId) : ¬ (Scheduler.start plan policy).hasStarted id := fun h =>
    h.elim (Scheduler.stateOf?_start_ne (by decide) (by decide)) (hended id)
  exact ⟨rfl, Scheduler.counted_start plan policy, rfl, Nat.zero_le _, List.nodup_nil,
    fun id => iff_of_false List.not_mem_nil (hstarted id), List.nodup_nil,
    fun id => iff_of_false List.not_mem_nil (hended id)⟩

/-- What was handed out and has not ended is running. -/
theorem Tallied.running_iff (hh : h.Tallied plan limit ended) (id : JobId) :
    h.core.scheduler.stateOf? id = some .running ↔ id ∈ h.dispatched ∧ id ∉ ended := by
  rw [hh.mem_iff, hh.mem_ended_iff]
  unfold Scheduler.hasStarted Scheduler.hasEnded
  constructor
  · intro hrun
    simp [hrun]
  · exact fun hs => hs.1.resolve_right hs.2

/-- What is running is a job of the plan, so a call that tells its end does not stray. -/
theorem Tallied.not_strays (hh : h.Tallied plan limit ended) {call : CoreCall σ}
    (hends : ∀ id ∈ call.finished?, id ∈ h.dispatched ∧ id ∉ ended) :
    ¬ call.Strays h.core.scheduler.plan := by
  cases call with
  | begin => exact not_false
  | tell observe event =>
    exact CoreCall.not_strays_tell fun id hid =>
      hh.counted.sound.lt_size ((hh.running_iff id).2 (hends id hid))

/-- What a call does before jobs are handed out: the job that it tells the end of ends. -/
theorem Tallied.advanced (hh : h.Tallied plan limit ended) (hg : plan.graph.WellFormed)
    (call : CoreCall σ) (hends : ∀ id ∈ call.finished?, id ∈ h.dispatched ∧ id ∉ ended) :
    h.core.scheduler.Advanced (h.core.scheduler.applyAll (call.prelude h.core h.observed))
      call.finished?.toList [] := by
  cases call with
  | begin => exact .refl hh.counted
  | tell observe event =>
    cases event with
    | cancelRequested => exact Scheduler.advanced_cancel hh.counted
    | jobFinished id outcome =>
      exact Scheduler.advanced_complete_revive hh.counted (hh.plan_eq.symm ▸ hg)
        ((hh.running_iff id).2 (hends id rfl)) outcome _

/-- **A call keeps the tally.** -/
theorem Tallied.call (hh : h.Tallied plan limit ended) (hg : plan.graph.WellFormed)
    (call : CoreCall σ) (hends : ∀ id ∈ call.finished?, id ∈ h.dispatched ∧ id ∉ ended) :
    (h.call call).Tallied plan limit (ended ++ call.finished?.toList) := by
  obtain ⟨hscheduler, hlimit, hdispatched⟩ := h.call_spec (hh.not_strays hends)
  have hprelude := hh.advanced hg call hends
  have hall := hprelude.dispatch h.core.concurrency
  rw [← hscheduler] at hall
  have hrun : ∀ id ∈ call.finished?.toList, h.core.scheduler.stateOf? id = some .running :=
    fun id hid => (hh.running_iff id).2 (hends id (Option.mem_toList.1 hid))
  have hnodup : call.finished?.toList.Nodup := by
    cases call.finished? <;> simp
  refine ⟨hall.plan_eq.trans hh.plan_eq, hall.counted, hlimit.trans hh.limit_eq, ?_, ?_,
    fun id => ?_, ?_, fun id => ?_⟩
  · rw [hscheduler]
    refine hh.limit_eq ▸ Scheduler.running_dispatch_le ?_
    exact (hprelude.running_le hh.counted).trans (hh.limit_eq ▸ hh.running_le)
  · rw [hdispatched]
    refine List.nodup_append.2 ⟨hh.nodup, hall.nodup, fun a ha b hb hab => ?_⟩
    exact (hall.fresh b hb).1 ((hh.mem_iff b).1 (hab ▸ ha))
  · rw [hdispatched, List.mem_append, hh.mem_iff, hall.hasStarted_iff hrun]
  · refine List.nodup_append.2 ⟨hh.nodup_ended, hnodup,
      fun a ha b hb hab => ?_⟩
    exact (hends b (Option.mem_toList.1 hb)).2 (hab ▸ ha)
  · rw [List.mem_append, hh.mem_ended_iff, hall.ended_iff]

/-- **A call after which no job runs is one after which nothing is to be handed out.** -/
theorem Tallied.isFinished_call (hh : h.Tallied plan limit ended) (hlimit : 0 < limit)
    {call : CoreCall σ} (hends : ∀ id ∈ call.finished?, id ∈ h.dispatched ∧ id ∉ ended)
    (hidle : (h.call call).core.scheduler.running = 0) :
    (h.call call).core.scheduler.isFinished = true := by
  have hscheduler := (h.call_spec (hh.not_strays hends)).1
  rw [hscheduler] at hidle ⊢
  exact Scheduler.isFinished_dispatch (hh.limit_eq ▸ hlimit) hidle

end Tallied

end CoreHistory

/-! ## What ends the handing out in a run -/

/-- Whether an event tells of a failure. -/
def RuntimeEvent.isFailure : RuntimeEvent → Bool
  | .jobFinished _ outcome => !outcome.isSuccess
  | .cancelRequested => false

/-- Whether some events tell of a failure. -/
def failedIn (told : List (Told ω)) : Bool := told.any fun t => t.event.isFailure

/-- Whether some events ask to stop. -/
def cancelledIn (told : List (Told ω)) : Bool := told.any fun t => t.event == .cancelRequested

/-- What an end of a running job and a revival, or a request to stop, do to the gate. -/
theorem CoreHistory.gate_call (h : CoreHistory σ) (hs : h.core.scheduler.Sound)
    (observe : Observer σ) {event : RuntimeEvent}
    (hrun : ∀ id ∈ event.finished?, h.core.scheduler.stateOf? id = some .running) :
    (h.call (.tell observe event)).core.scheduler.gate
      = (h.core.scheduler.policy,
          h.core.scheduler.halted || (event.isFailure && h.core.scheduler.policy == .failFast),
          h.core.scheduler.cancelled || event == .cancelRequested) := by
  have hknown : ¬ (CoreCall.tell observe event).Strays h.core.scheduler.plan :=
    CoreCall.not_strays_tell fun id hid => hs.lt_size (hrun id hid)
  rw [(h.call_spec hknown).1, Scheduler.gate_dispatch]
  cases event with
  | cancelRequested =>
    show (h.core.scheduler.policy, h.core.scheduler.halted, true) = _
    simp [RuntimeEvent.isFailure]
  | jobFinished id outcome =>
    refine (Scheduler.gate_revive _ _).trans ?_
    refine (Scheduler.gate_complete (hrun id rfl) outcome).trans ?_
    show _ = (_, _, h.core.scheduler.cancelled || false)
    rw [Bool.or_false]
    rfl

section Start

variable {observe : WorldObserver ω σ} {plan : BuildPlan} {policy : FailurePolicy}
  {concurrency : Nat} {observed : σ} {told : List (Told ω)} {h : CoreHistory σ} {step : CoreStep}

/-- **Every run is tallied.** -/
theorem CoreRun.tallied (hg : plan.graph.WellFormed)
    (hrun : CoreRun observe (.start plan policy concurrency observed) told h step) :
    h.Tallied plan (max concurrency 1) (endedIn told) := by
  induction hrun with
  | begin =>
    exact (CoreHistory.tallied_start plan policy concurrency observed).call hg .begin
      fun id hid => absurd hid (Option.not_mem_none id)
  | tell t _ hends ih =>
    rw [endedIn_concat]
    exact ih.call hg (.tell (observe t.world) t.event) hends

/-- **A job whose end was told stands as was told.** -/
theorem CoreRun.stateOf?_of_mem_told (hg : plan.graph.WellFormed)
    (hrun : CoreRun observe (.start plan policy concurrency observed) told h step) {t : Told ω}
    (ht : t ∈ told) {id : JobId} {outcome : JobOutcome} (he : t.event = .jobFinished id outcome) :
    h.core.scheduler.stateOf? id = some outcome.state := by
  have hpending : outcome.state ≠ .pending := outcome.state_ne (by decide) (by decide)
  have hrunning : outcome.state ≠ .running := outcome.state_ne (by decide) (by decide)
  have hclean : outcome.state ≠ .clean := outcome.state_ne (by decide) (by decide)
  have hblocked : outcome.state ≠ .blocked := outcome.state_ne (by decide) (by decide)
  induction hrun with
  | begin => exact absurd ht List.not_mem_nil
  | @tell told h step last hbefore hends ih =>
    have hh := hbefore.tallied hg
    have hgraph : h.core.scheduler.plan.graph.WellFormed := hh.plan_eq.symm ▸ hg
    let call : CoreCall σ := .tell (observe last.world) last.event
    have hknown : ¬ call.Strays h.core.scheduler.plan := hh.not_strays hends
    rw [(h.call_spec hknown).1,
      (Scheduler.handedOut_dispatch _
        (hh.counted.applyAll _ hgraph).1.sound).stateOf?_iff hpending hrunning]
    obtain ⟨world, event⟩ := last
    cases event with
    | cancelRequested =>
      have ht : t ∈ told := (List.mem_append.1 ht).resolve_right fun hm => by
        rw [List.mem_singleton.1 hm] at he
        cases he
      exact ih ht
    | jobFinished other ended =>
      have hother := (hh.running_iff other).2 (hends other rfl)
      obtain ⟨hself, hrest⟩ := Scheduler.stateOf?_complete_revive hh.counted.sound hgraph hother
        ended (Core.answer (observe world) h.core.scheduler.plan.graph h.observed other ended).2
      cases List.mem_append.1 ht with
      | inl ht =>
        -- What has ended before does not run, and so is not what ends now.
        have hid := ih ht
        have hne : id ≠ other := fun e => hrunning (Option.some.inj (hid.symm.trans (e ▸ hother)))
        exact (hrest id hne _ hclean hpending hblocked).2 hid
      | inr ht =>
        rw [List.mem_singleton.1 ht] at he
        cases he
        exact hself

/-- What has ended the handing out in a run: a failure under the policy that says so, or a
request to stop. -/
theorem CoreRun.gate_eq (hg : plan.graph.WellFormed)
    (hrun : CoreRun observe (.start plan policy concurrency observed) told h step) :
    h.core.scheduler.gate = (policy, failedIn told && policy == .failFast, cancelledIn told) := by
  induction hrun with
  | begin => exact Scheduler.gate_dispatch (.start plan policy) _
  | @tell told h step t hbefore hends ih =>
    have hh := hbefore.tallied hg
    rw [h.gate_call hh.counted.sound (observe t.world) fun id hid =>
      (hh.running_iff id).2 (hends id hid)]
    obtain ⟨hpolicy, hhalted, hcancelled⟩ := Scheduler.gate_eq_iff.1 ih
    rw [hpolicy, hhalted, hcancelled]
    unfold failedIn cancelledIn
    rw [List.any_append, List.any_append, Bool.and_or_distrib_right]
    simp

/-- **No core breaks off in a run.** -/
theorem CoreRun.crashed_eq_false (hg : plan.graph.WellFormed)
    (hrun : CoreRun observe (.start plan policy concurrency observed) told h step) :
    step.crashed = false := by
  cases hrun with
  | begin => rfl
  | tell t hbefore hends =>
    rw [← Bool.not_eq_true, CoreHistory.crashed_reply_iff]
    exact (hbefore.tallied hg).not_strays hends

/-- A core asks for more as long as its scheduler is not finished. -/
theorem CoreRun.keepRunning_eq (hg : plan.graph.WellFormed)
    (hrun : CoreRun observe (.start plan policy concurrency observed) told h step) :
    step.keepRunning = !h.core.scheduler.isFinished := by
  have hsafe := hrun.crashed_eq_false hg
  cases hrun with
  | begin => exact CoreHistory.keepRunning_reply _ hsafe
  | tell => exact CoreHistory.keepRunning_reply _ hsafe

/-- **A core asks for more exactly as long as a job runs.** -/
theorem CoreRun.keepRunning_eq_false_iff (hg : plan.graph.WellFormed)
    (hrun : CoreRun observe (.start plan policy concurrency observed) told h step) :
    step.keepRunning = false ↔ ∀ id, h.core.scheduler.stateOf? id ≠ some .running := by
  have hlimit : 0 < max concurrency 1 := lt_max_of_lt_right Nat.one_pos
  rw [← (hrun.tallied hg).counted.running_eq_zero_iff, hrun.keepRunning_eq hg, Bool.not_eq_false']
  refine ⟨fun hf => beq_iff_eq.1 (Bool.and_eq_true_iff.1 hf).1, fun hidle => ?_⟩
  cases hrun with
  | begin =>
    exact (CoreHistory.tallied_start plan policy concurrency observed).isFinished_call hlimit
      (fun id hid => absurd hid (Option.not_mem_none id)) hidle
  | tell t hbefore hends => exact (hbefore.tallied hg).isFinished_call hlimit hends hidle

/-- A run has one outcome. -/
theorem CoreRun.eq_ofTold
    (hrun : CoreRun observe (.start plan policy concurrency observed) told h step) :
    h = .ofTold observe plan policy concurrency observed told := by
  induction hrun with
  | begin => rfl
  | tell t _ _ ih => rw [CoreHistory.ofTold_concat, ih]

/-- What a run was told last. -/
theorem CoreRun.exists_before {t : Told ω}
    (hrun : CoreRun observe (.start plan policy concurrency observed) (told ++ [t]) h step) :
    ∃ before step', CoreRun observe (.start plan policy concurrency observed) told before step' ∧
      (∀ id ∈ t.event.finished?, id ∈ before.dispatched ∧ id ∉ endedIn told) ∧
      h = before.call (.tell (observe t.world) t.event) := by
  generalize hlist : told ++ [t] = all at hrun
  cases hrun with
  | begin => simp at hlist
  | tell t' hbefore hends =>
    obtain ⟨rfl, rfl⟩ := List.append_inj' hlist rfl |>.imp_right List.singleton_inj.1
    exact ⟨_, _, hbefore, hends, rfl⟩

/-- **Once no job runs, nothing more is handed out**, whatever the core is told: all that
was handed out has ended, so that only requests to stop may come. -/
theorem CoreRun.dispatched_eq_of_idle (hg : plan.graph.WellFormed)
    (hrun : CoreRun observe (.start plan policy concurrency observed) told h step)
    (hidle : ∀ id, h.core.scheduler.stateOf? id ≠ some .running) (more : List (Told ω))
    {h' : CoreHistory σ} {step' : CoreStep}
    (hrun' : CoreRun observe (.start plan policy concurrency observed) (told ++ more) h' step') :
    h'.dispatched = h.dispatched ∧ ∀ id, h'.core.scheduler.stateOf? id ≠ some .running := by
  induction more using List.reverseRecOn generalizing h' step' with
  | nil =>
    rw [List.append_nil] at hrun'
    rw [hrun'.eq_ofTold, ← hrun.eq_ofTold]
    exact ⟨rfl, hidle⟩
  | append_singleton more t ih =>
    rw [← List.append_assoc] at hrun'
    obtain ⟨before, _, hbefore, hends, rfl⟩ := hrun'.exists_before
    obtain ⟨hdispatched, hnone⟩ := ih hbefore
    have hh := hbefore.tallied hg
    obtain ⟨world, event⟩ := t
    cases event with
    | cancelRequested => exact ⟨(List.append_nil _).trans hdispatched, hnone⟩
    | jobFinished id outcome => exact absurd ((hh.running_iff id).2 (hends id rfl)) (hnone id)

/-- An event is the end of a job or a request to stop. -/
theorem length_eq_endedIn (told : List (Told ω)) :
    told.length = (endedIn told).length + told.countP fun t => t.event == .cancelRequested := by
  induction told with
  | nil => rfl
  | cons t rest ih =>
    obtain ⟨world, event⟩ := t
    cases event with
    | cancelRequested =>
      show rest.length + 1 = (endedIn rest).length + _
      rw [ih, List.countP_cons_of_pos (by rfl), Nat.add_assoc]
    | jobFinished id outcome =>
      show rest.length + 1 = (endedIn rest).length + 1 + _
      rw [ih, List.countP_cons_of_neg (by simp)]
      omega

/-- Some different jobs of a plan are no more than the plan has. -/
theorem CoreHistory.Tallied.length_ended_le {limit : Nat} {ended : List JobId}
    (hh : h.Tallied plan limit ended) : ended.length ≤ plan.graph.size := by
  rw [← List.length_range (n := plan.graph.size)]
  refine (hh.nodup_ended.subperm fun id hid => List.mem_range.2 ?_).length_le
  have hs := hh.counted.sound
  exact hh.plan_eq ▸ ((hh.mem_ended_iff id).1 hid).elim hs.lt_size hs.lt_size

/-- **Nothing is stranded in a run**: where the core asks for no more and nothing has ended
the handing out, nothing is pending. -/
theorem CoreRun.not_pending (hg : plan.graph.WellFormed)
    (hrun : CoreRun observe (.start plan policy concurrency observed) told h step)
    (hend : step.keepRunning = false) (hcancel : cancelledIn told = false)
    (hfail : policy = .failFast → failedIn told = false) (id : JobId) :
    h.core.scheduler.stateOf? id ≠ some .pending := by
  have hh := hrun.tallied hg
  obtain ⟨-, hhalted, hcancelled⟩ := Scheduler.gate_eq_iff.1 (hrun.gate_eq hg)
  have hopen : h.core.scheduler.isClosed = false := by
    unfold Scheduler.isClosed
    rw [hhalted, hcancelled, hcancel]
    cases policy <;> simp_all
  have hfinished := (hrun.keepRunning_eq hg).symm.trans hend
  unfold Scheduler.isFinished at hfinished
  rw [hopen, Bool.not_eq_false', Bool.and_eq_true, Bool.false_or] at hfinished
  exact hh.counted.not_pending (hh.plan_eq.symm ▸ hg) ((hrun.keepRunning_eq_false_iff hg).1 hend)
    hfinished.2 id

/-- What a core was told is no more than the end of each job, and the requests to stop. -/
theorem CoreRun.length_le (hg : plan.graph.WellFormed)
    (hrun : CoreRun observe (.start plan policy concurrency observed) told h step) :
    told.length ≤ plan.graph.size + told.countP fun t => t.event == .cancelRequested := by
  rw [length_eq_endedIn told]
  exact Nat.add_le_add_right (hrun.tallied hg).length_ended_le _

/-- As long as a core asks for more, some job is out whose end was not told. -/
theorem CoreRun.exists_outstanding (hg : plan.graph.WellFormed)
    (hrun : CoreRun observe (.start plan policy concurrency observed) told h step)
    (hmore : step.keepRunning = true) : ∃ id ∈ h.dispatched, id ∉ endedIn told := by
  by_contra hnone
  have hidle : step.keepRunning = false := (hrun.keepRunning_eq_false_iff hg).2 fun id hid =>
    hnone ⟨id, ((hrun.tallied hg).running_iff id).1 hid⟩
  rw [hidle] at hmore
  cases hmore

/-- **In every run each job is handed out once at most and never more than may run at once;
the core asks for more exactly as long as a job runs or is to be handed out; and when it
does not, the jobs that have ended are those that were handed out.** Unless something has
ended the handing out, nothing is left to be given up then. -/
theorem CoreRun.every_job_accounted_for (hg : plan.graph.WellFormed)
    (hrun : CoreRun observe (.start plan policy concurrency observed) told h step) :
    h.dispatched.Nodup
      ∧ h.core.scheduler.states.count .running ≤ max concurrency 1
      ∧ (step.keepRunning = false ↔ (∀ id, h.core.scheduler.stateOf? id ≠ some .running) ∧
          ∀ more h' step', CoreRun observe (.start plan policy concurrency observed)
            (told ++ more) h' step' → h'.dispatched = h.dispatched)
      ∧ told.length ≤ plan.graph.size + told.countP (fun t => t.event == .cancelRequested)
      ∧ (step.keepRunning = true → ∃ id ∈ h.dispatched, id ∉ endedIn told)
      ∧ (step.keepRunning = false →
          (∀ id, id ∈ h.dispatched ↔ h.core.scheduler.stateOf? id = some .succeeded ∨
            h.core.scheduler.stateOf? id = some .failed) ∧
          (cancelledIn told = false → (policy = .failFast → failedIn told = false) →
            (∀ id, h.core.scheduler.stateOf? id ≠ some .pending) ∧
              h.core.scheduler.finalize.2 = [])) := by
  have hh := hrun.tallied hg
  have hkeep := hrun.keepRunning_eq_false_iff hg
  refine ⟨hh.nodup, hh.counted.running_eq ▸ hh.running_le, ?_, hrun.length_le hg,
    hrun.exists_outstanding hg, fun hend => ?_⟩
  · rw [hkeep]
    exact ⟨fun hidle => ⟨hidle, fun more h' step' hrun' =>
      (hrun.dispatched_eq_of_idle hg hidle more hrun').1⟩, And.left⟩
  · have hidle := hkeep.1 hend
    refine ⟨fun id => (hh.mem_iff id).trans (or_iff_right (hidle id)), fun hcancel hfail => ?_⟩
    have hnone := hrun.not_pending hg hend hcancel hfail
    refine ⟨hnone, List.filter_eq_nil_iff.2 fun id _ hpending => ?_⟩
    exact hnone id (beq_iff_eq.1 hpending)

end Start

/-! The jobs of the diamond end one after the other. The right side is done at first, and the
end of the top revives it. -/

namespace Scheduler.Diamond

/-- The right side is asked for whenever a job has succeeded. -/
def reviving : WorldObserver Unit Unit := fun _ _ _ => ((), [2])

/-- All jobs succeed. -/
def successes : List (Told Unit) := [0, 1, 2, 3].map fun id => ⟨(), .jobFinished id .succeeded⟩

theorem run_successes : ∃ step,
    CoreRun reviving (.start plan .failFast 0 ()) successes
      (.ofTold reviving plan .failFast 0 () successes) step ∧ step.keepRunning = false :=
  ⟨_, (((CoreRun.begin.tell ⟨(), .jobFinished 0 .succeeded⟩ (by decide +kernel)).tell
    ⟨(), .jobFinished 1 .succeeded⟩ (by decide +kernel)).tell
    ⟨(), .jobFinished 2 .succeeded⟩ (by decide +kernel)).tell
    ⟨(), .jobFinished 3 .succeeded⟩ (by decide +kernel), by decide +kernel⟩

end Scheduler.Diamond

open Scheduler.Diamond in
theorem CoreRun.every_job_accounted_for_diamond :
    let h := CoreHistory.ofTold reviving plan .failFast 0 () successes
    ∃ step, CoreRun reviving (.start plan .failFast 0 ()) successes h step
      ∧ step.keepRunning = false ∧ h.dispatched = [0, 1, 2, 3] ∧ h.dispatched.Nodup
      ∧ (∀ id, h.core.scheduler.stateOf? id ≠ some .pending)
      ∧ h.core.scheduler.finalize.2 = [] := by
  intro h
  obtain ⟨step, hrun, hend⟩ := run_successes
  obtain ⟨hnodup, -, -, -, -, hlast⟩ := hrun.every_job_accounted_for graph_wellFormed
  exact ⟨step, hrun, hend, by decide +kernel, hnodup,
    (hlast hend).2 (by decide) fun _ => by decide⟩

end Runs

end IncrementalBuild
