import IncrementalBuild.Execution
import IncrementalBuild.Proofs.Scheduler

/-!
# Courses of an execution

`BuildPlan.execute` runs jobs one after the other and tells the core at once. Where
jobs run side by side, they may end in any order, the core may learn of their ends in
any order, the world may change meanwhile, and a request to stop may come at any time.
A `Course` is one way in which an execution can go, and what holds along every course
holds however the jobs are run.

A property of the scheduler and the observer holds along every course if it holds at
the beginning and after each thing that the core is told: this is `Course.induction`.
-/

namespace IncrementalBuild

/-! ## What one event does -/

/-- What the observer answers when a job has ended. -/
def Core.answer {σ : Type} (observe : Observer σ) (g : JobGraph) (observed : σ) (id : JobId)
    (outcome : JobOutcome) : σ × List JobId :=
  match outcome, g.job? id with
  | .succeeded, some job => observe observed job
  | _, _ => (observed, [])

/-- What the end of a running job has done to a scheduler, where the observer has
answered with some roots and some jobs were handed out. -/
structure Scheduler.Turned (s s' : Scheduler) (id : JobId) (outcome : JobOutcome)
    (roots dispatched : List JobId) : Prop where
  sound : s'.Sound
  plan_eq : s'.plan = s.plan
  ended : s'.stateOf? id = some outcome.state
  clean_iff : ∀ j, s'.isClean j ↔ s.isClean j ∧ j ∉ s.cleanBehind roots
  succeeded_iff : ∀ j, j ≠ id →
    (s'.stateOf? j = some .succeeded ↔ s.stateOf? j = some .succeeded)
  running : ∀ j, j ≠ id → s.stateOf? j = some .running → s'.stateOf? j = some .running
  nodup : dispatched.Nodup
  dispatched : ∀ j ∈ dispatched, s.stateOf? j ≠ some .running ∧ s'.stateOf? j = some .running

namespace Scheduler

/-- What is clean behind some roots depends on the clean jobs alone. -/
theorem cleanBehind_congr {s s' : Scheduler} (hp : s'.plan = s.plan)
    (h : ∀ j, s'.isClean j ↔ s.isClean j) (roots : List JobId) :
    s'.cleanBehind roots = s.cleanBehind roots := by
  have hclean : (fun id => s'.stateOf? id == some JobState.clean)
      = fun id => s.stateOf? id == some JobState.clean := by
    funext id
    rw [Bool.eq_iff_iff, beq_iff_eq, beq_iff_eq]
    exact h id
  unfold cleanBehind
  rw [hp, hclean]

@[simp] theorem cleanBehind_nil (s : Scheduler) : s.cleanBehind [] = [] := by
  unfold cleanBehind reachable
  rfl

/-- **What an end, a revival and a handing out do to a job** other than the one that
ended: it is blocked, it is revived, it is handed out, or it stands where it stood. -/
theorem others_cases {s s₁ s₂ s₃ : Scheduler} {id : JobId} {outcome : JobOutcome}
    {revived dispatched : List JobId} (h₁ : Ended s s₁ id outcome)
    (hclean : ∀ j ∈ revived, s.isClean j) (h₂ : Revived s₁ s₂ revived)
    (h₃ : HandedOut s₂ s₃ dispatched) {j : JobId} (hj : j ≠ id) :
    (j ∈ revived ∧ s.stateOf? j = some .clean ∧
        (s₃.stateOf? j = some .pending ∨ s₃.stateOf? j = some .blocked) ∧ j ∉ dispatched) ∨
      (j ∈ dispatched ∧ s₃.stateOf? j = some .running ∧
        (j ∈ revived ∧ s.stateOf? j = some .clean ∨
          j ∉ revived ∧ s.stateOf? j = some .pending)) ∨
      (j ∉ revived ∧ j ∉ dispatched ∧ (s₃.stateOf? j = s.stateOf? j ∨
        s.stateOf? j = some .pending ∧ s₃.stateOf? j = some .blocked)) := by
  by_cases hb : j ∈ revived
  · by_cases hd : j ∈ dispatched
    · exact .inr (.inl ⟨hd, h₃.is_running j hd, .inl ⟨hb, hclean j hb⟩⟩)
    · refine .inl ⟨hb, hclean j hb, ?_, hd⟩
      rw [h₃.others j hd]
      exact h₂.revived j hb
  · have h₁ := h₁.others j hj
    rw [← h₂.others j hb] at h₁
    by_cases hd : j ∈ dispatched
    · refine .inr (.inl ⟨hd, h₃.is_running j hd, .inr ⟨hb, ?_⟩⟩)
      have hp := h₃.was_pending j hd
      rcases h₁ with he | ⟨he, -⟩
      · exact he ▸ hp
      · exact he
    · refine .inr (.inr ⟨hb, hd, ?_⟩)
      rw [h₃.others j hd]
      exact h₁

/-- **An end, a revival and a handing out together.** -/
theorem turned_of {s s₁ s₂ s₃ : Scheduler} {id : JobId} {outcome : JobOutcome}
    {roots dispatched : List JobId} (hrun : s.stateOf? id = some .running)
    (h₁ : Ended s s₁ id outcome) (h₂ : Revived s₁ s₂ (s.cleanBehind roots))
    (h₃ : HandedOut s₂ s₃ dispatched) : Turned s s₃ id outcome roots dispatched := by
  -- The job that has ended is not brought back and not handed out: it was running, and then has
  -- ended.
  have hidclean : ¬ s.isClean id := fun h => by
    rw [isClean, hrun] at h
    cases h
  have hclean : ∀ j ∈ s.cleanBehind roots, s.isClean j := fun j => isClean_of_mem_cleanBehind
  have hid₂ : s₂.stateOf? id = some outcome.state :=
    (h₂.others id fun h => hidclean (hclean id h)).trans h₁.ended
  have hid₃ : id ∉ dispatched := fun h => by
    have := h₃.was_pending id h
    rw [hid₂] at this
    cases outcome <;> cases this
  have hended : s₃.stateOf? id = some outcome.state := (h₃.others id hid₃).trans hid₂
  -- For all others the three steps are gone through together.
  have hothers := fun {j} (hj : j ≠ id) => others_cases h₁ hclean h₂ h₃ hj
  refine ⟨h₃.sound, h₃.plan_eq.trans (h₂.plan_eq.trans h₁.plan_eq), hended, fun j => ?_,
    fun j hj => ?_, fun j hj hr => ?_, h₃.nodup, fun j hj => ⟨?_, h₃.is_running j hj⟩⟩
  -- Which jobs are clean.
  · by_cases hj : j = id
    · subst hj
      refine iff_of_false (fun h => ?_) fun h => hidclean h.1
      rw [isClean, hended] at h
      cases outcome <;> cases h
    · unfold isClean
      rcases hothers hj with ⟨hb, -, hs | hs, -⟩ | ⟨-, hs, ⟨hb, -⟩ | ⟨-, hs'⟩⟩ |
        ⟨hb, -, hs | ⟨hs', hs⟩⟩
      · simp [hs, hb]
      · simp [hs, hb]
      · simp [hs, hb]
      · simp [hs, hs']
      · simp [hs, hb]
      · simp [hs, hs']
  -- Which jobs have succeeded or failed.
  · rcases hothers hj with ⟨-, hs', hs | hs, -⟩ | ⟨-, hs, ⟨-, hs'⟩ | ⟨-, hs'⟩⟩ |
      ⟨-, -, hs | ⟨hs', hs⟩⟩ <;> simp [*]
  · rcases hothers hj with ⟨-, hs', -⟩ | ⟨-, hs, -⟩ | ⟨-, -, hs | ⟨hs', -⟩⟩
    · rw [hr] at hs'
      cases hs'
    · exact hs
    · exact hs.trans hr
    · rw [hr] at hs'
      cases hs'
  · have hj' : j ≠ id := fun e => hid₃ (e ▸ hj)
    rcases hothers hj' with ⟨-, -, -, hd⟩ | ⟨-, -, ⟨-, hs⟩ | ⟨-, hs⟩⟩ | ⟨-, hd, -⟩
    · exact absurd hj hd
    · simp [hs]
    · simp [hs]
    · exact absurd hj hd

end Scheduler

/-- **What handling the end of a running job does**: the observer is asked, and the
scheduler turns with its answer. -/
theorem Core.handle_jobFinished {σ : Type} (observe : Observer σ) (c : Core) (observed : σ)
    {id : JobId} (outcome : JobOutcome) (hs : c.scheduler.Sound)
    (hg : c.scheduler.plan.graph.WellFormed) (hrun : c.scheduler.stateOf? id = some .running) :
    (c.handle observe observed (.jobFinished id outcome)).2.1
        = (answer observe c.scheduler.plan.graph observed id outcome).1 ∧
      c.scheduler.Turned (c.handle observe observed (.jobFinished id outcome)).1.scheduler id
        outcome (answer observe c.scheduler.plan.graph observed id outcome).2
        (c.handle observe observed (.jobFinished id outcome)).2.2.dispatched := by
  have hended := Scheduler.ended_complete hs outcome hrun
  have hclean (j : JobId) : (c.scheduler.complete id outcome).1.isClean j
      ↔ c.scheduler.isClean j := hended.isClean_iff hrun j
  have hbehind (roots : List JobId) := Scheduler.cleanBehind_congr hended.plan_eq hclean roots
  have hgraph : (c.scheduler.complete id outcome).1.plan.graph.WellFormed := by
    rw [hended.plan_eq]
    exact hg
  have hnone : Scheduler.Revived (c.scheduler.complete id outcome).1
      (c.scheduler.complete id outcome).1 (c.scheduler.cleanBehind []) := by
    rw [Scheduler.cleanBehind_nil]
    exact ⟨hended.sound, rfl, fun _ h => absurd h List.not_mem_nil, fun _ _ => rfl⟩
  cases outcome with
  | failed kind =>
    exact ⟨rfl, Scheduler.turned_of hrun hended hnone
      (Scheduler.handedOut_dispatch _ hended.sound)⟩
  | succeeded =>
    -- A running job is one of the plan, so the core has somebody to ask about.
    obtain ⟨job, hjob⟩ := JobGraph.exists_job?_of_lt (hs.lt_size hrun)
    unfold Core.handle Core.answer
    dsimp only
    rw [hjob]
    refine ⟨rfl, ?_⟩
    dsimp only
    split
    · rename_i hroots
      rw [List.isEmpty_iff.1 hroots]
      exact Scheduler.turned_of hrun hended hnone
        (Scheduler.handedOut_dispatch _ hended.sound)
    · have hrevived := Scheduler.revived_revive hended.sound hgraph (observe observed job).2
      rw [hbehind] at hrevived
      exact Scheduler.turned_of hrun hended hrevived
        (Scheduler.handedOut_dispatch _ hrevived.sound)

/-! ## Courses -/

/-- What may happen around an execution. -/
structure Environment (ω : Type) where
  /-- How running a command in a world may go. -/
  runs : ω → Command → ProcessRun ω → Prop
  /-- How a world may change by itself. -/
  drifts : ω → ω → Prop

/-- The environment in which commands run as the world has it, and nothing else
happens. -/
def Environment.ofProcesses (ω : Type) [ProcessWorld ω] : Environment ω where
  runs world command run := run = ProcessWorld.run world command
  drifts _ _ := False

/-- Something that the core was told, in the world at that time. -/
structure Told (ω : Type) where
  world : ω
  event : RuntimeEvent

section Course

variable {ω σ : Type}

/-- **The ways in which an execution can go**: what was told so far, and where the
execution stands. -/
inductive Course (env : Environment ω) (observe : WorldObserver ω σ)
    (first : Execution ω σ) : List (Told ω) → Execution ω σ → Prop
  /-- Nothing has happened. -/
  | start : Course env observe first [] first
  /-- Any of the started jobs runs to its end. -/
  | settle {told e id job run} : Course env observe first told e → id ∈ e.started →
      e.core.scheduler.plan.graph.job? id = some job → env.runs e.world job.command run →
      Course env observe first told
        (({ e with started := e.started.erase id } : Execution ω σ).settle job run)
  /-- Someone asks to stop. -/
  | cancel {told e} : Course env observe first told e →
      Course env observe first told { e with events := e.events ++ [.cancelRequested] }
  /-- The world changes by itself. -/
  | drift {told e world} : Course env observe first told e → env.drifts e.world world →
      Course env observe first told { e with world }
  /-- The core is told any of the events. -/
  | handle {told e event} : Course env observe first told e → e.keepRunning = true →
      event ∈ e.events →
      Course env observe first (told ++ [⟨e.world, event⟩])
        (e.handleFirst observe event (e.events.erase event))

/-- The job of which an event tells the end. -/
def RuntimeEvent.finished? : RuntimeEvent → Option JobId
  | .jobFinished id _ => some id
  | .cancelRequested => none

namespace Execution

/-- The jobs whose end is not told yet. -/
def untold (e : Execution ω σ) : List JobId := e.events.filterMap RuntimeEvent.finished?

/-- A job succeeds if its command ends well. -/
theorem outcomeOf_eq_succeeded_iff {job : Job} {result : Except SpawnError ProcessOutput} :
    (outcomeOf job result).1 = .succeeded ↔
      ∃ output, result = .ok output ∧ output.exitCode = 0 := by
  cases result with
  | error e =>
    refine iff_of_false (fun h => by cases h) ?_
    rintro ⟨output, h, -⟩
    cases h
  | ok output =>
    show (if output.exitCode ≠ 0 then JobOutcome.failed (.exit output.exitCode)
      else .succeeded) = .succeeded ↔ _
    by_cases hzero : output.exitCode = 0
    · rw [if_neg (not_not_intro hzero)]
      exact iff_of_true rfl ⟨output, rfl, hzero⟩
    · rw [if_pos hzero]
      refine iff_of_false (fun h => by cases h) ?_
      rintro ⟨_, hresult, h⟩
      exact hzero (Except.ok.inj hresult ▸ h)

/-- **The end of a job that has run is the only one that is new.** -/
theorem jobFinished_mem_settle {e : Execution ω σ} {job : Job} {run : ProcessRun ω} {id : JobId}
    {outcome : JobOutcome} :
    .jobFinished id outcome ∈ (e.settle job run).events ↔
      .jobFinished id outcome ∈ e.events ∨
        id = job.id ∧ outcome = (outcomeOf job run.result).1 := by
  have hevents : (e.settle job run).events
      = e.events ++ (if run.cancelRequested then [.cancelRequested] else [])
        ++ [.jobFinished job.id (outcomeOf job run.result).1] := rfl
  rw [hevents, List.mem_append, List.mem_append, List.mem_singleton, RuntimeEvent.jobFinished.injEq]
  refine or_congr_left (or_iff_left fun h => ?_)
  split at h
  · cases List.mem_singleton.1 h
  · exact absurd h List.not_mem_nil

/-- Running the job that was started first is one way to settle it. -/
theorem runFirst_eq [ProcessWorld ω] {e : Execution ω σ} {id : JobId} {rest : List JobId}
    {job : Job} (hstarted : e.started = id :: rest)
    (hjob : e.core.scheduler.plan.graph.job? id = some job) :
    e.runFirst id rest = ({ e with started := e.started.erase id } : Execution ω σ).settle job
      (ProcessWorld.run e.world job.command) := by
  unfold runFirst
  rw [hstarted, List.erase_cons_head]
  dsimp only
  rw [hjob]
  rfl

/-- **What holds of an execution at any time**: the jobs that were started and not
told are running, each of them once. -/
structure Sound (e : Execution ω σ) (plan : BuildPlan) : Prop where
  plan_eq : e.core.scheduler.plan = plan
  scheduler : e.core.scheduler.Sound
  nodup : (e.started ++ e.untold).Nodup
  running : ∀ id ∈ e.started ++ e.untold, e.core.scheduler.stateOf? id = some .running

theorem Sound.of_perm {e e' : Execution ω σ} {plan : BuildPlan} (h : e.Sound plan)
    (hcore : e'.core = e.core) (hp : (e'.started ++ e'.untold).Perm (e.started ++ e.untold)) :
    e'.Sound plan where
  plan_eq := hcore ▸ h.plan_eq
  scheduler := hcore ▸ h.scheduler
  nodup := hp.nodup_iff.2 h.nodup
  running id hid := hcore ▸ h.running id (hp.mem_iff.1 hid)

theorem sound_start (plan : BuildPlan) (policy : FailurePolicy) (concurrency : Nat) (world : ω)
    (observed : σ) : (start plan policy concurrency world observed).Sound plan := by
  have h := Scheduler.handedOut_dispatch (max concurrency 1) (Scheduler.sound_start plan policy)
  have hstarted : (start plan policy concurrency world observed).started
        ++ (start plan policy concurrency world observed).untold
      = ((Scheduler.start plan policy).dispatch (max concurrency 1)).2 := List.append_nil _
  exact ⟨h.plan_eq, h.sound, hstarted ▸ h.nodup, fun id hid => h.is_running id (hstarted ▸ hid)⟩

theorem Sound.settle {e : Execution ω σ} {plan : BuildPlan} (h : e.Sound plan)
    {id : JobId} (hid : id ∈ e.started) {job : Job} (hjob : job.id = id) (run : ProcessRun ω) :
    (({ e with started := e.started.erase id } : Execution ω σ).settle job run).Sound plan := by
  refine h.of_perm rfl ?_
  have huntold : (({ e with started := e.started.erase id } : Execution ω σ).settle job run).untold
      = e.untold ++ [id] := by
    show List.filterMap _ (e.events ++ _ ++ _) = _
    rw [List.filterMap_append, List.filterMap_append]
    have hnone : (if run.cancelRequested = true then [RuntimeEvent.cancelRequested]
        else []).filterMap RuntimeEvent.finished? = [] := by
      split <;> rfl
    rw [hnone, List.append_nil, ← hjob]
    rfl
  rw [huntold]
  show (e.started.erase id ++ (e.untold ++ [id])).Perm _
  rw [← List.append_assoc]
  exact (List.perm_append_singleton id _).trans
    ((List.perm_cons_erase hid).symm.append_right e.untold)

/-- An event that is told leaves its job to be told no more. -/
theorem untold_perm {e : Execution ω σ} {event : RuntimeEvent} (h : event ∈ e.events) :
    e.untold.Perm ((event :: e.events.erase event).filterMap RuntimeEvent.finished?) :=
  (List.perm_cons_erase h).filterMap _

/-- **Telling an event keeps an execution sound.** -/
theorem Sound.handleFirst {e : Execution ω σ} {plan : BuildPlan} (h : e.Sound plan)
    (hg : plan.graph.WellFormed) (observe : WorldObserver ω σ) {event : RuntimeEvent}
    (hevent : event ∈ e.events) :
    (e.handleFirst observe event (e.events.erase event)).Sound plan := by
  have hperm := untold_perm hevent
  let rest : List JobId := (e.events.erase event).filterMap RuntimeEvent.finished?
  cases event with
  | cancelRequested =>
    have hperm : e.untold.Perm rest := hperm
    have hall : (e.started ++ [] ++ rest).Perm (e.started ++ e.untold) := by
      rw [List.append_nil]
      exact hperm.symm.append_left _
    exact ⟨h.plan_eq, ⟨h.scheduler.length_states, h.scheduler.pending_of_ready⟩,
      hall.nodup_iff.2 h.nodup, fun id hid => h.running id (hall.mem_iff.1 hid)⟩
  | jobFinished id outcome =>
    have hperm : e.untold.Perm (id :: rest) := hperm
    have hall : (e.started ++ e.untold).Perm (id :: (e.started ++ rest)) :=
      (hperm.append_left _).trans List.perm_middle
    obtain ⟨hnot, hnodup⟩ := List.nodup_cons.1 (hall.nodup_iff.1 h.nodup)
    have hrun := fun j hj => h.running j (hall.mem_iff.2 hj)
    obtain ⟨-, hturned⟩ := Core.handle_jobFinished (observe e.world) e.core e.observed outcome
      h.scheduler (h.plan_eq ▸ hg) (hrun id List.mem_cons_self)
    -- What is handed out now did not run before, so it stands in neither list.
    have hnew : ∀ j ∈ (e.core.handle (observe e.world) e.observed
        (.jobFinished id outcome)).2.2.dispatched, j ∉ e.started ++ rest := fun j hj hmem =>
      (hturned.dispatched j hj).1 (hrun j (List.mem_cons_of_mem _ hmem))
    have hswap : (e.started ++ (e.core.handle (observe e.world) e.observed
          (.jobFinished id outcome)).2.2.dispatched ++ rest).Perm
        ((e.core.handle (observe e.world) e.observed
          (.jobFinished id outcome)).2.2.dispatched ++ (e.started ++ rest)) := by
      rw [← List.append_assoc]
      exact List.perm_append_comm.append_right _
    refine ⟨hturned.plan_eq.trans h.plan_eq, hturned.sound, hswap.nodup_iff.2 ?_,
      fun j hj => ?_⟩
    · exact List.nodup_append.2 ⟨hturned.nodup, hnodup,
        fun a ha b hb hab => hnew a ha (hab ▸ hb)⟩
    · rcases List.mem_append.1 (hswap.mem_iff.1 hj) with hj | hj
      · exact (hturned.dispatched j hj).2
      · exact hturned.running j (fun e => hnot (e ▸ hj)) (hrun j (List.mem_cons_of_mem _ hj))

end Execution

section Start

variable {env : Environment ω} {observe : WorldObserver ω σ} {plan : BuildPlan}
  {policy : FailurePolicy} {concurrency : Nat} {world : ω} {observed : σ}
  {told : List (Told ω)} {e : Execution ω σ}

/-- **Every course stays sound.** -/
theorem Course.sound (hg : plan.graph.WellFormed)
    (h : Course env observe (.start plan policy concurrency world observed) told e) :
    e.Sound plan := by
  induction h with
  | start => exact Execution.sound_start plan policy concurrency world observed
  | settle _ hid hjob _ ih =>
    rw [ih.plan_eq] at hjob
    exact ih.settle hid (hg.job?_eq_some_iff.1 hjob).2 _
  | @cancel told e _ ih =>
    refine ih.of_perm rfl (List.Perm.append_left _ ?_)
    show (List.filterMap _ (e.events ++ _)).Perm _
    rw [List.filterMap_append]
    exact .of_eq (List.append_nil _)
  | drift _ _ ih => exact ih.of_perm rfl (.refl _)
  | handle _ _ hevent ih => exact ih.handleFirst hg observe hevent

/-- **What holds at the beginning and after each thing that the core is told holds
along every course.** -/
theorem Course.induction (hg : plan.graph.WellFormed)
    {P : List (Told ω) → Scheduler → σ → Prop}
    (hstart : ∀ s, s.plan = plan →
      (∀ id < plan.graph.size, s.isClean id ↔ (plan.disposition id).isScheduled = false) →
      (∀ id, s.stateOf? id ≠ some .succeeded) → P [] s observed)
    (hcancel : ∀ told world s x, P told s x → P (told ++ [⟨world, .cancelRequested⟩]) s.cancel x)
    (hturn : ∀ told world s s' x id outcome dispatched, P told s x → s.Sound → s.plan = plan →
      s.stateOf? id = some .running →
      s.Turned s' id outcome (Core.answer (observe world) plan.graph x id outcome).2 dispatched →
      P (told ++ [⟨world, .jobFinished id outcome⟩]) s'
        (Core.answer (observe world) plan.graph x id outcome).1)
    (h : Course env observe (.start plan policy concurrency world observed) told e) :
    P told e.core.scheduler e.observed := by
  induction h with
  | start =>
    -- The first handing out changes no job that is clean and none that has succeeded.
    have hs := Scheduler.sound_start plan policy
    have hout := Scheduler.handedOut_dispatch (max concurrency 1) hs
    refine hstart _ hout.plan_eq (fun id hid => ?_) fun id hsucc => ?_
    · have hstate := Scheduler.stateOf?_start plan policy hid
      show Scheduler.stateOf? ((Scheduler.start plan policy).dispatch (max concurrency 1)).1 id
        = _ ↔ _
      by_cases hd : id ∈ ((Scheduler.start plan policy).dispatch (max concurrency 1)).2
      · have hp := hout.was_pending id hd
        rw [hstate] at hp
        rw [hout.is_running id hd]
        refine iff_of_false (fun h => by cases h) fun h => ?_
        rw [h] at hp
        cases hp
      · rw [hout.others id hd, hstate]
        cases (plan.disposition id).isScheduled <;> simp
    · by_cases hd : id ∈ ((Scheduler.start plan policy).dispatch (max concurrency 1)).2
      · have := hout.is_running id hd
        cases hsucc.symm.trans this
      · have hsucc : (Scheduler.start plan policy).stateOf? id = some .succeeded :=
          (hout.others id hd).symm.trans hsucc
        rw [Scheduler.stateOf?_start plan policy (hs.lt_size hsucc)] at hsucc
        split at hsucc <;> cases hsucc
  | settle _ _ _ _ ih => exact ih
  | cancel _ ih => exact ih
  | drift _ _ ih => exact ih
  | @handle told e event hcourse _ hevent ih =>
    have hsound := hcourse.sound hg
    cases event with
    | cancelRequested => exact hcancel told e.world _ _ ih
    | jobFinished id outcome =>
      have hrun : e.core.scheduler.stateOf? id = some .running := hsound.running id
        (List.mem_append_right _ (List.mem_filterMap.2 ⟨_, hevent, rfl⟩))
      obtain ⟨hobserved, hturned⟩ := Core.handle_jobFinished (observe e.world) e.core e.observed
        outcome hsound.scheduler (hsound.plan_eq ▸ hg) hrun
      rw [hsound.plan_eq] at hobserved hturned
      have := hturn told e.world _ _ _ id outcome _ ih hsound.scheduler hsound.plan_eq hrun hturned
      rw [← hobserved] at this
      exact this

/-- Going on with a course is a course. -/
theorem Course.advance [ProcessWorld ω] (hg : plan.graph.WellFormed) (n : Nat)
    (h : Course (.ofProcesses ω) observe (.start plan policy concurrency world observed) told e) :
    ∃ told', Course (.ofProcesses ω) observe (.start plan policy concurrency world observed) told'
      (Execution.advance observe n e) := by
  induction n generalizing told e with
  | zero => exact ⟨told, h⟩
  | succ n ih =>
    unfold Execution.advance
    split
    · rename_i hkeep
      split
      · rename_i id rest hstarted
        have hsound := h.sound hg
        have hid : id ∈ e.started := by
          rw [hstarted]
          exact List.mem_cons_self
        have hrun := hsound.running id (List.mem_append_left _ hid)
        obtain ⟨job, hjob⟩ := JobGraph.exists_job?_of_lt (hsound.scheduler.lt_size hrun)
        have hnext := h.settle hid hjob rfl
        rw [Execution.runFirst_eq hstarted hjob]
        exact ih hnext
      · rename_i event rest _ hevents
        have hevent : event ∈ e.events := by
          rw [hevents]
          exact List.mem_cons_self
        have hnext := h.handle hkeep hevent
        rw [hevents, List.erase_cons_head] at hnext
        exact ih hnext
      · exact ⟨told, h⟩
    · exact ⟨told, h⟩

/-- **Carrying a plan out is one of its courses.** -/
theorem BuildPlan.execute_course [ProcessWorld ω] (hg : plan.graph.WellFormed) :
    ∃ told, Course (.ofProcesses ω) observe (.start plan policy concurrency world observed) told
      (plan.execute policy concurrency observe world observed) :=
  Course.start.advance hg _

end Start

end Course

end IncrementalBuild
