import IncrementalBuild.Proofs.History
import IncrementalBuild.Proofs.Soundness

/-!
# What works on the products waits for all of them

Where inputs are compiled one by one, a success may bring compile jobs back that were left
out. Jobs that merge, link or write an interface must not see some of the products before
and some after that. They do not: by the time such a job is handed out every compile job
has come to an end or is left out, and since only the success of a compile job brings
others back, none of them runs any more.

What carries this along a build is that no clean job waits for one that is not clean: once
one compile job is not left out, no job that works on the products is, so those are
waiting while compile jobs are brought back.
-/

namespace IncrementalBuild

/-! ## Handing out in order -/

namespace Scheduler

/-- No compile job is pending or running. -/
def Compiled (s : Scheduler) : Prop :=
  ∀ job ∈ s.plan.graph.jobs, job.isCompile = true → s.isOpen job.id = false

/-- **Where the jobs stand when some were handed out, in order.** -/
structure Ordered (s : Scheduler) (log : List JobId) : Prop where
  /-- Only what was handed out runs, or has run. -/
  mem_log : ∀ id state, s.stateOf? id = some state →
    (state = .running ∨ state = .succeeded ∨ state = .failed) → id ∈ log
  not_cancelled : ∀ id, s.stateOf? id ≠ some .cancelled
  blocked : ∀ before ∈ s.plan.graph.jobs, before.stage.follows = true →
    ∀ after ∈ s.plan.graph.jobs, before.id ∈ after.prerequisites.toList →
      s.stateOf? before.id = some .blocked → s.stateOf? after.id ≠ some .pending
  /-- Once something works on the products, all of them are there. -/
  compiled : ∀ job ∈ s.plan.graph.jobs, job.stage.follows = true → job.id ∈ log → s.Compiled
  /-- No compile job is handed out behind what works on the products. -/
  last : ∀ before id after, log = before ++ id :: after → ∀ job ∈ s.plan.graph.jobs,
    job.id = id → job.stage.follows = true →
      ∀ k ∈ s.plan.graph.jobs, k.isCompile = true → k.id ∉ after

section Layers

variable {s : Scheduler} {log : List JobId} (hl : s.plan.graph.Layered .perFile)
include hl

/-- Once a compile job is not left out, nothing is that works on the products. -/
theorem Followed.not_clean_of_compile (h : s.Followed) {k job : Job}
    (hk : k ∈ s.plan.graph.jobs) (hkc : k.isCompile = true) (hclean : ¬ s.isClean k.id)
    (hjob : job ∈ s.plan.graph.jobs) (hf : job.stage.follows = true) :
    ¬ s.isClean job.id := by
  have hstage := Job.isCompile_iff.1 hkc
  have hkm := Job.isModuleBuild_of_isCompile hkc
  have hbehind {after : Job} (hafter : after ∈ s.plan.graph.jobs)
      (hfeeds : Stage.feeds .perFile .compiling after.stage = true) : ¬ s.isClean after.id :=
    fun hc => hclean (h k hk after hafter
      ((hl.waits_iff k hk hkm after hafter).2 (hstage ▸ hfeeds)) hkm hc)
  cases hs : job.stage with
  | merging => exact hbehind hjob (by rw [hs]; rfl)
  | linking => exact hbehind hjob (by rw [hs]; rfl)
  | interface =>
    obtain ⟨m, hm, hms⟩ := hl.merged rfl job hjob hs
    have hmm := Job.isModuleBuild_of_follows (show m.stage.follows = true by rw [hms]; rfl)
    refine fun hc => hbehind hm (by rw [hms]; rfl) (h m hm job hjob ?_ hmm hc)
    exact (hl.waits_iff m hm hmm job hjob).2 (by rw [hms, hs]; rfl)
  | header | modules | compiling =>
    rw [hs] at hf
    cases hf

/-- **When something is handed out that works on the products, no compile job is pending or
running.** -/
theorem Ordered.compiled_of_mem_dispatch (h : s.Ordered log) (hs : s.Counted) (hf : s.Followed)
    (hg : s.plan.graph.WellFormed) {limit : Nat} {job : Job} (hjob : job ∈ s.plan.graph.jobs)
    (hfollows : job.stage.follows = true) (hd : job.id ∈ (s.dispatch limit).2) :
    s.Compiled := by
  have hclosed {before : Job} (hp : before.id ∈ job.prerequisites.toList) :
      s.isOpen before.id = false := hs.isOpen_of_mem_dispatch hd
    (JobGraph.mem_prerequisitesOf.2 ⟨job, hg.job?_id hjob, hp⟩)
  have hpending := (handedOut_dispatch limit hs.sound).was_pending job.id hd
  have hwaits {k after : Job} (hk : k ∈ s.plan.graph.jobs) (hkc : k.isCompile = true)
      (hafter : after ∈ s.plan.graph.jobs)
      (hfeeds : Stage.feeds .perFile .compiling after.stage = true) :
      k.isModuleBuild = false ∧ k.id ∈ after.prerequisites.toList := by
    have hkm := Job.isModuleBuild_of_isCompile hkc
    exact ⟨hkm, (hl.waits_iff k hk hkm after hafter).2 (Job.isCompile_iff.1 hkc ▸ hfeeds)⟩
  cases hstage : job.stage with
  | merging => exact fun k hk hkc => hclosed (hwaits hk hkc hjob (by rw [hstage]; rfl)).2
  | linking => exact fun k hk hkc => hclosed (hwaits hk hkc hjob (by rw [hstage]; rfl)).2
  | interface =>
    -- The interface waits for the merged module alone, so it depends on how that stands.
    obtain ⟨m, hm, hms⟩ := hl.merged rfl job hjob hstage
    have hmf : m.stage.follows = true := by rw [hms]; rfl
    have hmm := Job.isModuleBuild_of_follows hmf
    have hp : m.id ∈ job.prerequisites.toList :=
      (hl.waits_iff m hm hmm job hjob).2 (by rw [hms, hstage]; rfl)
    obtain ⟨state, hstate⟩ := hs.sound.exists_state (hg.id_lt hm)
    have hmclosed := hclosed hp
    rw [isOpen_of_stateOf? hstate] at hmclosed
    cases state with
    | clean =>
      intro k hk hkc
      obtain ⟨hkm, hkp⟩ := hwaits hk hkc hm (by rw [hms]; rfl)
      have hkclean : s.stateOf? k.id = some .clean := hf k hk m hm hkp hkm hstate
      rw [isOpen_of_stateOf? hkclean]
      rfl
    | pending => cases hmclosed
    | running => cases hmclosed
    | succeeded => exact h.compiled m hm hmf (h.mem_log m.id _ hstate (.inr (.inl rfl)))
    | failed => exact h.compiled m hm hmf (h.mem_log m.id _ hstate (.inr (.inr rfl)))
    | blocked => exact absurd hpending (h.blocked m hm hmf job hjob hp hstate)
    | cancelled => exact absurd hstate (h.not_cancelled m.id)
  | header | modules | compiling =>
    rw [hstage] at hfollows
    cases hfollows

end Layers

/-! ## What keeps the order -/

section Steps

variable {s : Scheduler} {log : List JobId}

/-- At the beginning nothing is handed out. -/
theorem ordered_start (plan : BuildPlan) (policy : FailurePolicy) :
    (start plan policy).Ordered [] := by
  have hstate {id : JobId} {state : JobState} (h : (start plan policy).stateOf? id = some state) :
      state = .pending ∨ state = .clean := by
    have hlt := (sound_start plan policy).lt_size h
    rw [stateOf?_start plan policy hlt] at h
    obtain rfl := Option.some.inj h
    split
    · exact .inl rfl
    · exact .inr rfl
  constructor
  case mem_log =>
    intro id state h hs
    rcases hstate h with rfl | rfl <;> simp at hs
  case not_cancelled =>
    intro id h
    rcases hstate h with he | he <;> cases he
  case blocked =>
    intro before _ _ after _ _ h
    rcases hstate h with he | he <;> cases he
  case compiled => exact fun job _ _ h => absurd h List.not_mem_nil
  case last =>
    intro before id after h
    simp at h

/-- **The end of a job keeps the order.** It makes no job pending, and what is blocked with
the job blocks all behind it. -/
theorem Ordered.complete (h : s.Ordered log) (hs : s.Sound) (hg : s.plan.graph.WellFormed)
    {id : JobId} (hrun : s.stateOf? id = some .running) (outcome : JobOutcome) :
    (s.complete id outcome).1.Ordered log := by
  have hended := ended_complete hs outcome hrun
  have hopen {j : JobId} (hj : s.isOpen j = false) :
      (s.complete id outcome).1.isOpen j = false := by
    by_cases hne : j = id
    · rw [hne, isOpen_of_stateOf? hended.ended]
      cases outcome <;> rfl
    · rcases hended.others j hne with he | ⟨-, hb⟩
      · rw [isOpen_congr he, hj]
      · rw [isOpen_of_stateOf? hb]
        rfl
  have hcompiled (hc : s.Compiled) : (s.complete id outcome).1.Compiled := by
    intro job hjob hkc
    rw [hended.plan_eq] at hjob
    exact hopen (hc job hjob hkc)
  constructor
  case mem_log =>
    intro j state hj hstate
    rcases hended.cases hj with ⟨rfl, -⟩ | hj | ⟨-, rfl⟩
    · exact h.mem_log j .running hrun (.inl rfl)
    · exact h.mem_log j state hj hstate
    · simp at hstate
  case not_cancelled =>
    intro j hj
    rcases hended.cases hj with ⟨-, he⟩ | hj | ⟨-, he⟩
    · cases outcome <;> cases he
    · exact h.not_cancelled j hj
    · cases he
  case blocked =>
    intro before hbefore hf after hafter hp hb hj
    rw [hended.plan_eq] at hbefore hafter
    have hstill := h.blocked before hbefore hf after hafter hp
    cases outcome with
    | succeeded =>
      rw [stateOf?_complete_succeeded hs hrun] at hb
      split at hb
      · cases hb
      · exact hstill hb (hended.was_pending hj)
    | failed kind =>
      -- What is blocked now is behind the job that failed, and so is what waits for it.
      have hdep : after.id ∈ s.plan.graph.dependentsOf before.id :=
        JobGraph.mem_dependentsOf.2 ⟨after, hafter, rfl, hp⟩
      rw [stateOf?_complete_failed hs hrun] at hb
      split at hb
      · cases hb
      split at hb
      · rename_i hbehind
        rw [stateOf?_complete_failed hs hrun] at hj
        split at hj
        · cases hj
        split at hj
        · cases hj
        · rename_i hnot
          exact hnot ⟨hg.transitiveDependents_closed hbehind.1 hdep, hj⟩
      · exact hstill hb (hended.was_pending hj)
  case compiled =>
    intro job hjob hf hj
    exact hcompiled (h.compiled job (hended.plan_eq ▸ hjob) hf hj)
  case last =>
    intro before j after he job hjob hid hf k hk
    rw [hended.plan_eq] at hjob hk
    exact h.last before j after he job hjob hid hf k hk

/-- **Reviving keeps the order**, as long as nothing that works on the products was handed
out or is left out. -/
theorem Ordered.revive (h : s.Ordered log) (hs : s.Sound) (hg : s.plan.graph.WellFormed)
    (hl : s.plan.graph.Layered .perFile) (roots : List JobId)
    (hnone : ∀ job ∈ s.plan.graph.jobs, job.stage.follows = true →
      job.id ∉ log ∧ ¬ s.isClean job.id) :
    (s.revive roots).1.Ordered log := by
  have hrevived := revived_revive hs hg roots
  -- What follows on the products is not clean, so it is not brought back and keeps its state.
  have hkept {j : JobId} (hj : ¬ s.isClean j) :
      (s.revive roots).1.stateOf? j = s.stateOf? j :=
    hrevived.others j fun hm => hj (isClean_of_mem_cleanBehind hm)
  have hback {j : JobId} {state : JobState} (hm : j ∈ s.cleanBehind roots)
      (hj : (s.revive roots).1.stateOf? j = some state) : state = .pending ∨ state = .blocked := by
    rcases hrevived.revived j hm with he | he
    · exact .inl (Option.some.inj (hj.symm.trans he))
    · exact .inr (Option.some.inj (hj.symm.trans he))
  constructor
  case mem_log =>
    intro j state hj hstate
    by_cases hm : j ∈ s.cleanBehind roots
    · rcases hback hm hj with rfl | rfl <;> simp at hstate
    · exact h.mem_log j state (hrevived.others j hm ▸ hj) hstate
  case not_cancelled =>
    intro j hj
    by_cases hm : j ∈ s.cleanBehind roots
    · rcases hback hm hj with he | he <;> cases he
    · exact h.not_cancelled j (hrevived.others j hm ▸ hj)
  case blocked =>
    -- What works on products waits for what works on products only with jobs that are not
    -- brought back.
    intro before hbefore hf after hafter hp hb
    rw [hrevived.plan_eq] at hbefore hafter
    have hafterFollows : after.stage.follows = true := Stage.follows_of_feeds
      ((hl.waits_iff before hbefore (Job.isModuleBuild_of_follows hf) after hafter).1 hp)
      (.inr hf)
    rw [hkept (hnone before hbefore hf).2] at hb
    rw [hkept (hnone after hafter hafterFollows).2]
    exact h.blocked before hbefore hf after hafter hp hb
  case compiled =>
    intro job hjob hf hj
    exact absurd hj (hnone job (hrevived.plan_eq ▸ hjob) hf).1
  case last =>
    intro before j after he job hjob hid hf k hk
    rw [hrevived.plan_eq] at hjob hk
    exact h.last before j after he job hjob hid hf k hk

/-- **Handing out keeps the order.** -/
theorem Ordered.dispatch (h : s.Ordered log) (hs : s.Counted) (hf : s.Followed)
    (hg : s.plan.graph.WellFormed) (hl : s.plan.graph.Layered .perFile) (limit : Nat) :
    (s.dispatch limit).1.Ordered (log ++ (s.dispatch limit).2) := by
  have hout := handedOut_dispatch limit hs.sound
  have hpending {j : JobId} (hj : (s.dispatch limit).1.stateOf? j = some .pending) :
      s.stateOf? j = some .pending := by
    by_cases hd : j ∈ (s.dispatch limit).2
    · exact hout.was_pending j hd
    · exact hout.others j hd ▸ hj
  have hother {j : JobId} {state : JobState} (hj : (s.dispatch limit).1.stateOf? j = some state)
      (hne : state ≠ .running) : s.stateOf? j = some state := by
    refine hout.others j (fun hd => ?_) ▸ hj
    rw [hout.is_running j hd] at hj
    exact hne (Option.some.inj hj).symm
  have hcompiled {job : Job} (hjob : job ∈ s.plan.graph.jobs) (hfollows : job.stage.follows = true)
      (hj : job.id ∈ log ++ (s.dispatch limit).2) : s.Compiled := by
    rcases List.mem_append.1 hj with hj | hj
    · exact h.compiled job hjob hfollows hj
    · exact h.compiled_of_mem_dispatch hl hs hf hg hjob hfollows hj
  constructor
  case mem_log =>
    intro j state hj hstate
    by_cases hd : j ∈ (s.dispatch limit).2
    · exact List.mem_append_right _ hd
    · exact List.mem_append_left _ (h.mem_log j state (hout.others j hd ▸ hj) hstate)
  case not_cancelled => exact fun j hj => h.not_cancelled j (hother hj (by decide))
  case blocked =>
    intro before hbefore hfollows after hafter hp hb hj
    rw [hout.plan_eq] at hbefore hafter
    exact h.blocked before hbefore hfollows after hafter hp (hother hb (by decide)) (hpending hj)
  case compiled =>
    intro job hjob hfollows hj k hk hkc
    rw [hout.plan_eq] at hjob hk
    rw [hout.isOpen_eq]
    exact hcompiled hjob hfollows hj k hk hkc
  case last =>
    intro before j after he job hjob hid hfollows k hk hkc
    rw [hout.plan_eq] at hjob hk
    have hall : s.Compiled := hcompiled hjob hfollows (by
      rw [he, hid]
      exact List.mem_append_right _ List.mem_cons_self)
    -- What is handed out now was pending, and no compile job is.
    have hnew : k.id ∉ (s.dispatch limit).2 := fun hd => by
      have := hall k hk hkc
      rw [isOpen_of_stateOf? (hout.was_pending k.id hd)] at this
      cases this
    intro hka
    rcases List.append_eq_append_iff.1 he with ⟨l, -, hids⟩ | ⟨l, hlog, hafter⟩
    · exact hnew (hids ▸ List.mem_append_right _ (List.mem_cons_of_mem _ hka))
    · cases l with
      | nil =>
        rw [List.nil_append] at hafter
        exact hnew (hafter ▸ List.mem_cons_of_mem _ hka)
      | cons x rest =>
        obtain ⟨rfl, rfl⟩ := List.cons.inj hafter
        rcases List.mem_append.1 hka with hka | hka
        · exact h.last before j rest hlog job hjob hid hfollows k hk hkc hka
        · exact hnew hka

end Steps

end Scheduler

/-! ## Along a course -/

section Course

variable {ω σ : Type} {env : Environment ω} {observe : WorldObserver ω σ} {plan : BuildPlan}
  {policy : FailurePolicy} {concurrency : Nat} {world : ω} {observed : σ}
  {told : List (Told ω)} {e : Execution ω σ}

/-- An observer that asks for nothing unless a compile job has succeeded. -/
def WorldObserver.AsksAfterCompiling (observe : WorldObserver ω σ) : Prop :=
  ∀ world observed job, job.isCompile = false → (observe world observed job).2 = []

/-- What is asked for after the end of a job is nothing, or the job compiles. -/
theorem Core.answer_eq_nil_or (hobs : observe.AsksAfterCompiling) (world : ω) (g : JobGraph)
    (observed : σ) (id : JobId) (outcome : JobOutcome) :
    (Core.answer (observe world) g observed id outcome).2 = [] ∨
      outcome = .succeeded ∧ ∃ job, g.job? id = some job ∧ job.isCompile = true := by
  unfold Core.answer
  cases outcome with
  | failed kind => exact .inl rfl
  | succeeded =>
    cases hjob : g.job? id with
    | none => exact .inl rfl
    | some job =>
      cases hc : job.isCompile with
      | false => exact .inl (hobs world observed job hc)
      | true => exact .inr ⟨rfl, job, rfl, hc⟩

/-- While a compile job runs, nothing is handed out that works on the products. -/
theorem Scheduler.Ordered.notMem_of_running {s : Scheduler} {log : List JobId}
    (h : s.Ordered log) {k job : Job} (hk : k ∈ s.plan.graph.jobs) (hkc : k.isCompile = true)
    (hrun : s.stateOf? k.id = some .running) (hjob : job ∈ s.plan.graph.jobs)
    (hf : job.stage.follows = true) : job.id ∉ log := by
  intro hmem
  have := h.compiled job hjob hf hmem k hk hkc
  rw [Scheduler.isOpen_of_stateOf? hrun] at this
  cases this

/-- **What an end and its answer do to the order**: where compile jobs come back, a compile
job has run until now, so nothing that works on the products was handed out or is left
out. -/
theorem Scheduler.Ordered.complete_revive {s : Scheduler} {log : List JobId}
    (h : s.Ordered log) (hs : s.Counted) (hf : s.Followed) (hg : s.plan.graph.WellFormed)
    (hl : s.plan.graph.Layered .perFile) (hobs : observe.AsksAfterCompiling) {id : JobId}
    (hrun : s.stateOf? id = some .running) (outcome : JobOutcome) :
    (s.applyAll [.complete id outcome,
      .revive (Core.answer (observe world) s.plan.graph observed id outcome).2]).Ordered log := by
  have hcomplete := h.complete hs.sound hg hrun outcome
  have hplan := Scheduler.plan_complete hs.sound id outcome
  show ((s.complete id outcome).1.revive _).1.Ordered log
  rcases Core.answer_eq_nil_or hobs world s.plan.graph observed id outcome with
    hnil | ⟨rfl, k, hkid, hkc⟩
  · rw [hnil, Scheduler.revive_nil]
    exact hcomplete
  · obtain ⟨hk, rfl⟩ := hg.job?_eq_some_iff.1 hkid
    have hcounted := hs.complete hg k.id .succeeded
    have hfollowed := hf.apply hs.sound hg (.complete k.id .succeeded)
    refine hcomplete.revive hcounted.sound (hplan ▸ hg) (hplan ▸ hl) _ fun job hjob hfollows => ?_
    have hclean : ¬ (s.complete k.id .succeeded).1.isClean k.id := fun hc => by
      have hended := Scheduler.stateOf?_complete_succeeded hs.sound hrun k.id
      rw [if_pos rfl] at hended
      rw [Scheduler.isClean, hended] at hc
      cases hc
    exact ⟨h.notMem_of_running hk hkc hrun (hplan ▸ hjob) hfollows,
      hfollowed.not_clean_of_compile (hplan ▸ hl) (hplan ▸ hk) hkc hclean hjob hfollows⟩

/-- **Along every course jobs are handed out in order.** -/
theorem Course.ordered (hg : plan.graph.WellFormed) (hplan : plan.Closed)
    (hl : plan.graph.Layered .perFile) (hobs : observe.AsksAfterCompiling)
    (h : Course env observe (.start plan policy concurrency world observed) told e) :
    e.core.scheduler.Ordered
      (CoreHistory.ofTold observe plan policy concurrency observed told).dispatched := by
  induction h with
  | start =>
    exact (Scheduler.ordered_start plan policy).dispatch (Scheduler.counted_start plan policy)
      (Scheduler.followed_start hg hplan policy) hg hl (max concurrency 1)
  | settle _ _ _ _ ih => exact ih
  | cancel _ ih => exact ih
  | drift _ _ ih => exact ih
  | @handle told e event hcourse _ hevent ih =>
    obtain ⟨hcore, hobserved⟩ := hcourse.history
    have hsound := hcourse.sound hg
    have hhistory : (CoreHistory.ofTold observe plan policy concurrency observed told).Sound plan :=
      CoreHistory.sound_ofTold hg hplan
    -- What the core is told is a call of it. It is of a running job, hence of a job of the plan.
    let call : CoreCall σ := .tell (observe e.world) event
    have hrunning : ∀ id ∈ event.finished?, e.core.scheduler.stateOf? id = some .running :=
      fun id hid => hsound.running id (List.mem_append_right _
        (List.mem_filterMap.2 ⟨event, hevent, hid⟩))
    have hknown : ¬ call.Strays
        (CoreHistory.ofTold observe plan policy concurrency observed told).core.scheduler.plan := by
      rw [hcore]
      exact CoreCall.not_strays_tell fun id hid => hsound.scheduler.lt_size (hrunning id hid)
    obtain ⟨hscheduler, -, hdispatched⟩ := CoreHistory.call_spec _ hknown
    have hcounted := hhistory.counted
    have hfollowed := hhistory.followed
    have hcall := (hcourse.handle ‹_› hevent).history.1
    rw [CoreHistory.ofTold_concat] at hcall ⊢
    rw [← hcall, hscheduler, hdispatched]
    rw [hcore, hobserved]
    rw [hcore] at hcounted hfollowed
    have hgraph : e.core.scheduler.plan.graph.WellFormed := hsound.plan_eq.symm ▸ hg
    have hlayered : e.core.scheduler.plan.graph.Layered .perFile := hsound.plan_eq.symm ▸ hl
    -- Before it hands out jobs the scheduler has done some operations; they keep the order, and
    -- so does the handing out.
    let ops := call.prelude e.core e.observed
    obtain ⟨hcountedOps, hplanOps⟩ := Scheduler.Balanced.applyAll ops hcounted hgraph
    refine Scheduler.Ordered.dispatch ?_ hcountedOps (hfollowed.applyAll ops hcounted hgraph)
      (hplanOps.symm ▸ hgraph) (hplanOps.symm ▸ hlayered) _
    cases event with
    | cancelRequested =>
      exact ⟨ih.mem_log, ih.not_cancelled, ih.blocked, ih.compiled, ih.last⟩
    | jobFinished id outcome =>
      exact ih.complete_revive hcounted hfollowed hgraph hlayered hobs (hrunning id rfl) outcome

end Course

/-! ## Along a build -/

section Run

variable {ω : Type} [FileSystem ω] {env : Environment ω} {r : BuildRequest}
  {scan : Option (Scanner ω)} {world world' : ω} {b : PlannedBuild} {told : List (Told ω)}
  {e : Execution ω Tracker}

/-- The tracker brings jobs back only after a compile job has succeeded. -/
theorem Tracker.asksAfterCompiling :
    WorldObserver.AsksAfterCompiling (Tracker.observer : WorldObserver ω Tracker) := by
  intro world t job hc
  show (jobSucceeded world t job).2 = []
  unfold jobSucceeded
  split
  · rfl
  · rename_i units hk
    unfold Job.isCompile at hc
    rw [hk] at hc
    cases hc
  · rfl
  · rfl

/-- What is behind a compile job works on the products. -/
theorem JobGraph.Layered.follows_of_behind {g : JobGraph} {mode : CompilationMode}
    (hl : g.Layered mode) {k : Job} (hk : k ∈ g.jobs)
    (hkc : k.isCompile = true) {id : JobId} (hid : id ∈ (g.transitiveDependents k.id).toList) :
    ∃ job ∈ g.jobs, job.id = id ∧ job.stage.follows = true := by
  refine transitiveDependents_induction
    (P := fun id => ∃ job ∈ g.jobs, job.id = id ∧ job.stage.follows = true)
    (fun d hd => ?_) (fun d j hfollows hj => ?_) id hid
  · obtain ⟨job, hjob, rfl, hp⟩ := mem_dependentsOf.1 hd
    have hfeeds := (hl.waits_iff k hk (Job.isModuleBuild_of_isCompile hkc) job hjob).1 hp
    exact ⟨job, hjob, rfl, Stage.follows_of_feeds hfeeds (.inl (Job.isCompile_iff.1 hkc))⟩
  · obtain ⟨before, hbefore, rfl, hf⟩ := hfollows
    obtain ⟨job, hjob, rfl, hp⟩ := mem_dependentsOf.1 hj
    have hfeeds := (hl.waits_iff before hbefore (Job.isModuleBuild_of_follows hf) job hjob).1 hp
    exact ⟨job, hjob, rfl, Stage.follows_of_feeds hfeeds (.inr hf)⟩

/-- **Nothing works on products of which some are yet to be made again.** Once a job that
merges, writes an interface or links was handed out, no compile job is handed out or runs
any more. And whenever jobs are brought back, nothing behind them was handed out. -/
theorem BuildRequest.compiled_before_used (hmode : r.mode = .perFile)
    (hprep : r.prepare scan world = (.ok b, world'))
    (hrun : Course env Tracker.observer (r.begin b world') told e) :
    let log := (CoreHistory.ofTold Tracker.observer b.plan r.policy r.concurrency (r.tracker b)
      told).dispatched
    (∀ job ∈ b.plan.graph.jobs, job.stage.follows = true →
        ∀ before after, log = before ++ job.id :: after →
          ∀ k ∈ b.plan.graph.jobs, k.isCompile = true →
            k.id ∉ after ∧ e.core.scheduler.stateOf? k.id ≠ some .running)
      ∧ ∀ id, .jobFinished id .succeeded ∈ e.events →
          ∀ root ∈ (Core.answer (Tracker.observer e.world) b.plan.graph e.observed id
            .succeeded).2,
            ∀ behind ∈ (b.plan.graph.transitiveDependents root).toList, behind ∉ log := by
  -- The courses of the tracker keep the order of the stages, since it brings jobs back after
  -- compile jobs only.
  intro log
  obtain ⟨modules, start, g, -, hb⟩ := prepared_of_prepare hprep
  have hg := hb.serves.wellFormed
  have hl : b.plan.graph.Layered .perFile := hmode ▸ hb.layered
  have hsound := sound_of_course hb hrun
  have hattends := (hb.begins (r.uniqueKeys_trusted world)).attends hrun
  have hordered : e.core.scheduler.Ordered log :=
    Course.ordered hg hb.closed hl Tracker.asksAfterCompiling hrun
  have hplan := hsound.plan_eq
  refine ⟨fun job hjob hf before after hlog k hk hkc => ⟨?_, fun hkrun => ?_⟩,
    fun id hevent root hroot behind hbehind hmem => ?_⟩
  · exact hordered.last before job.id after hlog job (hplan ▸ hjob) rfl hf k (hplan ▸ hk) hkc
  · refine hordered.notMem_of_running (hplan ▸ hk) hkc hkrun (hplan ▸ hjob) hf ?_
    rw [hlog]
    exact List.mem_append_right _ List.mem_cons_self
  · -- The job whose success is told still counts as running, and it compiles.
    have hidrun : e.core.scheduler.stateOf? id = some .running := hsound.running id
      (List.mem_append_right _ (List.mem_filterMap.2 ⟨_, hevent, rfl⟩))
    rcases Core.answer_eq_nil_or Tracker.asksAfterCompiling e.world b.plan.graph e.observed id
      .succeeded with hnil | ⟨-, k, hkid, hkc⟩
    · rw [hnil] at hroot
      exact absurd hroot List.not_mem_nil
    · obtain ⟨hk, rfl⟩ := hg.job?_eq_some_iff.1 hkid
      rw [Tracker.answer_observer e.world e.observed hkid] at hroot
      obtain ⟨-, j, hj, rfl, -, p, hjp, -⟩ :=
        (Tracker.answered_jobSucceeded e.world e.observed k).of_root hb.serves hattends.plan hroot
      obtain ⟨job, hjob, rfl, hf⟩ := hl.follows_of_behind hj hjp.1 hbehind
      exact hordered.notMem_of_running (hplan ▸ hk) hkc hidrun (hplan ▸ hjob) hf hmem

end Run

/-- A program is linked from two inputs. -/
def BuildRequest.forProgram : BuildRequest :=
  { forObjects [⟨⟨"a"⟩, ⟨"1"⟩⟩, ⟨⟨"b"⟩, ⟨"1"⟩⟩] with
    outputs := OrderedSet.ofList [.linked .executable]
    tools := ⟨"cc", some "ld", none⟩ }

/-- When the program was linked, no compile job is handed out behind the linker. -/
theorem BuildRequest.compiled_before_used_program :
    ∃ (b : PlannedBuild) (world' : SimulatedTools) (told : List (Told SimulatedTools))
      (e : Execution SimulatedTools Tracker) (job : Job) (before after : List JobId),
      forProgram.mode = .perFile ∧
      forProgram.prepare none (SimulatedTools.ofFiles .empty) = (.ok b, world') ∧
      Course (.ofProcesses SimulatedTools) Tracker.observer (forProgram.begin b world') told e ∧
      job ∈ b.plan.graph.jobs ∧ job.stage = .linking ∧
      (CoreHistory.ofTold Tracker.observer b.plan forProgram.policy forProgram.concurrency
        (forProgram.tracker b) told).dispatched = before ++ job.id :: after ∧
      ∀ k ∈ b.plan.graph.jobs, k.isCompile = true →
        k.id ∉ after ∧ e.core.scheduler.stateOf? k.id ≠ some .running := by
  obtain ⟨b, world', told, e, hprep, hrun, hlinked⟩ := forProgram.exists_course_of_check none
    (SimulatedTools.ofFiles .empty)
    (fun b e => b.plan.graph.jobs.any fun job =>
      decide (job.stage = .linking) && e.core.scheduler.stateOf? job.id == some .succeeded)
    (by decide +kernel)
  obtain ⟨job, hjob, hlinked⟩ := List.any_eq_true.1 hlinked
  rw [Bool.and_eq_true, decide_eq_true_eq, beq_iff_eq] at hlinked
  obtain ⟨hstage, hstate⟩ := hlinked
  obtain ⟨modules, start, g, -, hb⟩ := prepared_of_prepare hprep
  have hordered := Course.ordered hb.serves.wellFormed hb.closed hb.layered
    Tracker.asksAfterCompiling hrun
  obtain ⟨before, after, hlog⟩ :=
    List.append_of_mem (hordered.mem_log job.id _ hstate (.inr (.inl rfl)))
  exact ⟨b, world', told, e, job, before, after, rfl, hprep, hrun, hjob, hstage, hlog,
    (compiled_before_used rfl hprep hrun).1 job hjob (by rw [hstage]; rfl) before after hlog⟩

end IncrementalBuild
