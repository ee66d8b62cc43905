import IncrementalBuild.Plan.Prune
import IncrementalBuild.Proofs.JobGraph
import Mathlib.Data.List.Induction

/-!
# Which jobs a plan schedules

The dispositions are settled in one pass in topological order, so a job is looked at when
those of its prerequisites are settled. The outcome does not mention the order any more: a
job is scheduled if it has a reason of its own, or waits for a scheduled job other than
the building of a module.
-/

namespace IncrementalBuild

namespace JobGraph

section Draw

variable {g : JobGraph} {ds : List Disposition} {id j : JobId}

theorem getD_drawOn_of_ne (g : JobGraph) (ds : List Disposition) (h : j ≠ id) :
    (g.drawOn ds id).getD j .clean = ds.getD j .clean := by
  unfold drawOn
  split
  · rw [List.getD_eq_getElem?_getD, List.getElem?_set_ne (Ne.symm h),
      List.getD_eq_getElem?_getD]
  · rfl

/-- What drawing a job on makes of it. -/
theorem isScheduled_drawOn (hid : id < ds.length) :
    ((g.drawOn ds id).getD id .clean).isScheduled = true ↔
      (ds.getD id .clean).isScheduled = true ∨
        ∃ p ∈ g.prerequisitesOf id, g.drawsOn ds p = true := by
  unfold drawOn
  by_cases hclean : ds.getD id .clean = .clean
  · by_cases hany : (g.prerequisitesOf id).any (g.drawsOn ds) = true
    · rw [if_pos (Bool.and_eq_true_iff.2 ⟨decide_eq_true hclean, hany⟩),
        List.getD_eq_getElem?_getD, List.getElem?_set_self hid]
      exact iff_of_true rfl (.inr (List.any_eq_true.1 hany))
    · rw [if_neg fun h => hany (Bool.and_eq_true_iff.1 h).2, hclean]
      refine iff_of_false (fun h => by cases h) fun h => hany ?_
      exact List.any_eq_true.2 (h.resolve_left fun h => by cases h)
  · rw [if_neg fun h => hclean (of_decide_eq_true (Bool.and_eq_true_iff.1 h).1)]
    refine iff_of_true ?_ (.inl ?_) <;>
      cases hd : ds.getD id .clean with
      | clean => exact absurd hd hclean
      | scheduled reason => rfl

/-- **One pass over jobs that stand behind their prerequisites** settles each of them by
the outcome for its prerequisites. -/
theorem isScheduled_foldl_drawOn (g : JobGraph) (ds : List Disposition) (order : List JobId)
    (hn : order.Nodup) (hlt : ∀ id ∈ order, id < ds.length)
    (hbehind : ∀ l id r, order = l ++ id :: r → ∀ p ∈ g.prerequisitesOf id, p ∈ l) :
    (∀ j, j ∉ order → (order.foldl g.drawOn ds).getD j .clean = ds.getD j .clean) ∧
      ∀ id ∈ order, (((order.foldl g.drawOn ds).getD id .clean).isScheduled = true ↔
        (ds.getD id .clean).isScheduled = true ∨
          ∃ p ∈ g.prerequisitesOf id, g.drawsOn (order.foldl g.drawOn ds) p = true) := by
  induction order using List.reverseRecOn with
  | nil => exact ⟨fun _ _ => rfl, fun id h => absurd h List.not_mem_nil⟩
  | append_singleton order last ih =>
    have hlast : last ∉ order := fun h =>
      (List.nodup_append.1 hn).2.2 last h last List.mem_cons_self rfl
    obtain ⟨hout, hin⟩ := ih (List.nodup_append.1 hn).1
      (fun id hid => hlt id (List.mem_append_left _ hid))
      fun l id r h p hp => hbehind l id (r ++ [last]) (by rw [h]; simp) p hp
    rw [List.foldl_append, List.foldl_cons, List.foldl_nil]
    -- The last step decides about `last` alone, and nobody before waits for it.
    have hsame {p : JobId} (hp : p ∈ order) :
        g.drawsOn (g.drawOn (order.foldl g.drawOn ds) last) p
          = g.drawsOn (order.foldl g.drawOn ds) p := by
      unfold drawsOn
      rw [getD_drawOn_of_ne g _ fun e : p = last => hlast (e ▸ hp)]
    refine ⟨fun j hj => ?_, fun id hid => ?_⟩
    · rw [List.mem_append, not_or] at hj
      rw [getD_drawOn_of_ne g _ fun e : j = last => hj.2 (e ▸ List.mem_cons_self)]
      exact hout j hj.1
    · rcases List.mem_append.1 hid with hid | hid
      · rw [getD_drawOn_of_ne g _ fun e : id = last => hlast (e ▸ hid), hin id hid]
        obtain ⟨l, r, rfl⟩ := List.append_of_mem hid
        have hmem : ∀ p ∈ g.prerequisitesOf id, p ∈ l ++ id :: r := fun p hp =>
          List.mem_append_left _ (hbehind l id (r ++ [last]) (by simp) p hp)
        exact or_congr_right (exists_congr fun p => and_congr_right fun hp => by
          rw [hsame (hmem p hp)])
      · obtain rfl := List.mem_singleton.1 hid
        have hmem : ∀ p ∈ g.prerequisitesOf id, p ∈ order := hbehind order id [] rfl
        rw [isScheduled_drawOn (by rw [length_foldl_drawOn]; exact hlt id (by simp)),
          hout id hlast]
        exact or_congr_right (exists_congr fun p => and_congr_right fun hp => by
          rw [hsame (hmem p hp)])

end Draw

variable {φ : Type} [FileSystem φ]

/-- Whether what follows a job is scheduled with it, in a plan. -/
theorem drawsOn_prune {g : JobGraph} (hg : g.WellFormed) (c : Changes) (fs : φ) {p : JobId} :
    g.drawsOn (g.prune c fs).dispositions p = true ↔
      ((g.prune c fs).disposition p).isScheduled = true ∧
        ∀ job ∈ g.jobs, job.id = p → job.isModuleBuild = false := by
  unfold drawsOn
  rw [Bool.and_eq_true]
  refine and_congr_right fun hs => ?_
  cases hjob : g.job? p with
  | none =>
    refine iff_of_true rfl fun job hmem hid => ?_
    rw [← hid, hg.job?_id hmem] at hjob
    cases hjob
  | some job =>
    obtain ⟨hmem, rfl⟩ := hg.job?_eq_some_iff.1 hjob
    constructor
    · intro h j hj hid
      rw [hg.eq_of_id_eq hj hmem hid]
      simpa using h
    · intro h
      simpa using h job hmem rfl

/-- What is to become of a job on its own account. -/
theorem getD_ownDispositions {g : JobGraph} (hg : g.WellFormed) (c : Changes) (fs : φ) {job : Job}
    (hjob : job ∈ g.jobs) :
    (g.ownDispositions c fs).getD job.id .clean
      = ((c.reason? fs job).map Disposition.scheduled).getD .clean := by
  have : g.jobs[job.id]? = some job := hg.job?_id hjob
  unfold ownDispositions
  rw [List.getD_eq_getElem?_getD, List.getElem?_map, this, Option.map_some, Option.getD_some]
  cases c.reason? fs job <;> rfl

/-- **A job is scheduled if it has a reason of its own, or waits for a scheduled job
other than the building of a module**, and only then. -/
theorem isScheduled_prune_iff {g : JobGraph} (hg : g.WellFormed) (c : Changes) (fs : φ)
    {job : Job} (hjob : job ∈ g.jobs) :
    ((g.prune c fs).disposition job.id).isScheduled = true ↔
      (c.reason? fs job).isSome = true ∨
        ∃ before ∈ g.jobs, before.id ∈ job.prerequisites.toList ∧
          before.isModuleBuild = false ∧
          ((g.prune c fs).disposition before.id).isScheduled = true := by
  have hown : ((g.ownDispositions c fs).getD job.id .clean).isScheduled = true ↔
      (c.reason? fs job).isSome = true := by
    rw [getD_ownDispositions hg c fs hjob]
    cases c.reason? fs job <;> simp [Disposition.isScheduled]
  have hpass := (isScheduled_foldl_drawOn g (g.ownDispositions c fs) g.topologicalOrder
    hg.nodup_topologicalOrder
    (fun id hid => by
      rw [ownDispositions, List.length_map]
      exact hg.mem_topologicalOrder.1 hid)
    fun l id r h p hp => hg.mem_of_topologicalOrder_eq h hp).2 job.id
      (hg.mem_topologicalOrder.2 (hg.id_lt hjob))
  refine hpass.trans (or_congr hown ?_)
  obtain ⟨rank, hrank⟩ := hg.ranked
  constructor
  · rintro ⟨p, hp, hdraws⟩
    obtain ⟨job', hjob', hp⟩ := mem_prerequisitesOf.1 hp
    rw [hg.job?_id hjob] at hjob'
    obtain rfl := Option.some.inj hjob'
    obtain ⟨before, hbefore⟩ := exists_job?_of_lt (hrank job hjob p hp).1
    obtain ⟨hmem, rfl⟩ := hg.job?_eq_some_iff.1 hbefore
    obtain ⟨hs, hm⟩ := (drawsOn_prune hg c fs).1 hdraws
    exact ⟨before, hmem, hp, hm before hmem rfl, hs⟩
  · rintro ⟨before, hmem, hp, hm, hs⟩
    refine ⟨before.id, mem_prerequisitesOf.2 ⟨job, hg.job?_id hjob, hp⟩,
      (drawsOn_prune hg c fs).2 ⟨hs, fun j hj hid => ?_⟩⟩
    rw [hg.eq_of_id_eq hj hmem hid]
    exact hm

end JobGraph

/-- **A closed plan**: what waits for a scheduled job, other than the building of a
module, is scheduled. -/
def BuildPlan.Closed (plan : BuildPlan) : Prop :=
  ∀ before ∈ plan.graph.jobs, ∀ after ∈ plan.graph.jobs,
    before.id ∈ after.prerequisites.toList → before.isModuleBuild = false →
      (plan.disposition before.id).isScheduled = true →
        (plan.disposition after.id).isScheduled = true

/-- **Pruning makes closed plans.** -/
theorem JobGraph.closed_prune {φ : Type} [FileSystem φ] {g : JobGraph} (hg : g.WellFormed)
    (c : Changes) (fs : φ) : (g.prune c fs).Closed :=
  fun before hbefore _ hafter hp hm hs =>
    (isScheduled_prune_iff hg c fs hafter).2 (.inr ⟨before, hbefore, hp, hm, hs⟩)

/-- **The reasons to schedule a job** on its own account. -/
theorem Changes.isSome_reason?_iff {φ : Type} [FileSystem φ] (c : Changes) (fs : φ) {job : Job} :
    (c.reason? fs job).isSome = true ↔
      job.isModuleBuild = true ∨ (∃ a ∈ job.inputs, c.dirty.contains a.path = true) ∨
        c.commands.contains job.key = true ∨
        (∃ key ∈ job.originKeys, c.stale.contains key = true) ∨
        ∃ a ∈ job.outputs, FileSystem.pathExists fs a.path = false := by
  unfold reason?
  rw [← List.any_eq_true (p := fun a : Artifact => c.dirty.contains a.path),
    ← List.any_eq_true (p := c.stale.contains)]
  have houtputs : (job.outputs.any fun a => !FileSystem.pathExists fs a.path) = true ↔
      ∃ a ∈ job.outputs, FileSystem.pathExists fs a.path = false := by
    rw [List.any_eq_true]
    simp only [Bool.not_eq_true']
  rw [← houtputs]
  cases job.isModuleBuild <;> cases job.inputs.any fun a => c.dirty.contains a.path <;>
    cases c.commands.contains job.key <;> cases job.originKeys.any c.stale.contains <;>
    cases job.outputs.any fun a => !FileSystem.pathExists fs a.path <;> simp

/-- **Where only the building of modules has a reason, nothing else is scheduled.** -/
theorem JobGraph.isModuleBuild_of_isScheduled {φ : Type} [FileSystem φ] {g : JobGraph}
    (hg : g.WellFormed) {c : Changes} {fs : φ}
    (hno : ∀ job ∈ g.jobs, (c.reason? fs job).isSome = true → job.isModuleBuild = true) {job : Job}
    (hjob : job ∈ g.jobs) (hs : ((g.prune c fs).disposition job.id).isScheduled = true) :
    job.isModuleBuild = true := by
  obtain ⟨rank, hrank⟩ := hg.ranked
  -- What draws a job on has a smaller rank.
  induction hr : rank job.id using Nat.strong_induction_on generalizing job with
  | _ n ih =>
    rcases (isScheduled_prune_iff hg c fs hjob).1 hs with h | ⟨before, hbefore, hid, hm, hs'⟩
    · exact hno job hjob h
    · have := ih _ (hr ▸ (hrank job hjob before.id hid).2) hbefore hs' rfl
      rw [hm] at this
      cases this

end IncrementalBuild
