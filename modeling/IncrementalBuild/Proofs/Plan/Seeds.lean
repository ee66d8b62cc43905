import IncrementalBuild.FileSystem.Memory
import IncrementalBuild.Proofs.Plan.Prune
import Mathlib.Logic.Relation

/-!
# Seeds, and what they draw on

A seed is a job that has something to be done on its own account. Scheduled are the seeds, what is
reached from them by way of jobs other than the building of imported modules, and the building of
imported modules itself.

That one pass is enough is the work of the topological order, and is dealt with where a plan is made
out job by job: a job is scheduled if it is a seed or follows a scheduled one. What is added here is
that nothing can be scheduled on the strength of itself. A job that is scheduled without being a
seed points to one of smaller rank, and so down to a seed.

The reasons are another matter: they are settled before the pass, each job by the first one that
applies to it, and the pass gives one to those jobs only that have none.
-/

namespace IncrementalBuild

namespace Changes

variable {φ : Type} [FileSystem φ]

/-- Whether there is a reason to do a job on its own account. -/
def Applies (c : Changes) (fs : φ) (job : Job) : ScheduleReason → Prop
  | .dirtyInput => ∃ a ∈ job.inputs, c.dirty.contains a.path = true
  | .commandChanged => c.commands.contains job.key = true
  | .stale => ∃ key ∈ job.originKeys, c.stale.contains key = true
  | .missingOutput => ∃ a ∈ job.outputs, FileSystem.pathExists fs a.path = false
  | .externalModule | .prerequisite => False

instance (c : Changes) (fs : φ) (job : Job) : DecidablePred (c.Applies fs job)
  | .dirtyInput => inferInstanceAs (Decidable (∃ a ∈ job.inputs, c.dirty.contains a.path = true))
  | .commandChanged => inferInstanceAs (Decidable (c.commands.contains job.key = true))
  | .stale => inferInstanceAs (Decidable (∃ key ∈ job.originKeys, c.stale.contains key = true))
  | .missingOutput =>
    inferInstanceAs (Decidable (∃ a ∈ job.outputs, FileSystem.pathExists fs a.path = false))
  | .externalModule | .prerequisite => inferInstanceAs (Decidable False)

/-- The reasons that a job can have of its own, the strongest one first. -/
def ownReasons : List ScheduleReason := [.dirtyInput, .commandChanged, .stale, .missingOutput]

/-- **Seeds**: jobs that have something to be done on their own account. -/
def IsSeed (c : Changes) (fs : φ) (job : Job) : Prop :=
  job.isModuleBuild = false ∧ ∃ reason, c.Applies fs job reason

/-- The first reason that applies to a job. -/
def IsFirst (c : Changes) (fs : φ) (job : Job) (reason : ScheduleReason) : Prop :=
  c.Applies fs job reason ∧ ∃ before after, ownReasons = before ++ reason :: after ∧
    ∀ other ∈ before, ¬ c.Applies fs job other

/-- **Which reason a scheduled job is given.** -/
structure Reasoned (c : Changes) (fs : φ) (job : Job) (reason : ScheduleReason) : Prop where
  moduleBuild : job.isModuleBuild = true → reason = .externalModule
  seed : c.IsSeed fs job → c.IsFirst fs job reason
  drawn : job.isModuleBuild = false → ¬ c.IsSeed fs job → reason = .prerequisite

variable {c : Changes} {fs : φ} {job : Job} {reason : ScheduleReason}

/-- Only reasons of a job's own apply to it. -/
theorem Applies.mem_ownReasons (h : c.Applies fs job reason) : reason ∈ ownReasons := by
  cases reason with
  | externalModule => exact h.elim
  | prerequisite => exact h.elim
  | dirtyInput | commandChanged | missingOutput | stale => decide

/-- The reasons of a job are gone through in order. -/
theorem reason?_eq_find? (hm : job.isModuleBuild = false) :
    c.reason? fs job = ownReasons.find? (c.Applies fs job ·) := by
  have hinput : decide (c.Applies fs job .dirtyInput)
      = job.inputs.any fun a => c.dirty.contains a.path := by
    rw [Bool.eq_iff_iff, decide_eq_true_iff, List.any_eq_true]
    rfl
  have hcommand : decide (c.Applies fs job .commandChanged) = c.commands.contains job.key :=
    Bool.decide_eq_true
  have hstale : decide (c.Applies fs job .stale) = job.originKeys.any c.stale.contains := by
    rw [Bool.eq_iff_iff, decide_eq_true_iff, List.any_eq_true]
    rfl
  have houtput : decide (c.Applies fs job .missingOutput)
      = job.outputs.any fun a => !FileSystem.pathExists fs a.path := by
    rw [Bool.eq_iff_iff, decide_eq_true_iff, List.any_eq_true]
    simp only [Bool.not_eq_true']
    rfl
  unfold reason? ownReasons
  simp only [List.find?_cons, List.find?_nil, hinput, hcommand, hstale, houtput, hm]
  cases job.inputs.any fun a => c.dirty.contains a.path <;> cases c.commands.contains job.key <;>
    cases job.originKeys.any c.stale.contains <;>
    cases job.outputs.any fun a => !FileSystem.pathExists fs a.path <;> rfl

/-- **What a job is scheduled for on its own account is the first reason that applies to it.** -/
theorem reason?_eq_some_iff (hm : job.isModuleBuild = false) :
    c.reason? fs job = some reason ↔ c.IsFirst fs job reason := by
  rw [reason?_eq_find? hm, List.find?_eq_some_iff_append, decide_eq_true_iff]
  refine and_congr_right fun _ => exists_congr fun before => exists_congr fun after => ?_
  simp

/-- A job that builds no module has a reason exactly if it is a seed. -/
theorem reason?_eq_none_iff (hm : job.isModuleBuild = false) :
    c.reason? fs job = none ↔ ¬ c.IsSeed fs job := by
  rw [reason?_eq_find? hm, List.find?_eq_none]
  simp only [decide_eq_true_eq]
  exact ⟨fun h ⟨_, reason, hr⟩ => h reason hr.mem_ownReasons hr, fun h reason _ hr =>
    h ⟨hm, reason, hr⟩⟩

/-- Building a module is always a reason. -/
theorem reason?_of_isModuleBuild (hm : job.isModuleBuild = true) :
    c.reason? fs job = some .externalModule := if_pos hm

/-- On its own account a job is scheduled if it is a seed or builds an imported module. -/
theorem isSome_reason?_iff_isSeed :
    (c.reason? fs job).isSome = true ↔ job.isModuleBuild = true ∨ c.IsSeed fs job := by
  cases hm : job.isModuleBuild with
  | true => simp [reason?_of_isModuleBuild hm]
  | false =>
    rw [← not_iff_not, Bool.not_eq_true, Option.isSome_eq_false_iff, Option.isNone_iff_eq_none,
      reason?_eq_none_iff hm]
    simp

end Changes

namespace JobGraph

/-- Whether a job draws on another: it stands before it, and is not the building of a module. -/
def Draws (g : JobGraph) (p d : JobId) : Prop :=
  d ∈ g.dependentsOf p ∧ ∃ job ∈ g.jobs, job.id = p ∧ job.isModuleBuild = false

section Draws

variable {φ : Type} [FileSystem φ] {g : JobGraph} {c : Changes} {fs : φ} {job : Job}

/-- A scheduled job has those scheduled that it draws on, in whatever number of steps. -/
theorem isScheduled_of_draws (hg : g.WellFormed) {p d : JobId}
    (h : Relation.TransGen g.Draws p d)
    (hs : ((g.prune c fs).disposition p).isScheduled = true) :
    ((g.prune c fs).disposition d).isScheduled = true := by
  have hstep {p d : JobId} (h : g.Draws p d)
      (hs : ((g.prune c fs).disposition p).isScheduled = true) :
      ((g.prune c fs).disposition d).isScheduled = true := by
    obtain ⟨hd, before, hbefore, rfl, hm⟩ := h
    obtain ⟨after, hafter, rfl, hp⟩ := mem_dependentsOf.1 hd
    exact closed_prune hg c fs before hbefore after hafter hp hm hs
  induction h with
  | single h => exact hstep h hs
  | tail _ h ih => exact hstep h ih

/-- **Scheduled are the seeds, what they draw on, and the building of imported modules.** From a
job that is scheduled without a reason of its own the way leads down in rank. -/
theorem isScheduled_iff_reached (hg : g.WellFormed) (hjob : job ∈ g.jobs) :
    ((g.prune c fs).disposition job.id).isScheduled = true ↔
      job.isModuleBuild = true ∨ c.IsSeed fs job ∨
        ∃ seed ∈ g.jobs, c.IsSeed fs seed ∧ Relation.TransGen g.Draws seed.id job.id := by
  constructor
  · obtain ⟨rank, hrank⟩ := hg.ranked
    induction hr : rank job.id using Nat.strong_induction_on generalizing job with
    | _ n ih =>
      intro hs
      rcases (isScheduled_prune_iff hg c fs hjob).1 hs with hown | ⟨before, hbefore, hp, hm, hs⟩
      · rcases Changes.isSome_reason?_iff_isSeed.1 hown with hm | hseed
        · exact .inl hm
        · exact .inr (.inl hseed)
      · have hdraws : g.Draws before.id job.id :=
          ⟨mem_dependentsOf.2 ⟨job, hjob, rfl, hp⟩, before, hbefore, rfl, hm⟩
        rcases ih _ (hr ▸ (hrank job hjob _ hp).2) hbefore rfl hs with
          hm' | hseed | ⟨seed, hmem, hseed, hway⟩
        · rw [hm] at hm'
          cases hm'
        · exact .inr (.inr ⟨before, hbefore, hseed, .single hdraws⟩)
        · exact .inr (.inr ⟨seed, hmem, hseed, hway.tail hdraws⟩)
  · have hown {job : Job} (hjob : job ∈ g.jobs)
        (h : job.isModuleBuild = true ∨ c.IsSeed fs job) :
        ((g.prune c fs).disposition job.id).isScheduled = true :=
      (isScheduled_prune_iff hg c fs hjob).2 (.inl (Changes.isSome_reason?_iff_isSeed.2 h))
    rintro (hm | hseed | ⟨seed, hmem, hseed, hway⟩)
    · exact hown hjob (.inl hm)
    · exact hown hjob (.inr hseed)
    · exact isScheduled_of_draws hg hway (hown hmem (.inr hseed))

end Draws

/-! ## Reasons -/

section Reasons

variable {φ : Type} [FileSystem φ] {g : JobGraph} {c : Changes} {fs : φ} {job : Job}

/-- What is given to a job that is drawn on. -/
theorem getD_drawOn (g : JobGraph) (ds : List Disposition) (id j : JobId) :
    (g.drawOn ds id).getD j .clean = ds.getD j .clean ∨
      ds.getD j .clean = .clean ∧ (g.drawOn ds id).getD j .clean = .scheduled .prerequisite := by
  by_cases hid : j = id
  · subst hid
    unfold drawOn
    split
    · rename_i h
      by_cases hlt : j < ds.length
      · refine .inr ⟨of_decide_eq_true (Bool.and_eq_true_iff.1 h).1, ?_⟩
        rw [List.getD_eq_getElem?_getD, List.getElem?_set_self hlt]
        rfl
      · exact .inl (by rw [List.set_eq_of_length_le (Nat.le_of_not_lt hlt)])
    · exact .inl rfl
  · exact .inl (getD_drawOn_of_ne g ds hid)

/-- **Drawing jobs on gives a reason to those only that have none.** -/
theorem getD_foldl_drawOn (g : JobGraph) (ids : List JobId) (ds : List Disposition) (j : JobId) :
    (ids.foldl g.drawOn ds).getD j .clean = ds.getD j .clean ∨
      ds.getD j .clean = .clean ∧
        (ids.foldl g.drawOn ds).getD j .clean = .scheduled .prerequisite := by
  induction ids generalizing ds with
  | nil => exact .inl rfl
  | cons id rest ih =>
    rw [List.foldl_cons]
    rcases ih (g.drawOn ds id) with h | ⟨hclean, h⟩ <;>
      rcases getD_drawOn g ds id j with hid | ⟨hclean', hid⟩
    · exact .inl (h.trans hid)
    · exact .inr ⟨hclean', h.trans hid⟩
    · exact .inr ⟨hid.symm.trans hclean, h⟩
    · rw [hid] at hclean
      cases hclean

/-- A scheduled job is scheduled on its own account, or drawn on for want of a reason of its
own. -/
theorem disposition_prune_cases (hg : g.WellFormed) (hjob : job ∈ g.jobs) {reason : ScheduleReason}
    (h : (g.prune c fs).disposition job.id = .scheduled reason) :
    c.reason? fs job = some reason ∨ c.reason? fs job = none ∧ reason = .prerequisite := by
  have hpass : (g.topologicalOrder.foldl g.drawOn (g.ownDispositions c fs)).getD job.id .clean
      = .scheduled reason := h
  have hown := getD_ownDispositions hg c fs hjob
  have hcases := getD_foldl_drawOn g g.topologicalOrder (g.ownDispositions c fs) job.id
  rw [hpass, hown] at hcases
  cases hr : c.reason? fs job with
  | none =>
    rw [hr] at hcases
    rcases hcases with hsame | ⟨-, hdrawn⟩
    · cases hsame
    · exact .inr ⟨rfl, Disposition.scheduled.inj hdrawn⟩
  | some r =>
    rw [hr] at hcases
    rcases hcases with hsame | ⟨hclean, -⟩
    · exact .inl (congrArg some (Disposition.scheduled.inj hsame).symm)
    · cases hclean

/-- **Every scheduled job is given the reason that is due to it.** -/
theorem reasoned_of_disposition (hg : g.WellFormed) (hjob : job ∈ g.jobs) {reason : ScheduleReason}
    (h : (g.prune c fs).disposition job.id = .scheduled reason) : c.Reasoned fs job reason := by
  rcases disposition_prune_cases hg hjob h with hown | ⟨hnone, rfl⟩
  · constructor
    · intro hm
      rw [Changes.reason?_of_isModuleBuild hm] at hown
      exact (Option.some.inj hown).symm
    · exact fun hseed => (Changes.reason?_eq_some_iff hseed.1).1 hown
    · intro hm hseed
      rw [(Changes.reason?_eq_none_iff hm).2 hseed] at hown
      cases hown
  · have hnot : ¬ (job.isModuleBuild = true ∨ c.IsSeed fs job) := by
      rw [← Changes.isSome_reason?_iff_isSeed, hnone]
      simp
    exact ⟨fun hm => absurd (.inl hm) hnot, fun hseed => absurd (.inr hseed) hnot, fun _ _ => rfl⟩

/-- **Pruning is exact.** A job is scheduled if it builds an imported module, is a seed, or is
reached from a seed along jobs that do not build modules, and it is given the reason that is due to
it. -/
theorem prune_exact {g : JobGraph} (hg : g.WellFormed) (c : Changes) (fs : φ) {job : Job}
    (hjob : job ∈ g.jobs) :
    (((g.prune c fs).disposition job.id).isScheduled = true ↔
        job.isModuleBuild = true ∨ c.IsSeed fs job ∨
          ∃ seed ∈ g.jobs, c.IsSeed fs seed ∧ Relation.TransGen g.Draws seed.id job.id)
      ∧ ∀ reason, (g.prune c fs).disposition job.id = .scheduled reason →
          c.Reasoned fs job reason :=
  ⟨isScheduled_iff_reached hg hjob, fun _ h => reasoned_of_disposition hg hjob h⟩

end Reasons

/-! A job whose command has changed, and which was left unfinished, with the building of a module
behind it and a job behind each of them. -/

namespace Cut

/-- A module is built behind a job whose command has changed, and two jobs follow: one behind the
module, one behind the first job. -/
def graph : JobGraph :=
  ⟨[.merging 0 "changed" [], { Job.merging 1 "module" [0] with kind := .buildModule "module" },
    .merging 2 "importing" [1], .merging 3 "following" [0]]⟩

/-- The first job is unfinished, and its command has changed. -/
def changes : Changes where
  dirty := ∅
  stale := OrderedSet.ofList [⟨"changed"⟩]
  commands := OrderedSet.ofList [⟨"changed"⟩]

end Cut

open Cut in
/-- What waits for the module alone is left as it is, although the first job is behind it; what
waits for the first job is scheduled. Of two reasons the changed command is the one that is
given. -/
theorem prune_exact_cut :
    graph.WellFormed
      ∧ (graph.prune changes MemoryFiles.empty).dispositions
        = [.scheduled .commandChanged, .scheduled .externalModule, .clean,
          .scheduled .prerequisite]
      ∧ changes.IsFirst MemoryFiles.empty (.merging 0 "changed" []) .commandChanged
      ∧ (¬ ∃ seed ∈ graph.jobs, changes.IsSeed MemoryFiles.empty seed ∧
          Relation.TransGen graph.Draws seed.id 2)
      ∧ ∃ seed ∈ graph.jobs, changes.IsSeed MemoryFiles.empty seed ∧
          Relation.TransGen graph.Draws seed.id 3 := by
  have hg : graph.WellFormed := wellFormed_of_isOk (by decide +kernel)
  have hplan : (graph.prune changes MemoryFiles.empty).dispositions
      = [.scheduled .commandChanged, .scheduled .externalModule, .clean,
        .scheduled .prerequisite] := by decide +kernel
  have hdisposition (id : JobId) : (graph.prune changes MemoryFiles.empty).disposition id
      = [Disposition.scheduled .commandChanged, .scheduled .externalModule, .clean,
        .scheduled .prerequisite].getD id .clean := congrArg (·.getD id .clean) hplan
  have hchanged : .merging 0 "changed" [] ∈ graph.jobs := by simp [graph]
  have himporting : .merging 2 "importing" [1] ∈ graph.jobs := by simp [graph]
  have hfollowing : .merging 3 "following" [0] ∈ graph.jobs := by simp [graph]
  refine ⟨hg, hplan, ?_, fun h => ?_, ?_⟩
  · obtain ⟨-, hreason⟩ := prune_exact hg changes MemoryFiles.empty hchanged
    exact (hreason _ (hdisposition 0)).seed ⟨rfl, .commandChanged, by decide +kernel⟩
  · obtain ⟨hiff, -⟩ := prune_exact hg changes MemoryFiles.empty himporting
    have hs : ((graph.prune changes MemoryFiles.empty).disposition 2).isScheduled = true :=
      hiff.2 (.inr (.inr h))
    rw [hdisposition 2] at hs
    cases hs
  · obtain ⟨hiff, hreason⟩ := prune_exact hg changes MemoryFiles.empty hfollowing
    have hs : ((graph.prune changes MemoryFiles.empty).disposition 3).isScheduled = true := by
      rw [hdisposition 3]
      rfl
    rcases hiff.1 hs with hm | hseed | hway
    · cases hm
    · exact ((hreason _ (hdisposition 3)).seed hseed).1.elim
    · exact hway

end JobGraph

end IncrementalBuild
