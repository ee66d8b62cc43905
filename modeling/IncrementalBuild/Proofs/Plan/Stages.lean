import IncrementalBuild.Proofs.Plan.Batch
import IncrementalBuild.Proofs.Plan.Prune
import IncrementalBuild.Proofs.Plan.Requested

/-!
# The stages of a plan

The jobs of a plan belong to stages, and the building of modules aside, a job waits for
another exactly if what is made in the one's stage is used in the other's. Each compile
job waits for the header, and whatever works on the products of compiling waits for every
compile job. Since the jobs of a plan stand in the order of their stages, a number says in
which stage a job is.

Where every tracked input is dirty, every job is scheduled: what compiles reads a dirty
input, and what works on the products waits for it.

A job that gathers others is in their stage, so batches keep all of this.
-/

namespace IncrementalBuild

/-- What is done with a job. -/
inductive Stage where
  | header
  | modules
  | compiling
  | merging
  | interface
  | linking
  deriving DecidableEq

namespace Stage

/-- The place of a stage in the order of the jobs. -/
def rank : Stage → Nat
  | header => 0
  | modules => 1
  | compiling => 2
  | merging => 3
  | interface => 4
  | linking => 5

/-- **Whether one stage works on what is made in another.** -/
def feeds (mode : CompilationMode) : Stage → Stage → Bool
  | header, compiling => true
  | compiling, merging => true
  | compiling, linking => true
  | compiling, interface => mode == .wholeModule
  | merging, interface => mode == .perFile
  | _, _ => false

/-- The stages that work on what compiling makes. -/
def follows : Stage → Bool
  | merging => true
  | interface => true
  | linking => true
  | _ => false

/-- What works on the products of compiling, or on what is made from them, follows. -/
theorem follows_of_feeds {mode : CompilationMode} {a b : Stage} (h : feeds mode a b = true)
    (ha : a = compiling ∨ a.follows = true) : b.follows = true := by
  cases a <;> cases b <;> simp_all [feeds, follows]

end Stage

/-- The stage of a kind of job. -/
def JobKind.stage : JobKind → Stage
  | .precompileHeader _ => .header
  | .buildModule _ => .modules
  | .compile _ _ => .compiling
  | .mergeModule _ => .merging
  | .generateInterface _ => .interface
  | .link _ => .linking

/-- The stage of a job is that of its kind. -/
def Job.stage (job : Job) : Stage := job.kind.stage

/-- A job compiles exactly if it is of that stage. -/
theorem Job.isCompile_iff {job : Job} : job.isCompile = true ↔ job.stage = .compiling := by
  unfold isCompile stage JobKind.stage
  cases job.kind <;> simp

/-- A job builds no module exactly if it is of another stage. -/
theorem Job.isModuleBuild_eq_false_iff {job : Job} :
    job.isModuleBuild = false ↔ job.stage ≠ .modules := by
  unfold isModuleBuild stage JobKind.stage
  cases job.kind <;> simp

/-- What works on products builds no module. -/
theorem Job.isModuleBuild_of_follows {job : Job} (h : job.stage.follows = true) :
    job.isModuleBuild = false := by
  refine isModuleBuild_eq_false_iff.2 fun e => ?_
  rw [e] at h
  cases h

/-- What compiles builds no module. -/
theorem Job.isModuleBuild_of_isCompile {job : Job} (h : job.isCompile = true) :
    job.isModuleBuild = false := by
  refine isModuleBuild_eq_false_iff.2 fun e => ?_
  rw [isCompile_iff.1 h] at e
  cases e

/-- **Whether the jobs of a graph wait as their stages say**, the building of modules
aside. -/
structure JobGraph.Layered (g : JobGraph) (mode : CompilationMode) : Prop where
  waits_iff : ∀ before ∈ g.jobs, before.isModuleBuild = false → ∀ after ∈ g.jobs,
    before.id ∈ after.prerequisites.toList ↔ Stage.feeds mode before.stage after.stage = true
  /-- Where inputs are compiled one by one, an interface is made from a merged module. -/
  merged : mode = .perFile → ∀ job ∈ g.jobs, job.stage = .interface →
    ∃ before ∈ g.jobs, before.stage = .merging

/-! ## Stages and numbers -/

namespace PlanSetting

variable {s : PlanSetting}

/-- Jobs for the header are of the first stage. -/
theorem stage_of_mem_headerJobs {draft : Job} (h : draft ∈ s.headerJobs) :
    draft.stage = .header := by
  obtain ⟨header, -, rfl⟩ := List.mem_map.1 h
  rfl

/-- Jobs that build modules are of the second stage. -/
theorem stage_of_mem_moduleJobs {draft : Job} (h : draft ∈ s.moduleJobs) :
    draft.stage = .modules := by
  obtain ⟨name, -, m, -, rfl⟩ := mem_moduleJobs_iff.1 h
  rfl

/-- Jobs that compile are of the third stage. -/
theorem stage_of_mem_compileJobs {draft : Job} (h : draft ∈ s.compileJobs) :
    draft.stage = .compiling := by
  rcases mem_compileJobs_iff.1 h with ⟨-, p, -, rfl⟩ | ⟨-, rfl⟩ <;> rfl

/-- A job that merges waits for all that compile. -/
theorem stage_of_mem_mergeJobs {draft : Job} (h : draft ∈ s.mergeJobs) :
    draft.stage = .merging ∧ draft.prerequisites = OrderedSet.ofList s.compileIds := by
  unfold mergeJobs at h
  split at h
  · obtain rfl := List.mem_singleton.1 h
    exact ⟨rfl, rfl⟩
  · exact absurd h List.not_mem_nil

/-- A job that writes an interface waits for what makes the module. -/
theorem stage_of_mem_interfaceJobs {draft : Job} (h : draft ∈ s.interfaceJobs) :
    draft.stage = .interface ∧ draft.prerequisites = OrderedSet.ofList s.moduleIds := by
  unfold interfaceJobs at h
  split at h
  · obtain rfl := List.mem_singleton.1 h
    exact ⟨rfl, rfl⟩
  · exact absurd h List.not_mem_nil

/-- A job that links waits for all that compile. -/
theorem stage_of_mem_linkJobs {draft : Job} (h : draft ∈ s.linkJobs) :
    draft.stage = .linking ∧ draft.prerequisites = OrderedSet.ofList s.compileIds := by
  unfold linkJobs at h
  split at h
  · exact absurd h List.not_mem_nil
  · obtain ⟨output, -, rfl⟩ := List.mem_map.1 h
    exact ⟨rfl, rfl⟩

/-- What is of the stage for interfaces writes the interface. -/
theorem mem_interfaceJobs_of_stage {draft : Job} (h : draft ∈ s.jobs)
    (hstage : draft.stage = .interface) : draft ∈ s.interfaceJobs := by
  simp only [jobs, List.mem_append] at h
  rcases h with ((((h | h) | h) | h) | h) | h
  · cases hstage.symm.trans (stage_of_mem_headerJobs h)
  · cases hstage.symm.trans (stage_of_mem_moduleJobs h)
  · cases hstage.symm.trans (stage_of_mem_compileJobs h)
  · cases hstage.symm.trans (stage_of_mem_mergeJobs h).1
  · exact h
  · cases hstage.symm.trans (stage_of_mem_linkJobs h).1

/-- An interface is written only where one is wanted. -/
theorem wantsInterface_of_mem_interfaceJobs {draft : Job} (h : draft ∈ s.interfaceJobs) :
    s.request.wantsInterface = true := by
  unfold interfaceJobs at h
  split at h
  · assumption
  · exact absurd h List.not_mem_nil

/-- The module is needed where an interface is wanted. -/
theorem needsModule_of_wantsInterface (hwants : s.request.wantsInterface = true) :
    s.request.needsModule = true := by
  rw [BuildRequest.needsModule, hwants, Bool.or_true]

/-- Where inputs are compiled one by one and the module is needed, there is a job that merges
what is compiled into it. -/
theorem exists_mergeJobs (hmode : s.request.mode = .perFile)
    (hneeds : s.request.needsModule = true) :
    ∃ draft, s.mergeJobs = [draft] ∧ draft.outputs = [s.layout.mergedModule] := by
  unfold mergeJobs
  rw [if_pos (by rw [hneeds, hmode]; rfl)]
  exact ⟨_, rfl, rfl⟩

/-- Where a list is cut between two stages, numbers tell the jobs before the cut from
those behind it. -/
theorem rank_le_iff_lt {before behind : List Job} {k : Nat}
    (hbefore : ∀ d ∈ before, d.stage.rank ≤ k) (hbehind : ∀ d ∈ behind, k < d.stage.rank)
    {i : Nat} {draft : Job} (h : (before ++ behind)[i]? = some draft) :
    draft.stage.rank ≤ k ↔ i < before.length := by
  rcases Nat.lt_or_ge i before.length with hi | hi
  · rw [List.getElem?_append_left hi] at h
    exact iff_of_true (hbefore draft (List.mem_of_getElem? h)) hi
  · rw [List.getElem?_append_right hi] at h
    exact iff_of_false (Nat.not_le.2 (hbehind draft (List.mem_of_getElem? h))) (Nat.not_lt.2 hi)

/-- **The jobs stand in the order of their stages.** -/
theorem rank_iff_of_getElem? {i : Nat} {draft : Job} (h : s.jobs[i]? = some draft) :
    (draft.stage.rank ≤ 0 ↔ i < s.headerJobs.length) ∧
      (draft.stage.rank ≤ 1 ↔ i < s.headerJobs.length + s.moduleJobs.length) ∧
      (draft.stage.rank ≤ 2 ↔
        i < s.headerJobs.length + s.moduleJobs.length + s.compileJobs.length) ∧
      (draft.stage.rank ≤ 3 ↔ i < s.headerJobs.length + s.moduleJobs.length
        + s.compileJobs.length + s.mergeJobs.length) := by
  have hheader {d : Job} (hd : d ∈ s.headerJobs) : d.stage.rank = 0 :=
    congrArg Stage.rank (stage_of_mem_headerJobs hd)
  have hmodule {d : Job} (hd : d ∈ s.moduleJobs) : d.stage.rank = 1 :=
    congrArg Stage.rank (stage_of_mem_moduleJobs hd)
  have hcompile {d : Job} (hd : d ∈ s.compileJobs) : d.stage.rank = 2 :=
    congrArg Stage.rank (stage_of_mem_compileJobs hd)
  have hmerge {d : Job} (hd : d ∈ s.mergeJobs) : d.stage.rank = 3 :=
    congrArg Stage.rank (stage_of_mem_mergeJobs hd).1
  have hlast {d : Job} (hd : d ∈ s.interfaceJobs ++ s.linkJobs) : 3 < d.stage.rank := by
    rcases List.mem_append.1 hd with hd | hd
    · exact congrArg Stage.rank (stage_of_mem_interfaceJobs hd).1 ▸ by decide
    · exact congrArg Stage.rank (stage_of_mem_linkJobs hd).1 ▸ by decide
  -- Where the list is cut between two stages, smaller ranks stand before the cut and greater
  -- ones behind it. The four parts are the four cuts.
  have hcut (before behind : List Job) (k : Nat) (he : s.jobs = before ++ behind)
      (hbefore : ∀ d ∈ before, d.stage.rank ≤ k) (hbehind : ∀ d ∈ behind, k < d.stage.rank) :
      draft.stage.rank ≤ k ↔ i < before.length :=
    rank_le_iff_lt hbefore hbehind (he ▸ h)
  refine ⟨?_, ?_, ?_, ?_⟩
  · refine hcut s.headerJobs (s.moduleJobs ++ (s.compileJobs ++ (s.mergeJobs
      ++ (s.interfaceJobs ++ s.linkJobs)))) 0 ?_ ?_ ?_
    · simp only [jobs, List.append_assoc]
    · grind
    · grind
  · rw [← List.length_append]
    refine hcut (s.headerJobs ++ s.moduleJobs) (s.compileJobs ++ (s.mergeJobs
      ++ (s.interfaceJobs ++ s.linkJobs))) 1 ?_ ?_ ?_
    · simp only [jobs, List.append_assoc]
    · grind
    · grind
  · rw [← List.length_append, ← List.length_append]
    refine hcut (s.headerJobs ++ s.moduleJobs ++ s.compileJobs) (s.mergeJobs
      ++ (s.interfaceJobs ++ s.linkJobs)) 2 ?_ ?_ ?_
    · simp only [jobs, List.append_assoc]
    · grind
    · grind
  · rw [← List.length_append, ← List.length_append, ← List.length_append]
    refine hcut (s.headerJobs ++ s.moduleJobs ++ s.compileJobs ++ s.mergeJobs)
      (s.interfaceJobs ++ s.linkJobs) 3 ?_ ?_ ?_
    · simp only [jobs, List.append_assoc]
    · grind
    · grind

/-- Stages are told apart by their ranks. -/
theorem stage_eq_iff_rank {stage other : Stage} : stage = other ↔ stage.rank = other.rank := by
  cases stage <;> cases other <;> decide

section Waiting

variable {i : Nat} {before : Job} (h : s.jobs[i]? = some before)
include h

/-- Compile jobs have the numbers of compile jobs. -/
theorem mem_compileIds_iff : i ∈ s.compileIds ↔ before.stage = .compiling := by
  obtain ⟨-, h₁, h₂, -⟩ := rank_iff_of_getElem? h
  rw [compileIds, List.mem_range'_1, stage_eq_iff_rank]
  show _ ↔ before.stage.rank = 2
  omega

/-- The numbers of the jobs for the header are those of the first stage. -/
theorem mem_headerIds_iff : i ∈ s.headerIds ↔ before.stage = .header := by
  obtain ⟨h₀, -⟩ := rank_iff_of_getElem? h
  rw [headerIds, List.mem_range, stage_eq_iff_rank]
  show _ ↔ before.stage.rank = 0
  omega

/-- The jobs of built modules build modules. -/
theorem Proper.stage_of_mem_builtModules (hs : s.Proper) {names : List String}
    (hi : i ∈ (s.builtModules names).map (·.1)) : before.stage = .modules := by
  obtain ⟨h₀, h₁, -⟩ := rank_iff_of_getElem? h
  -- The number of a built module is its place in the order of modules, behind the header.
  obtain ⟨b, hb, rfl⟩ := List.mem_map.1 hi
  obtain ⟨name, -, hname⟩ := List.mem_filterMap.1 hb
  obtain ⟨id, hid, rfl⟩ := Option.map_eq_some_iff.1 hname
  obtain ⟨k, hk, rfl⟩ := Option.map_eq_some_iff.1 hid
  have hlt : k < s.moduleOrder.length := (List.idxOf?_eq_some_iff.1 hk).1
  rw [← hs.length_moduleJobs] at hlt
  rw [stage_eq_iff_rank]
  show before.stage.rank = 1
  have hle := h₁.2 (Nat.add_lt_add_left hlt _)
  have hpos := mt h₀.1 (Nat.not_lt.2 (Nat.le_add_right _ _))
  omega

/-- The module is there when all is compiled together, or when it is merged. -/
theorem mem_moduleIds_iff (hwants : s.request.wantsInterface = true) :
    i ∈ s.moduleIds ↔ Stage.feeds s.request.mode before.stage .interface = true := by
  unfold moduleIds
  cases hmode : s.request.mode with
  | wholeModule =>
    refine (mem_compileIds_iff h).trans ?_
    cases before.stage <;> decide
  | perFile =>
    obtain ⟨draft, hdraft, -⟩ := exists_mergeJobs hmode (needsModule_of_wantsInterface hwants)
    have hlength : s.mergeJobs.length = 1 := congrArg List.length hdraft
    obtain ⟨-, -, h₂, h₃⟩ := rank_iff_of_getElem? h
    have hmerge : before.stage = .merging ↔ before.stage.rank = 3 := stage_eq_iff_rank
    rw [List.mem_singleton]
    trans before.stage = .merging
    · rw [hmerge]
      omega
    · cases before.stage <;> decide

end Waiting

/-- **A planned job waits for what its stage works on**, the building of modules aside. -/
theorem Proper.mem_prerequisites_iff (hs : s.Proper) {after before : Job} (hafter : after ∈ s.jobs)
    {i : Nat} (h : s.jobs[i]? = some before) (hm : before.stage ≠ .modules) :
    i ∈ after.prerequisites.toList ↔
      Stage.feeds s.request.mode before.stage after.stage = true := by
  -- No job but the building of a module has a number that is among those of the modules.
  have hbuilt {names : List String} : i ∉ (s.builtModules names).map (·.1) := fun hi =>
    hm (hs.stage_of_mem_builtModules h hi)
  have hmem {l : List JobId} (he : after.prerequisites = OrderedSet.ofList l) :
      i ∈ after.prerequisites.toList ↔ i ∈ l := by
    rw [he]
    exact OrderedSet.mem_toList_ofList
  rw [jobs_eq] at hafter
  rcases List.mem_append.1 hafter with hd | hd
  · rcases List.mem_append.1 hd with hd | hd
    · rw [stage_of_mem_headerJobs hd]
      obtain ⟨header, -, rfl⟩ := List.mem_map.1 hd
      refine iff_of_false (fun hi => ?_) (by cases before.stage <;> simp [Stage.feeds])
      exact List.not_mem_nil ((hmem rfl).1 hi)
    · rw [stage_of_mem_moduleJobs hd]
      obtain ⟨name, -, m, -, rfl⟩ := mem_moduleJobs_iff.1 hd
      refine iff_of_false (fun hi => ?_) (by cases before.stage <;> simp [Stage.feeds])
      exact hbuilt ((hmem rfl).1 hi)
  rcases List.mem_append.1 hd with hd | hd
  · obtain ⟨sources, he⟩ : ∃ sources,
        after.prerequisites = OrderedSet.ofList (s.compilePrerequisites sources) := by
      rcases mem_compileJobs_iff.1 hd with ⟨-, p, -, rfl⟩ | ⟨-, rfl⟩
      · exact ⟨[p], rfl⟩
      · exact ⟨s.request.sourcePaths, rfl⟩
    have hneeded : i ∉ (s.neededModules sources).map (·.1) := by
      unfold neededModules
      split
      · exact hbuilt
      · exact List.not_mem_nil
    rw [hmem he, compilePrerequisites, List.mem_append, or_iff_left hneeded, mem_headerIds_iff h,
      stage_of_mem_compileJobs hd]
    cases before.stage <;> simp [Stage.feeds]
  rcases List.mem_append.1 hd with hd | hd
  · obtain ⟨hstage, he⟩ := stage_of_mem_mergeJobs hd
    rw [hmem he, mem_compileIds_iff h, hstage]
    cases before.stage <;> simp [Stage.feeds]
  rcases List.mem_append.1 hd with hd | hd
  · obtain ⟨hstage, he⟩ := stage_of_mem_interfaceJobs hd
    rw [hmem he, mem_moduleIds_iff h (wantsInterface_of_mem_interfaceJobs hd), hstage]
  · obtain ⟨hstage, he⟩ := stage_of_mem_linkJobs hd
    rw [hmem he, mem_compileIds_iff h, hstage]
    cases before.stage <;> simp [Stage.feeds]

end PlanSetting

/-- **The graph of a request is layered.** -/
theorem JobGraph.Holds.layered {g : JobGraph} {s : PlanSetting} (h : g.Holds s) :
    g.Layered s.request.mode := by
  constructor
  case merged =>
    intro hmode job hjob hstage
    obtain ⟨draft, hget, he⟩ := h.exists_draft hjob
    have hd := PlanSetting.mem_interfaceJobs_of_stage (List.mem_of_getElem? hget)
      ((congrArg Job.stage he).symm.trans hstage)
    obtain ⟨merge, hmerge, -⟩ := PlanSetting.exists_mergeJobs hmode
      (PlanSetting.needsModule_of_wantsInterface
        (PlanSetting.wantsInterface_of_mem_interfaceJobs hd))
    have hmem : merge ∈ s.mergeJobs := by
      rw [hmerge]
      exact List.mem_cons_self
    obtain ⟨id, hid⟩ :=
      h.exists_job (PlanSetting.mem_jobs_of_mem_followers (List.mem_append_left _ hmem))
    exact ⟨_, hid, (PlanSetting.stage_of_mem_mergeJobs hmem).1⟩
  case waits_iff =>
    intro before hbefore hm after hafter
    obtain ⟨draft, hget, he⟩ := h.exists_draft hbefore
    obtain ⟨draft', hget', he'⟩ := h.exists_draft hafter
    have hstage : before.stage = draft.stage := (congrArg Job.stage he).trans rfl
    have hstage' : after.stage = draft'.stage := (congrArg Job.stage he').trans rfl
    have hprerequisites : after.prerequisites = draft'.prerequisites :=
      (congrArg Job.prerequisites he').trans rfl
    rw [hprerequisites, hstage, hstage']
    exact h.proper.mem_prerequisites_iff (List.mem_of_getElem? hget') hget
      (hstage ▸ Job.isModuleBuild_eq_false_iff.1 hm)

/-! ## Where every input is dirty -/

/-- What compiles reads an input. -/
theorem PlanSetting.Proper.exists_source {s : PlanSetting} (hs : s.Proper) {draft : Job}
    (h : draft ∈ s.compileJobs) :
    ∃ i ∈ s.request.inputs, (⟨i.path, .source⟩ : Artifact) ∈ draft.inputs := by
  rcases mem_compileJobs_iff.1 h with ⟨-, p, hp, rfl⟩ | ⟨-, rfl⟩
  · obtain ⟨i, hi, rfl⟩ := List.mem_map.1 hp
    exact ⟨i, hi, List.mem_cons_self⟩
  · obtain ⟨i, hi⟩ := List.exists_mem_of_ne_nil _ hs.inputs
    exact ⟨i, hi, List.mem_append_left _ (List.mem_map.2 ⟨i.path, List.mem_map_of_mem hi, rfl⟩)⟩

namespace JobGraph.Holds

variable {φ : Type} [FileSystem φ] {g : JobGraph} {s : PlanSetting} (h : g.Holds s) (c : Changes)
  (fs : φ)
include h

/-- What reads a dirty file is scheduled. -/
theorem isScheduled_of_reads {job : Job} (hjob : job ∈ g.jobs) {a : Artifact}
    (ha : a ∈ job.inputs) (hdirty : c.dirty.contains a.path = true) :
    ((g.prune c fs).disposition job.id).isScheduled = true :=
  (JobGraph.isScheduled_prune_iff h.wellFormed c fs hjob).2
    (.inl ((c.isSome_reason?_iff fs).2 (.inr (.inl ⟨a, ha, hdirty⟩))))

/-- What works on what a scheduled job makes is scheduled. -/
theorem isScheduled_of_feeds {before after : Job} (hbefore : before ∈ g.jobs)
    (hafter : after ∈ g.jobs) (hm : before.isModuleBuild = false)
    (hfeeds : Stage.feeds s.request.mode before.stage after.stage = true)
    (hs : ((g.prune c fs).disposition before.id).isScheduled = true) :
    ((g.prune c fs).disposition after.id).isScheduled = true :=
  (JobGraph.isScheduled_prune_iff h.wellFormed c fs hafter).2
    (.inr ⟨before, hbefore, (h.layered.waits_iff before hbefore hm after hafter).2 hfeeds, hm, hs⟩)

variable (hd : ∀ i ∈ s.request.trackedInputs, c.dirty.contains i.path = true)
include hd

/-- A compile job is scheduled, since the inputs that it reads are dirty. -/
theorem isScheduled_of_isCompile {job : Job} (hjob : job ∈ g.jobs) (hc : job.isCompile = true) :
    ((g.prune c fs).disposition job.id).isScheduled = true := by
  obtain ⟨draft, hdraft, he⟩ := h.exists_compileJob hjob hc
  obtain ⟨i, hi, ha⟩ := h.proper.exists_source hdraft
  refine h.isScheduled_of_reads c fs hjob (a := ⟨i.path, .source⟩) ?_
    (hd i (List.mem_append_left _ hi))
  rw [he]
  exact ha

/-- What works on what compiling makes is scheduled, since something compiles. -/
theorem isScheduled_of_compiled {job : Job} (hjob : job ∈ g.jobs)
    (hfeeds : Stage.feeds s.request.mode .compiling job.stage = true) :
    ((g.prune c fs).disposition job.id).isScheduled = true := by
  obtain ⟨i, hi⟩ := List.exists_mem_of_ne_nil _ h.proper.inputs
  obtain ⟨before, hbefore, hc, -⟩ := h.exists_compiles hi
  refine h.isScheduled_of_feeds c fs hbefore hjob (Job.isModuleBuild_of_isCompile hc) ?_
    (h.isScheduled_of_isCompile c fs hd hbefore hc)
  rw [Job.isCompile_iff.1 hc]
  exact hfeeds

/-- **Where every tracked input is dirty, every job is scheduled.** -/
theorem isScheduled_of_dirty {job : Job} (hjob : job ∈ g.jobs) :
    ((g.prune c fs).disposition job.id).isScheduled = true := by
  cases hstage : job.stage with
  | header =>
    obtain ⟨p, hk⟩ : ∃ p, job.kind = .precompileHeader p := by
      unfold Job.stage JobKind.stage at hstage
      split at hstage <;> simp_all
    obtain ⟨⟨header, hheader, rfl⟩, a, ha, hap⟩ := h.header_of_kind_eq hjob hk
    refine h.isScheduled_of_reads c fs hjob ha ?_
    rw [hap]
    exact hd header (List.mem_append_right _ (Option.mem_toList.2 hheader))
  | modules =>
    refine (JobGraph.isScheduled_prune_iff h.wellFormed c fs hjob).2
      (.inl ((c.isSome_reason?_iff fs).2 (.inl ?_)))
    rw [← Bool.not_eq_false, Job.isModuleBuild_eq_false_iff]
    exact not_not_intro hstage
  | compiling => exact h.isScheduled_of_isCompile c fs hd hjob (Job.isCompile_iff.2 hstage)
  | merging => exact h.isScheduled_of_compiled c fs hd hjob (hstage ▸ rfl)
  | linking => exact h.isScheduled_of_compiled c fs hd hjob (hstage ▸ rfl)
  | interface =>
    cases hmode : s.request.mode with
    | wholeModule => exact h.isScheduled_of_compiled c fs hd hjob (by rw [hstage, hmode]; rfl)
    | perFile =>
      -- The interface waits for the job that merges, and that one for what compiles.
      obtain ⟨merge, hmerge, hmerges⟩ := h.layered.merged hmode job hjob hstage
      refine h.isScheduled_of_feeds c fs hmerge hjob
        (Job.isModuleBuild_of_follows (hmerges ▸ rfl)) (by rw [hmerges, hstage, hmode]; rfl) ?_
      exact h.isScheduled_of_compiled c fs hd hmerge (hmerges ▸ rfl)

end JobGraph.Holds

/-! ## Batches -/

namespace BuildPlan

variable {p p' : BuildPlan} {place : JobId → JobId}

/-- **A job is in the stage of the jobs that it gathers.** -/
theorem Gathered.stage_eq {job' first m : Job} {rest : List Job}
    (h : p.Gathered p' place job' first rest) (hm : m ∈ first :: rest) :
    job'.stage = m.stage := by
  rcases h.body with ⟨rfl, he⟩ | ⟨-, hc, he⟩
  · rw [List.mem_singleton.1 hm]
    exact (congrArg Job.stage he).trans rfl
  · obtain ⟨u, hu⟩ := (isCandidate_iff.1 (hc m hm).1).2
    have hmember : m.stage = .compiling := congrArg JobKind.stage hu
    rw [hmember]
    exact congrArg Job.stage he

/-- **What a job waits for gathers something that a job waits for which it gathers.** -/
theorem Gathered.mem_prerequisites_iff (hp : p.graph.WellFormed) {after' first : Job}
    {rest : List Job} (hafter : p.Gathered p' place after' first rest) (id : JobId) :
    id ∈ after'.prerequisites.toList ↔
      ∃ before ∈ p.graph.jobs, before.id ∈ first.prerequisites.toList ∧ place before.id = id := by
  rw [hafter.mem_prerequisites]
  have hfirst := ((hafter.mem_iff first).1 List.mem_cons_self).1
  constructor
  · rintro ⟨a, ha, hplace⟩
    obtain ⟨rank, hrank⟩ := hp.ranked
    obtain ⟨before, hbefore⟩ := JobGraph.exists_job?_of_lt (hrank first hfirst a ha).1
    obtain ⟨hmem, rfl⟩ := hp.job?_eq_some_iff.1 hbefore
    exact ⟨before, hmem, ha, hplace⟩
  · rintro ⟨before, -, hid, hplace⟩
    exact ⟨before.id, hid, hplace⟩

/-- **Batches keep plans layered.** -/
theorem Gathers.layered (h : p.Gathers p' place) (hp : p.graph.WellFormed)
    {mode : CompilationMode} (hl : p.graph.Layered mode) : p'.graph.Layered mode := by
  constructor
  case merged =>
    intro hmode job' hjob' hstage
    obtain ⟨first, rest, hjob⟩ := h.gathered job' hjob'
    obtain ⟨q, hq, hmerge⟩ := hl.merged hmode first
      ((hjob.mem_iff first).1 List.mem_cons_self).1
      ((hjob.stage_eq List.mem_cons_self).symm.trans hstage)
    obtain ⟨q', hq', -, first', rest', hgathered, hmem⟩ := h.exists_gathered hq
    exact ⟨q', hq', (hgathered.stage_eq hmem).trans hmerge⟩
  case waits_iff =>
    intro before' hbefore' hm after' hafter'
    obtain ⟨first, rest, hbefore⟩ := h.gathered before' hbefore'
    obtain ⟨first', rest', hafter⟩ := h.gathered after' hafter'
    have hfirst' := ((hafter.mem_iff first').1 List.mem_cons_self).1
    have hmodule {q : Job} (hq : q ∈ first :: rest) : q.isModuleBuild = false := by
      rw [Job.isModuleBuild_eq_false_iff, ← hbefore.stage_eq hq]
      exact Job.isModuleBuild_eq_false_iff.1 hm
    rw [hafter.mem_prerequisites_iff hp, hafter.stage_eq List.mem_cons_self]
    constructor
    · rintro ⟨q, hq, hid, hplace⟩
      have hmem := (hbefore.mem_iff q).2 ⟨hq, hplace⟩
      rw [hbefore.stage_eq hmem]
      exact (hl.waits_iff q hq (hmodule hmem) first' hfirst').1 hid
    · intro hf
      obtain ⟨hq, hplace⟩ := (hbefore.mem_iff first).1 List.mem_cons_self
      rw [hbefore.stage_eq List.mem_cons_self] at hf
      exact ⟨first, hq,
        (hl.waits_iff first hq (hmodule List.mem_cons_self) first' hfirst').2 hf, hplace⟩

/-- **Batches keep plans closed.** -/
theorem Gathers.closed (h : p.Gathers p' place) (hp : p.graph.WellFormed) (hc : p.Closed) :
    p'.Closed := by
  intro before' hbefore' after' hafter' hid hm hs
  obtain ⟨first, rest, hbefore⟩ := h.gathered before' hbefore'
  obtain ⟨first', rest', hafter⟩ := h.gathered after' hafter'
  obtain ⟨q, hq, hqid, hplace⟩ := (hafter.mem_prerequisites_iff hp _).1 hid
  have hmem := (hbefore.mem_iff q).2 ⟨hq, hplace⟩
  have hmodule : q.isModuleBuild = false := by
    rw [Job.isModuleBuild_eq_false_iff, ← hbefore.stage_eq hmem]
    exact Job.isModuleBuild_eq_false_iff.1 hm
  rw [hafter.isScheduled_eq List.mem_cons_self]
  refine hc q hq first' ((hafter.mem_iff first').1 List.mem_cons_self).1 hqid hmodule ?_
  rw [← hbefore.isScheduled_eq hmem]
  exact hs

end BuildPlan

/-! ## Stages and keys -/

/-- How the keys of a stage begin. -/
def Stage.label : Stage → String
  | header => "generate-pch:"
  | modules => "build-module:"
  | compiling => "compile:"
  | merging => "merge-module:"
  | interface => "generate-interface:"
  | linking => "link:"

/-- **The beginning of a key tells the stage.** -/
theorem Stage.eq_of_label_append {a b : Stage} {x y : String} (h : a.label ++ x = b.label ++ y) :
    a = b := by
  replace h := congrArg String.toList h
  rw [String.toList_append, String.toList_append] at h
  cases a <;> cases b <;> first | rfl | exact absurd h (by simp [label])

/-- Whether what a job was planned as tells its stage. -/
def Job.Labelled (job : Job) : Prop :=
  ∀ key ∈ job.originKeys, ∃ rest, key.text = job.stage.label ++ rest

/-- **Jobs that were planned as the same are in the same stage**, whatever the plans. -/
theorem Job.Labelled.stage_eq {job other : Job} (h : job.Labelled) (h' : other.Labelled)
    {key : JobKey} (hkey : key ∈ job.originKeys) (hkey' : key ∈ other.originKeys) :
    job.stage = other.stage := by
  obtain ⟨rest, hrest⟩ := h key hkey
  obtain ⟨rest', hrest'⟩ := h' key hkey'
  exact Stage.eq_of_label_append (hrest.symm.trans hrest')

/-- A key begins with the label of the stage, so jobs of different stages have different keys. -/
theorem PlanSetting.exists_key_eq {s : PlanSetting} {draft : Job} (h : draft ∈ s.jobs) :
    ∃ rest, draft.key.text = draft.stage.label ++ rest := by
  rw [jobs_eq] at h
  rcases List.mem_append.1 h with hd | hd
  · rcases List.mem_append.1 hd with hd | hd
    · obtain ⟨header, -, rfl⟩ := List.mem_map.1 hd
      exact ⟨header.path.text, rfl⟩
    · obtain ⟨name, -, m, -, rfl⟩ := mem_moduleJobs_iff.1 hd
      exact ⟨name, rfl⟩
  rcases List.mem_append.1 hd with hd | hd
  · rcases mem_compileJobs_iff.1 hd with ⟨-, p, -, rfl⟩ | ⟨-, rfl⟩
    · exact ⟨p.text, rfl⟩
    · exact ⟨s.request.moduleName, rfl⟩
  simp only [List.mem_append] at hd
  rcases hd with hd | hd | hd
  · unfold mergeJobs at hd
    split at hd
    · obtain rfl := List.mem_singleton.1 hd
      exact ⟨s.request.moduleName, rfl⟩
    · exact absurd hd List.not_mem_nil
  · unfold interfaceJobs at hd
    split at hd
    · obtain rfl := List.mem_singleton.1 hd
      exact ⟨s.request.moduleName, rfl⟩
    · exact absurd hd List.not_mem_nil
  · unfold linkJobs at hd
    split at hd
    · exact absurd hd List.not_mem_nil
    · obtain ⟨output, -, rfl⟩ := List.mem_map.1 hd
      exact ⟨(s.layout.linked output).path.text, rfl⟩

/-- The keys of a request's jobs tell their stages. -/
theorem JobGraph.Holds.labelled {g : JobGraph} {s : PlanSetting} (h : g.Holds s) {job : Job}
    (hjob : job ∈ g.jobs) : job.Labelled := by
  intro key hkey
  rw [h.originKeys_eq job hjob, List.mem_singleton] at hkey
  obtain ⟨draft, hget, he⟩ := h.exists_draft hjob
  have hdraft := PlanSetting.exists_key_eq (List.mem_of_getElem? hget)
  rw [hkey, he]
  exact hdraft

/-- What a batch was planned as tells its stage too. -/
theorem BuildPlan.Gathers.labelled {p p' : BuildPlan} {place : JobId → JobId}
    (h : p.Gathers p' place) (hp : ∀ m ∈ p.graph.jobs, m.Labelled) {job' : Job}
    (hjob' : job' ∈ p'.graph.jobs) : job'.Labelled := by
  obtain ⟨first, rest, hgathered⟩ := h.gathered job' hjob'
  intro key hkey
  obtain ⟨m, hm, hmkey⟩ := (hgathered.mem_originKeys_iff key).1 hkey
  rw [hgathered.stage_eq hm]
  exact hp m ((hgathered.mem_iff m).1 hm).1 key hmkey

end IncrementalBuild
