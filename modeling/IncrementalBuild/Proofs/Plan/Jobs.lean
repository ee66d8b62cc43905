import IncrementalBuild.Plan.Jobs
import IncrementalBuild.Proofs.ModuleGraph
import IncrementalBuild.Proofs.Plan

/-!
# What the jobs of a request are

The graph that a request calls for holds the jobs of its setting at their places. Every
input is compiled by one of them, and the numbers that a compile job waits for are those
of the header and of the imported modules, which come before all compile jobs.
-/

namespace IncrementalBuild

/-! ## Requests that are accepted -/

/-- Paths of which none repeats an earlier one differ. -/
theorem firstRepeated?_eq_none_iff {paths : List Path} :
    firstRepeated? paths = none ↔ paths.Pairwise fun p q => compare p q ≠ .eq := by
  have key (before rest : List Path) : firstRepeated?.go before rest = none ↔
      (∀ p ∈ before, ∀ q ∈ rest, compare p q ≠ .eq) ∧
        rest.Pairwise fun p q => compare p q ≠ .eq := by
    induction rest generalizing before with
    | nil => simp [firstRepeated?.go]
    | cons q rest ih =>
      unfold firstRepeated?.go
      by_cases hq : before.contains q = true
      · rw [if_pos hq]
        obtain ⟨p, hp, hqp⟩ := List.contains_iff_exists_mem_beq.1 hq
        refine iff_of_false (Option.some_ne_none q) fun h => ?_
        exact h.1 p hp q List.mem_cons_self (Std.OrientedCmp.eq_symm (Path.beq_iff_compare.1 hqp))
      · rw [if_neg hq, ih, List.pairwise_cons]
        have hbefore : ∀ p ∈ before, compare p q ≠ .eq := fun p hp he =>
          hq (List.contains_iff_exists_mem_beq.2
            ⟨p, hp, Path.beq_iff_compare.2 (Std.OrientedCmp.eq_symm he)⟩)
        simp only [List.forall_mem_cons]
        constructor
        · rintro ⟨⟨h₁, h₂⟩, h₃⟩
          exact ⟨fun p hp => ⟨hbefore p hp, h₂ p hp⟩, h₁, h₃⟩
        · rintro ⟨h₁, h₂, h₃⟩
          exact ⟨⟨h₂, fun p hp => (h₁ p hp).2⟩, h₃⟩
  exact (key [] paths).trans (and_iff_right fun p hp => absurd hp List.not_mem_nil)

namespace BuildRequest

/-- What an accepted request has. -/
structure Accepted (r : BuildRequest) (modules : Option ModuleGraph) : Prop where
  inputs : r.inputs ≠ []
  /-- No input is listed twice. -/
  distinct : r.sourcePaths.Pairwise fun p q => compare p q ≠ .eq
  linker : r.linkOutputs ≠ [] → r.tools.linker.isSome = true
  modules : r.explicitModules = true → modules.isSome = true

theorem accepted_of_check {r : BuildRequest} {modules : Option ModuleGraph}
    (h : r.check modules = .ok ()) : r.Accepted modules := by
  have hmodules {u : Unit} (h : (if (r.explicitModules && modules.isNone) = true then
      Except.error (PlanningError.malformedRequest .noModuleGraph) else .ok ()) = .ok u) :
      r.explicitModules = true → modules.isSome = true := by
    intro he
    rw [he, Bool.true_and] at h
    cases modules with
    | none => cases h
    | some m => rfl
  -- The checks in their order. Those that do not concern what is stated are passed over.
  unfold check at h
  simp only [bind, Except.bind, pure, Except.pure, throw, throwThe, MonadExceptOf.throw] at h
  split at h
  · cases h
  split at h
  · cases h
  rename_i hinputs
  split at h
  · cases h
  split at h
  · cases h
  split at h
  · cases h
  rename_i hrepeated
  split at h
  · cases h
  have hinputs : r.inputs ≠ [] := fun he => hinputs (by rw [he]; rfl)
  have hdistinct := firstRepeated?_eq_none_iff.1
    (Option.eq_none_iff_forall_ne_some.2 fun p hp => hrepeated p hp)
  -- Programs and libraries are looked at last, since they need a linker.
  split at h
  · rename_i output houtput
    split at h
    · cases h
    · rename_i hlinker
      refine ⟨hinputs, hdistinct, fun _ => ?_, hmodules h⟩
      cases hl : r.tools.linker with
      | none => exact absurd (by rw [hl]; rfl) hlinker
      | some linker => rfl
  · rename_i houtput
    refine ⟨hinputs, hdistinct, fun hne => ?_, hmodules h⟩
    obtain ⟨output, rest, he⟩ := List.exists_cons_of_ne_nil hne
    exact absurd (by rw [he]; rfl) (houtput output)

/-- What the jobs of a request are made from, given the modules and their order. -/
def setting (r : BuildRequest) (modules : Option ModuleGraph) (order : List String) :
    PlanSetting where
  request := r
  layout := .ofInputs r.outputDir r.moduleName r.sourcePaths
  modules := modules.getD .empty
  moduleOrder := order

end BuildRequest

/-! ## The graph of a request -/

namespace JobGraph

/-- Jobs added one after the other stand at the places of their numbers. -/
theorem of_foldlM_add {drafts : List Job} {g g' : JobGraph} (hg : g.WellFormed)
    (hlow : ∀ job ∈ g.jobs, ∀ p ∈ job.prerequisites.toList, p < job.id)
    (h : drafts.foldlM (fun g job => (g.add job).map (·.1)) g = .ok g') :
    g'.WellFormed ∧ g'.jobs = g.jobs ++ drafts.mapIdx fun i draft =>
      { draft with id := g.size + i } := by
  induction drafts generalizing g with
  | nil =>
    obtain rfl : g = g' := by simpa [pure, Except.pure] using h
    exact ⟨hg, by simp⟩
  | cons draft rest ih =>
    rw [List.foldlM_cons] at h
    cases hadd : g.add draft with
    | error e =>
      rw [hadd] at h
      cases h
    | ok added =>
      rw [hadd] at h
      obtain ⟨g₁, id⟩ := added
      obtain ⟨hg₁, hlow₁⟩ := hg.add hlow hadd
      obtain ⟨hwell, hjobs⟩ := ih hg₁ hlow₁ h
      refine ⟨hwell, hjobs.trans ?_⟩
      have hadded : g₁ = ⟨g.jobs ++ [{ draft with id := g.size }]⟩ :=
        congrArg Prod.fst (add_eq_ok_iff.1 hadd).1
      have hsize : g₁.size = g.size + 1 := by
        rw [hadded]
        simp [size]
      rw [hadded] at hsize ⊢
      rw [List.mapIdx_cons, List.append_assoc, hsize]
      simp only [Nat.add_zero, Nat.add_assoc, Nat.add_comm 1]
      rfl

end JobGraph

/-- **Planning a request**: it is accepted, the modules have an order, and the jobs of its
setting stand at the places of their numbers. -/
theorem BuildRequest.of_plan {r : BuildRequest} {modules : Option ModuleGraph} {g : JobGraph}
    (h : r.plan modules = .ok g) :
    r.Accepted modules ∧ g.WellFormed ∧ ∃ order,
      (if r.explicitModules then (modules.getD .empty).buildOrder = .ok order else order = []) ∧
        g.jobs = (r.setting modules order).jobs.mapIdx fun i draft => { draft with id := i } := by
  unfold BuildRequest.plan at h
  cases hcheck : r.check modules with
  | error e =>
    rw [hcheck] at h
    cases h
  | ok u =>
    rw [hcheck] at h
    have hall (order : List String)
        (h : (r.setting modules order).jobs.foldlM
          (fun (g : JobGraph) job => (g.add job).map (·.1)) ⟨[]⟩ = .ok g) :
        g.WellFormed ∧ g.jobs = (r.setting modules order).jobs.mapIdx
          fun i draft => { draft with id := i } := by
      obtain ⟨hwell, hjobs⟩ := JobGraph.of_foldlM_add JobGraph.wellFormed_empty
        (fun job h => absurd h List.not_mem_nil) h
      refine ⟨hwell, hjobs.trans ?_⟩
      simp [JobGraph.size]
    refine ⟨accepted_of_check hcheck, ?_⟩
    by_cases he : r.explicitModules = true
    · simp only [he, if_true] at h ⊢
      cases horder : (modules.getD .empty).buildOrder with
      | error e =>
        rw [horder] at h
        cases h
      | ok order =>
        rw [horder] at h
        obtain ⟨hwell, hjobs⟩ := hall order h
        exact ⟨hwell, order, rfl, hjobs⟩
    · simp only [he] at h ⊢
      obtain ⟨hwell, hjobs⟩ := hall [] h
      exact ⟨hwell, [], rfl, hjobs⟩

/-! ## The jobs of a setting -/

namespace PlanSetting

variable {s : PlanSetting}

/-- What a setting can count on: only known modules are built, and no input is listed
twice. -/
structure Proper (s : PlanSetting) : Prop where
  inputs : s.request.inputs ≠ []
  distinct : s.request.sourcePaths.Pairwise fun p q => compare p q ≠ .eq
  known : ∀ name ∈ s.moduleOrder, s.modules.modules.contains name = true

/-- The jobs that are done before anything is compiled. -/
def preparations (s : PlanSetting) : List Job := s.headerJobs ++ s.moduleJobs

theorem jobs_eq (s : PlanSetting) :
    s.jobs = s.preparations ++ (s.compileJobs ++ (s.mergeJobs ++ (s.interfaceJobs
      ++ s.linkJobs))) := by
  unfold jobs preparations
  simp only [List.append_assoc]

theorem Proper.length_moduleJobs (hs : s.Proper) :
    s.moduleJobs.length = s.moduleOrder.length := by
  have key (l : List String) (h : ∀ name ∈ l, s.modules.modules.contains name = true) :
      (l.filterMap fun name => (s.modules.modules.get? name).map (s.moduleJob name)).length
        = l.length := by
    induction l with
    | nil => rfl
    | cons name rest ih =>
      have hname := h name List.mem_cons_self
      rw [← OrderedMap.isSome_get?] at hname
      obtain ⟨m, hm⟩ := Option.isSome_iff_exists.1 hname
      rw [List.filterMap_cons_some (by rw [hm]; rfl), List.length_cons, List.length_cons,
        ih fun n hn => h n (List.mem_cons_of_mem _ hn)]
  exact key s.moduleOrder hs.known

/-- What builds modules are the jobs of the known modules among those that are needed. -/
theorem mem_moduleJobs_iff {draft : Job} : draft ∈ s.moduleJobs ↔
    ∃ name ∈ s.moduleOrder, ∃ m, s.modules.modules.get? name = some m ∧
      s.moduleJob name m = draft := by
  unfold moduleJobs
  simp only [List.mem_filterMap, Option.map_eq_some_iff]

theorem prepares_of_mem_preparations {draft : Job} (h : draft ∈ s.preparations) :
    draft.Prepares := by
  rcases List.mem_append.1 h with h | h
  · obtain ⟨header, -, rfl⟩ := List.mem_map.1 h
    trivial
  · obtain ⟨name, -, m, -, rfl⟩ := mem_moduleJobs_iff.1 h
    trivial

/-- The numbers of built modules are those of preparations. -/
theorem Proper.lt_of_mem_builtModules (hs : s.Proper) {names : List String}
    {b : JobId × Artifact} (h : b ∈ s.builtModules names) : b.1 < s.preparations.length := by
  obtain ⟨name, -, hb⟩ := List.mem_filterMap.1 h
  obtain ⟨id, hid, rfl⟩ := Option.map_eq_some_iff.1 hb
  obtain ⟨i, hi, rfl⟩ := Option.map_eq_some_iff.1 hid
  have hlt : i < s.moduleOrder.length := (List.idxOf?_eq_some_iff.1 hi).1
  rw [preparations, List.length_append, hs.length_moduleJobs]
  exact Nat.add_lt_add_left hlt _

/-- What inputs need is done by preparations. -/
theorem Proper.lt_of_mem_compilePrerequisites (hs : s.Proper) {sources : List Path} {p : JobId}
    (h : p ∈ s.compilePrerequisites sources) : p < s.preparations.length := by
  rcases List.mem_append.1 h with h | h
  · have := List.mem_range.1 h
    rw [preparations, List.length_append]
    exact Nat.lt_add_right _ this
  · obtain ⟨b, hb, rfl⟩ := List.mem_map.1 h
    unfold neededModules at hb
    split at hb
    · exact hs.lt_of_mem_builtModules hb
    · exact absurd hb List.not_mem_nil

/-- **What compiles or is done before waits for preparations alone.** -/
theorem Proper.lt_of_mem_prerequisites (hs : s.Proper) {draft : Job}
    (h : draft ∈ s.preparations ∨ draft ∈ s.compileJobs) {p : JobId}
    (hp : p ∈ draft.prerequisites.toList) : p < s.preparations.length := by
  rcases h with h | h
  · rcases List.mem_append.1 h with h | h
    · obtain ⟨header, -, rfl⟩ := List.mem_map.1 h
      exact absurd (OrderedSet.mem_toList_ofList.1 hp) List.not_mem_nil
    · obtain ⟨name, -, m, -, rfl⟩ := mem_moduleJobs_iff.1 h
      obtain ⟨b, hb, rfl⟩ := List.mem_map.1 (OrderedSet.mem_toList_ofList.1 hp)
      exact hs.lt_of_mem_builtModules hb
  · unfold compileJobs at h
    split at h
    · obtain ⟨q, -, rfl⟩ := List.mem_map.1 h
      exact hs.lt_of_mem_compilePrerequisites (OrderedSet.mem_toList_ofList.1 hp)
    · obtain rfl := List.mem_singleton.1 h
      exact hs.lt_of_mem_compilePrerequisites (OrderedSet.mem_toList_ofList.1 hp)

/-- The jobs behind the compile jobs neither compile nor prepare. -/
theorem not_of_mem_followers {draft : Job}
    (h : draft ∈ s.mergeJobs ++ (s.interfaceJobs ++ s.linkJobs)) :
    draft.isCompile = false ∧ ¬ draft.Prepares ∧ draft.units = [] := by
  rcases List.mem_append.1 h with h | h
  · unfold mergeJobs at h
    split at h
    · obtain rfl := List.mem_singleton.1 h
      exact ⟨rfl, id, rfl⟩
    · exact absurd h List.not_mem_nil
  rcases List.mem_append.1 h with h | h
  · unfold interfaceJobs at h
    split at h
    · obtain rfl := List.mem_singleton.1 h
      exact ⟨rfl, id, rfl⟩
    · exact absurd h List.not_mem_nil
  · unfold linkJobs at h
    split at h
    · exact absurd h List.not_mem_nil
    · obtain ⟨output, -, rfl⟩ := List.mem_map.1 h
      exact ⟨rfl, id, rfl⟩

/-- A job of a setting prepares, compiles, or does neither. -/
theorem mem_jobs_cases {draft : Job} (h : draft ∈ s.jobs) :
    draft ∈ s.preparations ∨ draft ∈ s.compileJobs ∨
      draft ∈ s.mergeJobs ++ (s.interfaceJobs ++ s.linkJobs) := by
  rw [jobs_eq] at h
  exact (List.mem_append.1 h).imp_right List.mem_append.1

theorem mem_jobs_of_mem_preparations {draft : Job} (h : draft ∈ s.preparations) :
    draft ∈ s.jobs := by
  rw [jobs_eq]
  exact List.mem_append_left _ h

theorem mem_jobs_of_mem_compileJobs {draft : Job} (h : draft ∈ s.compileJobs) :
    draft ∈ s.jobs := by
  rw [jobs_eq]
  exact List.mem_append_right _ (List.mem_append_left _ h)

theorem mem_jobs_of_mem_followers {draft : Job}
    (h : draft ∈ s.mergeJobs ++ (s.interfaceJobs ++ s.linkJobs)) : draft ∈ s.jobs := by
  rw [jobs_eq]
  exact List.mem_append_right _ (List.mem_append_right _ h)

theorem mem_compileJobs_of_isCompile {draft : Job} (h : draft ∈ s.jobs)
    (hc : draft.isCompile = true) : draft ∈ s.compileJobs := by
  rcases mem_jobs_cases h with h | h | h
  · rw [Job.not_isCompile_of_prepares (prepares_of_mem_preparations h)] at hc
    cases hc
  · exact h
  · rw [(not_of_mem_followers h).1] at hc
    cases hc

/-! ## What compile jobs compile -/

/-- Nothing that compiling reads besides the inputs is a source file. -/
theorem fileType_of_mem_compileContext {sources : List Path} {a : Artifact}
    (h : a ∈ s.compileContext sources) : (a.fileType == .source) = false := by
  rcases List.mem_append.1 h with h | h
  · obtain ⟨header, -, rfl⟩ := List.mem_map.1 h
    rfl
  · obtain ⟨b, hb, rfl⟩ := List.mem_map.1 h
    unfold neededModules at hb
    split at hb
    · obtain ⟨name, -, hname⟩ := List.mem_filterMap.1 hb
      obtain ⟨id, -, rfl⟩ := Option.map_eq_some_iff.1 hname
      rfl
    · exact absurd hb List.not_mem_nil

/-- The source files among some sources and their context are the sources. -/
theorem sourceFiles_of_context (sources paths : List Path) :
    ((paths.map (fun p => (⟨p, .source⟩ : Artifact)) ++ s.compileContext sources).filter
      fun a => a.fileType == .source).map Artifact.path = paths := by
  have hcontext : (s.compileContext sources).filter (fun a => a.fileType == .source) = [] :=
    List.filter_eq_nil_iff.2 fun a ha => by
      rw [fileType_of_mem_compileContext ha]
      exact Bool.false_ne_true
  have hpaths : (paths.map fun p => (⟨p, .source⟩ : Artifact)).filter
      (fun a => a.fileType == .source) = paths.map fun p => ⟨p, .source⟩ :=
    List.filter_eq_self.2 fun a ha => by
      obtain ⟨p, -, rfl⟩ := List.mem_map.1 ha
      rfl
  rw [List.filter_append, hcontext, hpaths, List.append_nil, List.map_map]
  exact List.map_id paths

theorem compiles_inputJob_iff (s : PlanSetting) (p q : Path) :
    (s.inputJob p).Compiles q ↔ compare p q = .eq := by
  have hsources : (s.inputJob p).sourceInputs = [p] := sourceFiles_of_context [p] [p]
  unfold Job.Compiles
  rw [hsources]
  exact (and_iff_right rfl).trans (by simp)

theorem compiles_wholeModuleJob_iff (s : PlanSetting) (q : Path) :
    s.wholeModuleJob.Compiles q ↔ ∃ p ∈ s.request.sourcePaths, compare p q = .eq := by
  have hsources : s.wholeModuleJob.sourceInputs = s.request.sourcePaths :=
    sourceFiles_of_context s.request.sourcePaths s.request.sourcePaths
  unfold Job.Compiles
  rw [hsources]
  exact and_iff_right rfl

/-- What compiles is the job of an input, or the job of the whole module. -/
theorem mem_compileJobs_iff {draft : Job} :
    draft ∈ s.compileJobs ↔
      (s.request.mode = .perFile ∧ ∃ p ∈ s.request.sourcePaths, draft = s.inputJob p) ∨
        (s.request.mode = .wholeModule ∧ draft = s.wholeModuleJob) := by
  unfold compileJobs
  cases s.request.mode with
  | perFile => simp [eq_comm]
  | wholeModule => simp

end PlanSetting

/-! ## Plans of a request -/

/-- Whether a graph holds the jobs of a setting, each with its number. -/
structure JobGraph.Holds (g : JobGraph) (s : PlanSetting) : Prop where
  wellFormed : g.WellFormed
  jobs_eq : g.jobs = s.jobs.mapIdx fun i draft => { draft with id := i }
  proper : s.Proper

namespace JobGraph.Holds

variable {g : JobGraph} {s : PlanSetting}

/-- The jobs of the graph are those of the setting, with their places as numbers. -/
theorem job?_eq (h : g.Holds s) (id : JobId) :
    g.job? id = (s.jobs[id]?).map fun draft => { draft with id } := by
  unfold JobGraph.job?
  rw [h.jobs_eq, List.getElem?_mapIdx]

theorem exists_draft (h : g.Holds s) {job : Job} (hjob : job ∈ g.jobs) :
    ∃ draft, s.jobs[job.id]? = some draft ∧ job = { draft with id := job.id } := by
  have := h.wellFormed.job?_id hjob
  rw [h.job?_eq] at this
  obtain ⟨draft, hdraft, he⟩ := Option.map_eq_some_iff.1 this
  exact ⟨draft, hdraft, he.symm⟩

theorem exists_job (h : g.Holds s) {draft : Job} (hd : draft ∈ s.jobs) :
    ∃ id, { draft with id } ∈ g.jobs := by
  obtain ⟨id, hid⟩ := List.getElem?_of_mem hd
  have hjob : g.job? id = some { draft with id } := by
    rw [h.job?_eq, hid]
    rfl
  exact ⟨id, JobGraph.mem_of_job? hjob⟩

/-- The first jobs of the graph are the preparations. -/
theorem prepares_of_lt (h : g.Holds s) {id : JobId} (hid : id < s.preparations.length) :
    ∃ job, g.job? id = some job ∧ job.Prepares := by
  have hget : s.jobs[id]? = some s.preparations[id] := by
    rw [PlanSetting.jobs_eq, List.getElem?_append_left hid]
    exact List.getElem?_eq_getElem hid
  refine ⟨{ s.preparations[id] with id }, ?_, ?_⟩
  · rw [h.job?_eq, hget]
    rfl
  · exact (PlanSetting.prepares_of_mem_preparations (List.getElem_mem hid) :
      s.preparations[id].Prepares)

/-- What compiles is a compile job of the setting. -/
theorem exists_compileJob (h : g.Holds s) {job : Job} (hjob : job ∈ g.jobs)
    (hc : job.isCompile = true) : ∃ draft ∈ s.compileJobs, job = { draft with id := job.id } := by
  obtain ⟨draft, hget, he⟩ := h.exists_draft hjob
  refine ⟨draft, PlanSetting.mem_compileJobs_of_isCompile (List.mem_of_getElem? hget) ?_, he⟩
  rw [he] at hc
  exact hc

/-- Where inputs are compiled one by one, what compiles is the job of an input. -/
theorem eq_inputJob (h : g.Holds s) {job : Job} (hjob : job ∈ g.jobs) (hc : job.isCompile = true)
    (hmode : s.request.mode = .perFile) :
    ∃ p ∈ s.request.sourcePaths, job = { s.inputJob p with id := job.id } := by
  obtain ⟨draft, hd, he⟩ := h.exists_compileJob hjob hc
  rcases PlanSetting.mem_compileJobs_iff.1 hd with ⟨-, p, hp, rfl⟩ | ⟨hm, -⟩
  · exact ⟨p, hp, he⟩
  · cases hmode.symm.trans hm

/-- Where the inputs are compiled together, what compiles is the job of the whole module. -/
theorem eq_wholeModuleJob (h : g.Holds s) {job : Job} (hjob : job ∈ g.jobs)
    (hc : job.isCompile = true) (hmode : s.request.mode = .wholeModule) :
    job = { s.wholeModuleJob with id := job.id } := by
  obtain ⟨draft, hd, he⟩ := h.exists_compileJob hjob hc
  rcases PlanSetting.mem_compileJobs_iff.1 hd with ⟨hm, -⟩ | ⟨-, rfl⟩
  · cases hmode.symm.trans hm
  · exact he

/-- What compiles, or prepares, waits only for what prepares. -/
theorem prepared (h : g.Holds s) {job : Job} (hjob : job ∈ g.jobs)
    (hkind : job.isCompile = true ∨ job.Prepares) {p : JobId}
    (hp : p ∈ job.prerequisites.toList) :
    ∃ before, g.job? p = some before ∧ before.Prepares := by
  obtain ⟨draft, hget, he⟩ := h.exists_draft hjob
  have hd := List.mem_of_getElem? hget
  rw [he] at hkind hp
  have hp : p ∈ draft.prerequisites.toList := hp
  refine h.prepares_of_lt (h.proper.lt_of_mem_prerequisites ?_ hp)
  rcases PlanSetting.mem_jobs_cases hd with hd | hd | hd
  · exact .inl hd
  · exact .inr hd
  · rcases hkind with hk | hk
    · cases (PlanSetting.not_of_mem_followers hd).1.symm.trans hk
    · exact absurd hk (PlanSetting.not_of_mem_followers hd).2.1

/-- Every input is compiled, by its own job or by that of the whole module. -/
theorem exists_compiles (h : g.Holds s) {i : InputFile} (hi : i ∈ s.request.inputs) :
    ∃ job ∈ g.jobs, job.Compiles i.path := by
  have hi : i.path ∈ s.request.sourcePaths := List.mem_map.2 ⟨i, hi, rfl⟩
  cases hmode : s.request.mode with
  | perFile =>
    obtain ⟨id, hid⟩ := h.exists_job (PlanSetting.mem_jobs_of_mem_compileJobs
      (PlanSetting.mem_compileJobs_iff.2 (.inl ⟨hmode, i.path, hi, rfl⟩)))
    exact ⟨_, hid, (s.compiles_inputJob_iff _ _).2 Std.ReflOrd.compare_self⟩
  | wholeModule =>
    obtain ⟨id, hid⟩ := h.exists_job (PlanSetting.mem_jobs_of_mem_compileJobs
      (PlanSetting.mem_compileJobs_iff.2 (.inr ⟨hmode, rfl⟩)))
    exact ⟨_, hid, (s.compiles_wholeModuleJob_iff _).2 ⟨_, hi, Std.ReflOrd.compare_self⟩⟩

/-- The job of an input compiles that input, however it is spelled. -/
theorem compiles_iff_of_eq_inputJob {job : Job} {p : Path}
    (he : job = { s.inputJob p with id := job.id }) (q : Path) :
    job.Compiles q ↔ compare p q = .eq := by
  rw [he]
  exact s.compiles_inputJob_iff p q

/-- No input is compiled twice: what compiles one input twice has one key. -/
theorem eq_of_compiles (h : g.Holds s) {job other : Job} (hjob : job ∈ g.jobs)
    (hother : other ∈ g.jobs) {q : Path} (hq : job.Compiles q) (hq' : other.Compiles q) :
    job = other := by
  refine h.wellFormed.eq_of_key_eq hjob hother ?_
  cases hmode : s.request.mode with
  | perFile =>
    obtain ⟨p, hp, he⟩ := h.eq_inputJob hjob hq.1 hmode
    obtain ⟨p', hp', he'⟩ := h.eq_inputJob hother hq'.1 hmode
    have hpq : compare p q = .eq := (compiles_iff_of_eq_inputJob he q).1 hq
    have hpq' : compare p' q = .eq := (compiles_iff_of_eq_inputJob he' q).1 hq'
    have hpp : compare p p' = .eq :=
      (Std.TransCmp.congr_right (Std.OrientedCmp.eq_symm hpq')).symm.trans hpq
    rw [eq_of_pairwise_compare (f := fun p : Path => p) h.proper.distinct hp hp' hpp] at he
    rw [he, he']
  | wholeModule =>
    rw [h.eq_wholeModuleJob hjob hq.1 hmode, h.eq_wholeModuleJob hother hq'.1 hmode]

/-- The job of an input compiles one by one: it has that one unit. -/
theorem oneByOne_of_eq_inputJob {job : Job} {p : Path}
    (he : job = { s.inputJob p with id := job.id }) : job.OneByOne job.units where
  kind_eq := by
    rw [he]
    rfl
  distinct := by
    rw [he]
    exact List.pairwise_singleton _ _
  compiles_iff q := by
    rw [compiles_iff_of_eq_inputJob he q, he]
    exact (by simp [Job.units, PlanSetting.inputJob, PlanSetting.draft])

/-- Nothing is compiled but what is an input. -/
theorem exists_input_of_compiles (h : g.Holds s) {job : Job} (hjob : job ∈ g.jobs) {q : Path}
    (hq : job.Compiles q) : ∃ i ∈ s.request.inputs, compare i.path q = .eq := by
  obtain ⟨p, hp, hpq⟩ : ∃ p ∈ s.request.sourcePaths, compare p q = .eq := by
    cases hmode : s.request.mode with
    | perFile =>
      obtain ⟨p, hp, he⟩ := h.eq_inputJob hjob hq.1 hmode
      exact ⟨p, hp, (compiles_iff_of_eq_inputJob he q).1 hq⟩
    | wholeModule =>
      have hq' := hq
      rw [h.eq_wholeModuleJob hjob hq.1 hmode] at hq'
      exact (s.compiles_wholeModuleJob_iff q).1 hq'
  obtain ⟨i, hi, rfl⟩ := List.mem_map.1 hp
  exact ⟨i, hi, hpq⟩

/-- What precompiles a header precompiles that of the request, and reads it. -/
theorem header_of_kind_eq (h : g.Holds s) {job : Job} (hjob : job ∈ g.jobs) {p : Path}
    (hk : job.kind = .precompileHeader p) :
    (∃ i, s.request.header = some i ∧ i.path = p) ∧ ∃ a ∈ job.inputs, a.path = p := by
  obtain ⟨draft, hget, he⟩ := h.exists_draft hjob
  have hk : draft.kind = .precompileHeader p := by
    rw [he] at hk
    exact hk
  have hd := List.mem_of_getElem? hget
  rcases PlanSetting.mem_jobs_cases hd with hd | hd | hd
  · rcases List.mem_append.1 hd with hd | hd
    · obtain ⟨header, hheader, rfl⟩ := List.mem_map.1 hd
      obtain rfl : header.path = p := by simpa [PlanSetting.draft] using hk
      rw [he]
      exact ⟨⟨header, Option.mem_toList.1 hheader, rfl⟩, _, List.mem_cons_self, rfl⟩
    · obtain ⟨name, -, m, -, rfl⟩ := PlanSetting.mem_moduleJobs_iff.1 hd
      cases hk
  · rcases PlanSetting.mem_compileJobs_iff.1 hd with ⟨-, q, -, rfl⟩ | ⟨-, rfl⟩ <;> cases hk
  · have := (PlanSetting.not_of_mem_followers hd).2.1
    unfold Job.Prepares at this
    rw [hk] at this
    exact absurd trivial this

/-- The header of the request is precompiled. -/
theorem exists_precompiles (h : g.Holds s) {i : InputFile} (hi : s.request.header = some i) :
    ∃ job ∈ g.jobs, job.kind = .precompileHeader i.path := by
  have hdraft : PlanSetting.draft (.precompileHeader i.path) (.precompileHeader i.path)
      [⟨i.path, .header⟩] [s.layout.precompiledHeader i.path]
      ⟨s.request.tools.compiler, ["--emit-pch", i.path.text]
        ++ PlanSetting.flagged Command.outputFlag (s.layout.precompiledHeader i.path)⟩ []
      ∈ s.headerJobs := List.mem_map.2 ⟨i, Option.mem_toList.2 hi, rfl⟩
  obtain ⟨id, hid⟩ := h.exists_job
    (PlanSetting.mem_jobs_of_mem_preparations (List.mem_append_left _ hdraft))
  exact ⟨_, hid, rfl⟩

/-- **A plan of the jobs of a request serves it.** -/
theorem serves (h : g.Holds s) {plan : BuildPlan} (hp : plan.graph = g) :
    plan.Serves s.request := by
  subst hp
  exact {
    wellFormed := h.wellFormed
    prepared := fun job hjob hkind p hp => h.prepared hjob hkind hp
    compiled := fun i hi => h.exists_compiles hi
    once := fun job hjob other hother q hq hq' => h.eq_of_compiles hjob hother hq hq'
    oneByOne := fun hmode job hjob hc => by
      obtain ⟨p, hp, he⟩ := h.eq_inputJob hjob hc hmode
      obtain ⟨i, hi, hip⟩ := List.mem_map.1 hp
      refine ⟨job.units, oneByOne_of_eq_inputJob he, fun u hu => ⟨i, hi, ?_⟩, fun _ => ?_⟩
      · rw [he] at hu
        rw [hip, List.mem_singleton.1 hu]
      · rw [he]
        exact ⟨_, rfl⟩
    together := fun hmode job hjob hc => by
      rw [h.eq_wholeModuleJob hjob hc hmode]
      rfl
    sources := fun job hjob q hq => h.exists_input_of_compiles hjob hq
    header := fun job hjob p hk => h.header_of_kind_eq hjob hk
    headed := fun i hi => h.exists_precompiles hi }

end JobGraph.Holds

namespace BuildRequest

variable {r : BuildRequest} {modules : Option ModuleGraph}

/-- An accepted request has a proper setting once its modules are in order. -/
theorem Accepted.proper (h : r.Accepted modules) {order : List String}
    (horder : if r.explicitModules then (modules.getD .empty).buildOrder = .ok order
      else order = []) : (r.setting modules order).Proper := by
  refine ⟨h.inputs, h.distinct, fun name hname => ?_⟩
  split at horder
  · exact ((ModuleGraph.orders_of_buildOrder horder).mem_iff name).1 hname
  · subst horder
    exact absurd hname List.not_mem_nil

/-- **Planning a request gives a graph that holds its jobs.** -/
theorem holds_of_plan {g : JobGraph} (h : r.plan modules = .ok g) :
    r.Accepted modules ∧ ∃ order,
      (if r.explicitModules then (modules.getD .empty).buildOrder = .ok order else order = []) ∧
        g.Holds (r.setting modules order) := by
  obtain ⟨haccepted, hwell, order, horder, hjobs⟩ := BuildRequest.of_plan h
  exact ⟨haccepted, order, horder, hwell, hjobs, haccepted.proper horder⟩

end BuildRequest

end IncrementalBuild
