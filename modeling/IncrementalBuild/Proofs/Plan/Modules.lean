import IncrementalBuild.Proofs.Plan.Stages

/-!
# The building of imported modules

Every module of the graph is built by one job of a plan. A module that has no number yet would
be passed over without a word, where its users are planned, and so would one that is unknown.
Neither happens: the order of the modules puts dependencies first, and it holds whatever is
depended on or imported. So a job that builds a module waits for the modules it depends on, and
a job that compiles waits for all modules that its sources need.
-/

namespace IncrementalBuild

/-- Where a function has a value for every element of a list, the values stand where the
elements stand. -/
theorem getElem?_filterMap_of_forall {α β : Type} {f : α → Option β} {l : List α}
    (h : ∀ a ∈ l, (f a).isSome = true) (i : Nat) : (l.filterMap f)[i]? = l[i]?.bind f := by
  induction l generalizing i with
  | nil => rfl
  | cons a rest ih =>
    obtain ⟨b, hb⟩ := Option.isSome_iff_exists.1 (h a List.mem_cons_self)
    rw [List.filterMap_cons_some hb]
    cases i with
    | zero => exact hb.symm
    | succ i => exact ih (fun a ha => h a (List.mem_cons_of_mem _ ha)) i

namespace PlanSetting

variable {s : PlanSetting} {name dep : String} {m : ExternalModule}

/-- What stands where products are named is a flag or the path of a product. -/
theorem flag_or_path_of_mem {flag word : String} (hflag : Command.isUnitFlag flag = true)
    {products : List Artifact} (h : word ∈ products.flatMap (flagged flag)) :
    Command.isUnitFlag word = true ∨ ∃ a ∈ products, word = a.path.text := by
  obtain ⟨a, ha, h⟩ := List.mem_flatMap.1 h
  rcases List.mem_pair.1 h with rfl | rfl
  · exact .inl hflag
  · exact .inr ⟨a, ha, rfl⟩

/-! ## Numbers of modules -/

/-- **Whether the modules that are built stand behind their dependencies.** -/
structure InOrder (s : PlanSetting) : Prop where
  nodup : s.moduleOrder.Nodup
  before : ∀ name ∈ s.moduleOrder, ∀ m, s.modules.modules.get? name = some m →
    ∀ dep ∈ m.dependencies.toList, s.moduleOrder.idxOf dep < s.moduleOrder.idxOf name

theorem InOrder.mem (h : s.InOrder) (hname : name ∈ s.moduleOrder)
    (hm : s.modules.modules.get? name = some m) (hdep : dep ∈ m.dependencies.toList) :
    dep ∈ s.moduleOrder :=
  List.idxOf_lt_length_iff.1 (Nat.lt_of_lt_of_le (h.before name hname m hm dep hdep)
    List.idxOf_le_length)

/-- The number of the job that builds a module. -/
def moduleNumber (s : PlanSetting) (name : String) : JobId :=
  s.headerJobs.length + s.moduleOrder.idxOf name

theorem moduleId?_eq (h : name ∈ s.moduleOrder) :
    s.moduleId? name = some (s.moduleNumber name) := by
  unfold moduleId? moduleNumber
  rw [List.idxOf_eq_getD_idxOf?]
  cases hi : s.moduleOrder.idxOf? name with
  | none => exact absurd h (List.idxOf?_eq_none_iff.1 hi)
  | some i => rfl

/-- **No module of a list is passed over** if all of them are built. -/
theorem builtModules_eq {names : List String} (h : ∀ name ∈ names, name ∈ s.moduleOrder) :
    s.builtModules names
      = names.map fun name => (s.moduleNumber name, s.layout.externalModule name) := by
  unfold builtModules
  rw [← List.filterMap_eq_map]
  refine List.filterMap_congr fun name hname => ?_
  rw [moduleId?_eq (h name hname)]
  rfl

/-- The setting at the time when a module is planned, with the modules before it alone. -/
def upTo (s : PlanSetting) (name : String) : PlanSetting :=
  { s with moduleOrder := s.moduleOrder.take (s.moduleOrder.idxOf name) }

/-- **What a module depends on is found among the modules before it**, with the same numbers and
products as in the whole order. So a planner that goes through the modules, and knows those that it
has passed, plans the same jobs. -/
theorem InOrder.moduleJob_upTo (h : s.InOrder) (hname : name ∈ s.moduleOrder)
    (hm : s.modules.modules.get? name = some m) :
    (s.upTo name).moduleJob name m = s.moduleJob name m := by
  have hbefore : ∀ dep ∈ m.dependencies.toList, dep ∈ (s.upTo name).moduleOrder := fun dep hdep =>
    (List.mem_take_iff_idxOf_lt (h.mem hname hm hdep)).2 (h.before name hname m hm dep hdep)
  have hnumber : ∀ dep ∈ m.dependencies.toList,
      (s.upTo name).moduleNumber dep = s.moduleNumber dep := fun dep hdep => by
    have hfirst : ((s.upTo name).moduleOrder ++ s.moduleOrder.drop (s.moduleOrder.idxOf name)).idxOf
        dep = (s.upTo name).moduleOrder.idxOf dep := List.idxOf_append_of_mem (hbefore dep hdep)
    rw [upTo, List.take_append_drop] at hfirst
    exact congrArg (s.headerJobs.length + ·) hfirst.symm
  have hbuilt : (s.upTo name).builtModules m.dependencies.toList
      = s.builtModules m.dependencies.toList := by
    rw [builtModules_eq hbefore, builtModules_eq fun dep hdep => h.mem hname hm hdep]
    exact List.map_congr_left fun dep hdep => by rw [hnumber dep hdep]; rfl
  unfold moduleJob
  rw [hbuilt]
  rfl

/-- **At the number of a module stands the job that builds it.** -/
theorem Proper.getElem?_moduleNumber (hs : s.Proper) (hname : name ∈ s.moduleOrder)
    (hm : s.modules.modules.get? name = some m) :
    s.jobs[s.moduleNumber name]? = some (s.moduleJob name m) := by
  have hlt : s.moduleOrder.idxOf name < s.moduleOrder.length := List.idxOf_lt_length_of_mem hname
  have hknown : ∀ name ∈ s.moduleOrder,
      ((s.modules.modules.get? name).map (s.moduleJob name)).isSome = true := fun name hname => by
    rw [Option.isSome_map, OrderedMap.isSome_get?]
    exact hs.known name hname
  have hget : s.moduleJobs[s.moduleOrder.idxOf name]? = some (s.moduleJob name m) := by
    refine (getElem?_filterMap_of_forall hknown _).trans ?_
    rw [List.getElem?_eq_getElem hlt, List.getElem_idxOf]
    show (s.modules.modules.get? name).map (s.moduleJob name) = _
    rw [hm]
    rfl
  have hpreparation : s.moduleNumber name < s.preparations.length := by
    rw [preparations, List.length_append, hs.length_moduleJobs]
    exact Nat.add_lt_add_left hlt _
  rw [jobs_eq, List.getElem?_append_left hpreparation, preparations, moduleNumber,
    List.getElem?_append_right (Nat.le_add_right _ _), Nat.add_sub_cancel_left]
  exact hget

/-- What builds a module is the job that the module calls for. -/
theorem eq_moduleJob_of_kind {draft : Job} (h : draft ∈ s.jobs)
    (hk : draft.kind = .buildModule name) :
    ∃ m, name ∈ s.moduleOrder ∧ s.modules.modules.get? name = some m ∧
      draft = s.moduleJob name m := by
  have hstage : draft.stage = .modules := congrArg JobKind.stage hk
  simp only [jobs, List.mem_append] at h
  rcases h with ((((h | h) | h) | h) | h) | h
  · cases hstage.symm.trans (stage_of_mem_headerJobs h)
  · obtain ⟨name', hmem, hname⟩ := List.mem_filterMap.1 h
    obtain ⟨m, hm, rfl⟩ := Option.map_eq_some_iff.1 hname
    obtain rfl : name' = name := JobKind.buildModule.inj hk
    exact ⟨m, hmem, hm, rfl⟩
  · cases hstage.symm.trans (stage_of_mem_compileJobs h)
  · cases hstage.symm.trans (stage_of_mem_mergeJobs h).1
  · cases hstage.symm.trans (stage_of_mem_interfaceJobs h).1
  · cases hstage.symm.trans (stage_of_mem_linkJobs h).1

/-- The modules that some sources need are given to the compiler, each once. -/
theorem neededModules_eq (he : s.request.explicitModules = true)
    (hneeds : ∀ q name, s.modules.Needs q name → name ∈ s.moduleOrder) (sources : List Path) :
    ∃ names : List String, names.Nodup ∧
      (∀ name, name ∈ names ↔ ∃ q ∈ sources, s.modules.Needs q name) ∧
      s.neededModules sources
        = names.map fun name => (s.moduleNumber name, s.layout.externalModule name) := by
  let names := (OrderedSet.ofList
    (sources.flatMap fun q => (s.modules.neededBy q).toList)).toList
  have hmem (name : String) : name ∈ names ↔ ∃ q ∈ sources, s.modules.Needs q name := by
    rw [OrderedSet.mem_toList_ofList, List.mem_flatMap]
    exact exists_congr fun q => and_congr_right fun _ => ModuleGraph.mem_neededBy_iff
  refine ⟨names, OrderedSet.nodup_toList _, hmem, ?_⟩
  unfold neededModules
  rw [if_pos he]
  refine builtModules_eq fun name hname => ?_
  obtain ⟨q, -, hq⟩ := (hmem name).1 hname
  exact hneeds q name hq

end PlanSetting

/-- The modules of a request are built behind their dependencies. -/
theorem BuildRequest.inOrder_setting {r : BuildRequest} {modules : Option ModuleGraph}
    {order : List String} (horder : if r.explicitModules then
      (modules.getD .empty).buildOrder = .ok order else order = []) :
    (r.setting modules order).InOrder := by
  split at horder
  · have horders := ModuleGraph.orders_of_buildOrder horder
    exact ⟨horders.nodup, fun name _ => horders.before name⟩
  · subst horder
    exact ⟨List.nodup_nil, fun name hname => absurd hname List.not_mem_nil⟩

/-! ## What a graph does for imported modules -/

namespace BuildRequest

/-- The names of the products of a request. -/
def layout (r : BuildRequest) : OutputLayout :=
  .ofInputs r.outputDir r.moduleName r.sourcePaths

/-- The compiled header, if the request has a header. -/
def headerProducts (r : BuildRequest) : List Artifact :=
  r.header.toList.map fun h => r.layout.precompiledHeader h.path

/-- The words that every compile command of a request begins with. -/
def sharedWords (r : BuildRequest) : List String :=
  ["-c"] ++ (match r.mode with
    | .perFile => []
    | .wholeModule => ["--whole-module"])
    ++ ["--module-name", r.moduleName] ++ r.compilerArgs ++ r.sourcePaths.map (·.text)

end BuildRequest

namespace JobGraph

/-- **Whether a compile job is given the header and the modules that some sources need**: it
waits for the jobs that make them and for no others, and what they make is among its inputs and
named in its command. -/
structure Gives (g : JobGraph) (r : BuildRequest) (m : ModuleGraph) (job : Job)
    (sources : List Path) : Prop where
  waits_iff : ∀ id, id ∈ job.prerequisites.toList ↔ ∃ before ∈ g.jobs, before.id = id ∧
    ((∃ h, r.header = some h ∧ before.kind = .precompileHeader h.path) ∨
      ∃ name, before.kind = .buildModule name ∧ ∃ q ∈ sources, m.Needs q name)
  given : ∃ names : List String, names.Nodup ∧
    (∀ name, name ∈ names ↔ ∃ q ∈ sources, m.Needs q name) ∧
    job.inputs = sources.map (⟨·, .source⟩)
      ++ (r.headerProducts ++ names.map r.layout.externalModule) ∧
    ∃ own, job.command.args = r.sharedWords
        ++ PlanSetting.pathArgs (r.headerProducts ++ names.map r.layout.externalModule) ++ own ∧
      ∀ word ∈ own, Command.isUnitFlag word = true ∨ (∃ q ∈ sources, word = q.text) ∨
        ∃ a ∈ job.outputs, word = a.path.text

/-- **Whether a graph builds the modules of a module graph** and gives them to the jobs that
compile. -/
structure BuildsModules (g : JobGraph) (r : BuildRequest) (m : ModuleGraph) : Prop where
  /-- Whatever is depended on or imported is a module. -/
  known : ∀ q name, m.Needs q name → m.modules.contains name = true
  declared : ∀ name e, m.modules.get? name = some e → ∀ dep ∈ e.dependencies.toList,
    m.modules.contains dep = true
  built : ∀ name, m.modules.contains name = true →
    ∃! job, job ∈ g.jobs ∧ job.kind = .buildModule name
  only : ∀ job ∈ g.jobs, ∀ name, job.kind = .buildModule name →
    m.modules.contains name = true
  /-- A job that builds a module waits for the modules it depends on. -/
  waits_iff : ∀ job ∈ g.jobs, ∀ name e, job.kind = .buildModule name →
    m.modules.get? name = some e → ∀ id, id ∈ job.prerequisites.toList ↔
      ∃ before ∈ g.jobs, before.id = id ∧
        ∃ dep ∈ e.dependencies.toList, before.kind = .buildModule dep
  headed : ∀ h, r.header = some h →
    ∃! job, job ∈ g.jobs ∧ job.kind = .precompileHeader h.path
  perFile : r.mode = .perFile → ∀ job ∈ g.jobs, job.isCompile = true →
    ∃ q ∈ r.sourcePaths, job.primaries = [q] ∧ g.Gives r m job [q]
  wholeModule : r.mode = .wholeModule → ∀ job ∈ g.jobs, job.isCompile = true →
    g.Gives r m job r.sourcePaths

namespace Holds

variable {g : JobGraph} {s : PlanSetting} {job : Job} {name : String} {m : ExternalModule}

/-- **The jobs that build a module** are those of the modules that are built, at their
numbers. -/
theorem builds_iff (h : g.Holds s) :
    job ∈ g.jobs ∧ job.kind = .buildModule name ↔
      ∃ m, name ∈ s.moduleOrder ∧ s.modules.modules.get? name = some m ∧
        job = { s.moduleJob name m with id := s.moduleNumber name } := by
  have hplace {m : ExternalModule} (hname : name ∈ s.moduleOrder)
      (hm : s.modules.modules.get? name = some m) :
      { s.moduleJob name m with id := s.moduleNumber name } ∈ g.jobs :=
    JobGraph.mem_of_job? (by
      rw [h.job?_eq, h.proper.getElem?_moduleNumber hname hm]
      rfl)
  constructor
  · rintro ⟨hjob, hk⟩
    obtain ⟨draft, hget, he⟩ := h.exists_draft hjob
    obtain ⟨m, hname, hm, rfl⟩ := PlanSetting.eq_moduleJob_of_kind (List.mem_of_getElem? hget)
      ((congrArg Job.kind he).symm.trans hk)
    refine ⟨m, hname, hm, h.wellFormed.eq_of_key_eq hjob (hplace hname hm) ?_⟩
    rw [he]
  · rintro ⟨m, hname, hm, rfl⟩
    exact ⟨hplace hname hm, rfl⟩

/-- The numbers of some modules are those of the jobs that build them. -/
theorem mem_moduleNumbers_iff (h : g.Holds s) {names : List String}
    (hnames : ∀ name ∈ names, name ∈ s.moduleOrder) {id : JobId} :
    id ∈ names.map s.moduleNumber ↔
      ∃ before ∈ g.jobs, before.id = id ∧ ∃ name ∈ names, before.kind = .buildModule name := by
  rw [List.mem_map]
  constructor
  · rintro ⟨name, hname, rfl⟩
    have hknown := h.proper.known name (hnames name hname)
    rw [← OrderedMap.isSome_get?] at hknown
    obtain ⟨m, hm⟩ := Option.isSome_iff_exists.1 hknown
    obtain ⟨hjob, hk⟩ := h.builds_iff.2 ⟨m, hnames name hname, hm, rfl⟩
    exact ⟨_, hjob, rfl, name, hname, hk⟩
  · rintro ⟨before, hbefore, rfl, name, hname, hk⟩
    obtain ⟨m, -, -, rfl⟩ := h.builds_iff.1 ⟨hbefore, hk⟩
    exact ⟨name, hname, rfl⟩

/-- The numbers before all others are those of the job that compiles the header. -/
theorem mem_headerIds_iff (h : g.Holds s) {id : JobId} :
    id ∈ s.headerIds ↔ ∃ before ∈ g.jobs, before.id = id ∧
      ∃ i, s.request.header = some i ∧ before.kind = .precompileHeader i.path := by
  constructor
  · intro hid
    obtain ⟨draft, hget, hd⟩ : ∃ draft, s.jobs[id]? = some draft ∧ draft ∈ s.headerJobs := by
      have hlt := List.mem_range.1 hid
      refine ⟨s.headerJobs[id], ?_, List.getElem_mem hlt⟩
      simp only [PlanSetting.jobs, List.append_assoc]
      rw [List.getElem?_append_left hlt]
      exact List.getElem?_eq_getElem hlt
    have hjob : g.job? id = some { draft with id } := by
      rw [h.job?_eq, hget]
      rfl
    obtain ⟨i, hi, rfl⟩ := List.mem_map.1 hd
    exact ⟨_, JobGraph.mem_of_job? hjob, rfl, i, Option.mem_toList.1 hi, rfl⟩
  · rintro ⟨before, hbefore, rfl, i, -, hk⟩
    obtain ⟨draft, hget, he⟩ := h.exists_draft hbefore
    exact (PlanSetting.mem_headerIds_iff hget).2
      (congrArg JobKind.stage ((congrArg Job.kind he).symm.trans hk))

/-- The header is compiled by one job. -/
theorem existsUnique_header (h : g.Holds s) {i : InputFile} (hi : s.request.header = some i) :
    ∃! job, job ∈ g.jobs ∧ job.kind = .precompileHeader i.path := by
  have hserves : (BuildPlan.allScheduled g).Serves s.request := h.serves rfl
  obtain ⟨job, hjob, hk⟩ := hserves.headed i hi
  have hfirst {other : Job} (hother : other ∈ g.jobs)
      (hk : other.kind = .precompileHeader i.path) : other.id = 0 := by
    have hid := h.mem_headerIds_iff.2 ⟨other, hother, rfl, i, hi, hk⟩
    have hone : s.headerJobs.length = 1 := by
      unfold PlanSetting.headerJobs
      rw [hi]
      rfl
    rw [PlanSetting.headerIds, hone] at hid
    exact List.mem_singleton.1 hid
  exact ⟨job, ⟨hjob, hk⟩, fun other hother => h.wellFormed.eq_of_id_eq hother.1 hjob
    ((hfirst hother.1 hother.2).trans (hfirst hjob hk).symm)⟩

/-- **A compile job is given what its sources need.** -/
theorem gives (h : g.Holds s) (he : s.request.explicitModules = true)
    (hlayout : s.layout = s.request.layout)
    (hneeds : ∀ q name, s.modules.Needs q name → name ∈ s.moduleOrder) {sources : List Path}
    (hwaits : job.prerequisites = OrderedSet.ofList (s.compilePrerequisites sources))
    (hinputs : job.inputs = sources.map (⟨·, .source⟩) ++ s.compileContext sources)
    (own : List String)
    (hargs : job.command.args = s.request.sharedWords
      ++ PlanSetting.pathArgs (s.compileContext sources) ++ own)
    (hown : ∀ word ∈ own, Command.isUnitFlag word = true ∨ (∃ q ∈ sources, word = q.text) ∨
      ∃ a ∈ job.outputs, word = a.path.text) :
    g.Gives s.request s.modules job sources := by
  obtain ⟨names, hnodup, hmem, heq⟩ := PlanSetting.neededModules_eq he hneeds sources
  have hcontext : s.compileContext sources
      = s.request.headerProducts ++ names.map s.request.layout.externalModule := by
    unfold PlanSetting.compileContext PlanSetting.headerArtifacts BuildRequest.headerProducts
    rw [heq, List.map_map, ← hlayout]
    rfl
  refine ⟨fun id => ?_, names, hnodup, hmem, hcontext ▸ hinputs, own, hcontext ▸ hargs, hown⟩
  have hordered : ∀ name ∈ names, name ∈ s.moduleOrder := fun name hname => by
    obtain ⟨q, -, hq⟩ := (hmem name).1 hname
    exact hneeds q name hq
  rw [hwaits, OrderedSet.mem_toList_ofList]
  unfold PlanSetting.compilePrerequisites
  rw [List.mem_append, h.mem_headerIds_iff, heq, List.map_map]
  show _ ∨ id ∈ names.map s.moduleNumber ↔ _
  rw [h.mem_moduleNumbers_iff hordered]
  simp only [hmem]
  constructor
  · rintro (⟨before, hbefore, hid, hheader⟩ | ⟨before, hbefore, hid, name, hneeded, hk⟩)
    · exact ⟨before, hbefore, hid, .inl hheader⟩
    · exact ⟨before, hbefore, hid, .inr ⟨name, hk, hneeded⟩⟩
  · rintro ⟨before, hbefore, hid, hheader | ⟨name, hk, hneeded⟩⟩
    · exact .inl ⟨before, hbefore, hid, hheader⟩
    · exact .inr ⟨before, hbefore, hid, name, hneeded, hk⟩

/-- The job of an input is given what the input needs. -/
theorem gives_inputJob (h : g.Holds s) (he : s.request.explicitModules = true)
    (hlayout : s.layout = s.request.layout)
    (hneeds : ∀ q name, s.modules.Needs q name → name ∈ s.moduleOrder)
    (hmode : s.request.mode = .perFile) {q : Path}
    (hjob : job = { s.inputJob q with id := job.id }) :
    g.Gives s.request s.modules job [q] := by
  have hwords : s.compileArgs [] = s.request.sharedWords := by
    unfold PlanSetting.compileArgs BuildRequest.sharedWords
    rw [hmode]
  refine h.gives he hlayout hneeds (by rw [hjob]; rfl) (by rw [hjob]; rfl)
    ([Command.primaryFlag, q.text]
      ++ (s.unitProducts q).flatMap (PlanSetting.flagged Command.outputFlag)
      ++ [(s.layout.perInput q).record].flatMap (PlanSetting.flagged Command.recordFlag)) ?_
    fun word hword => ?_
  · rw [hjob]
    show s.compileArgs [] ++ _ ++ _ ++ _ ++ _ = _
    rw [hwords]
    simp only [List.append_assoc]
    rfl
  · rw [hjob]
    rcases List.mem_append.1 hword with hword | hword
    · rcases List.mem_append.1 hword with hword | hword
      · rcases List.mem_pair.1 hword with rfl | rfl
        · exact .inl rfl
        · exact .inr (.inl ⟨q, List.mem_singleton_self q, rfl⟩)
      · exact (PlanSetting.flag_or_path_of_mem rfl hword).imp_right fun ⟨a, ha, h⟩ =>
          .inr ⟨a, List.mem_append_left _ ha, h⟩
    · exact (PlanSetting.flag_or_path_of_mem rfl hword).imp_right fun ⟨a, ha, h⟩ =>
        .inr ⟨a, List.mem_append_right _ ha, h⟩

/-- The job of the whole module is given what any of the inputs needs. -/
theorem gives_wholeModuleJob (h : g.Holds s) (he : s.request.explicitModules = true)
    (hlayout : s.layout = s.request.layout)
    (hneeds : ∀ q name, s.modules.Needs q name → name ∈ s.moduleOrder)
    (hmode : s.request.mode = .wholeModule) (hjob : job = { s.wholeModuleJob with id := job.id }) :
    g.Gives s.request s.modules job s.request.sourcePaths := by
  have hwords : s.compileArgs ["--whole-module"] = s.request.sharedWords := by
    unfold PlanSetting.compileArgs BuildRequest.sharedWords
    rw [hmode]
  refine h.gives he hlayout hneeds (by rw [hjob]; rfl) (by rw [hjob]; rfl)
    (s.moduleProducts.flatMap (PlanSetting.flagged Command.outputFlag)) ?_ fun word hword => ?_
  · rw [hjob]
    show s.compileArgs ["--whole-module"] ++ _ ++ _ = _
    rw [hwords]
  · rw [hjob]
    exact (PlanSetting.flag_or_path_of_mem rfl hword).imp_right .inr

end Holds
end JobGraph

/-- **Explicit modules are never dropped.** Where modules are built explicitly and the plan
succeeds, every module of the graph is built by one job, which waits for the modules it
depends on, and every compile job is given the modules that its sources need, through however
many dependencies. -/
theorem BuildRequest.buildsModules_of_plan {r : BuildRequest} {m : ModuleGraph} {g : JobGraph}
    (he : r.explicitModules = true) (h : r.plan (some m) = .ok g) : g.BuildsModules r m := by
  obtain ⟨-, order, horder, hholds⟩ := BuildRequest.holds_of_plan h
  rw [if_pos he] at horder
  have horders : m.Orders order := ModuleGraph.orders_of_buildOrder horder
  let s := r.setting (some m) order
  have hneeds (q : Path) (name : String) (hq : m.Needs q name) : name ∈ order :=
    horders.mem_of_needs hq
  refine ⟨fun q name hq => (horders.mem_iff name).1 (hneeds q name hq),
    fun name e hm dep hdep => (horders.mem_iff dep).1 (horders.mem_of_dependency hm hdep),
    fun name hname => ?_, fun job hjob name hk => ?_, fun job hjob name e hk hm id => ?_,
    fun i hi => hholds.existsUnique_header hi, fun hmode job hjob hc => ?_,
    fun hmode job hjob hc => ?_⟩
  -- One job builds the module.
  · rw [← OrderedMap.isSome_get?] at hname
    obtain ⟨e, hm⟩ := Option.isSome_iff_exists.1 hname
    have hname : name ∈ order := (horders.mem_iff name).2 (by
      rw [← OrderedMap.isSome_get?, hm]
      rfl)
    refine ⟨_, hholds.builds_iff.2 ⟨e, hname, hm, rfl⟩, fun job hjob => ?_⟩
    obtain ⟨e', -, hm', rfl⟩ := hholds.builds_iff.1 hjob
    obtain rfl : e = e' := Option.some.inj (hm.symm.trans hm')
    rfl
  -- No job builds a module that the graph does not have.
  · obtain ⟨e, hname, -⟩ := hholds.builds_iff.1 ⟨hjob, hk⟩
    exact (horders.mem_iff name).1 hname
  -- It waits for what the module depends on.
  · obtain ⟨e', -, hm', rfl⟩ := hholds.builds_iff.1 ⟨hjob, hk⟩
    obtain rfl : e = e' := Option.some.inj (hm.symm.trans hm')
    have hordered : ∀ dep ∈ e.dependencies.toList, dep ∈ s.moduleOrder := fun dep hdep =>
      horders.mem_of_dependency hm hdep
    rw [← hholds.mem_moduleNumbers_iff hordered]
    show id ∈ (OrderedSet.ofList ((s.builtModules e.dependencies.toList).map (·.1))).toList ↔ _
    rw [OrderedSet.mem_toList_ofList, PlanSetting.builtModules_eq hordered, List.map_map]
    rfl
  -- What a compile job is given, one input at a time or for all at once.
  · obtain ⟨q, hq, hinput⟩ := hholds.eq_inputJob hjob hc hmode
    refine ⟨q, hq, ?_, hholds.gives_inputJob he rfl hneeds hmode hinput⟩
    rw [hinput]
    rfl
  · exact hholds.gives_wholeModuleJob he rfl hneeds hmode
      (hholds.eq_wholeModuleJob hjob hc hmode)

namespace EveryKind

/-- A request with a header and a library, for products of every kind. -/
def request : BuildRequest where
  moduleName := "App"
  inputs := [⟨⟨"a.src"⟩, ⟨"1"⟩⟩, ⟨⟨"b.src"⟩, ⟨"1"⟩⟩]
  outputs := OrderedSet.ofList [.object, .module, .interface, .linked .executable]
  mode := .perFile
  concurrency := 1
  batchSize := none
  policy := .continueOnFailure
  libraries := [⟨"m.a"⟩]
  header := some ⟨⟨"all.h"⟩, ⟨"1"⟩⟩
  explicitModules := true
  compilerArgs := []
  outputDir := ⟨"out"⟩
  statePath := ⟨"state"⟩
  tools := ⟨"cc", some "ld", none⟩

/-- The first input imports a module, which depends on another one. -/
def modules : ModuleGraph where
  modules := OrderedMap.ofList
    [("Low", ⟨⟨"Low.interface"⟩, ∅⟩), ("High", ⟨⟨"High.interface"⟩, OrderedSet.ofList ["Low"]⟩)]
  imports := OrderedMap.ofList [(⟨"a.src"⟩, OrderedSet.ofList ["High"])]

/-- The first input needs both modules, one of them because of the other, and the second input
needs none. -/
theorem buildsModules_of_plan_everyKind : ∃ g, request.plan (some modules) = .ok g ∧
    g.BuildsModules request modules ∧ modules.Needs ⟨"a.src"⟩ "Low" ∧
    (g.jobs.map fun job => (job.key.text, job.prerequisites.toList)).take 5
      = [("generate-pch:all.h", []), ("build-module:Low", []), ("build-module:High", [1]),
        ("compile:a.src", [0, 1, 2]), ("compile:b.src", [0])] := by
  obtain ⟨g, hplan, hjobs⟩ := exists_eq_ok_of_toOption (x := request.plan (some modules))
    (f := fun g => (g.jobs.map fun job => (job.key.text, job.prerequisites.toList)).take 5)
    (b := [("generate-pch:all.h", []), ("build-module:Low", []), ("build-module:High", [1]),
      ("compile:a.src", [0, 1, 2]), ("compile:b.src", [0])]) (by decide +kernel)
  have hhigh : modules.Needs ⟨"a.src"⟩ "High" := .imported rfl List.mem_cons_self
  have hlow : modules.Needs ⟨"a.src"⟩ "Low" := .dependency hhigh rfl List.mem_cons_self
  exact ⟨g, hplan, BuildRequest.buildsModules_of_plan rfl hplan, hlow, hjobs⟩

end EveryKind

end IncrementalBuild
