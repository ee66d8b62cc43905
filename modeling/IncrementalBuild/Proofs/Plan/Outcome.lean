import IncrementalBuild.Proofs.Plan.Modules

/-!
# What comes of planning

A request is refused for what is wrong with it or with its module graph, and for nothing else.
When its jobs are put together one after the other, each waits for jobs that are there already
and has a key that no other has. Prerequisites come first because the stages of a plan do, and
within the building of modules because the order of the modules does. Keys differ between
stages in how they begin, and within a stage because names of modules and paths of inputs do,
paths that differ being spelled differently. Only the keys of linked products could not be told
apart in this way, and of those a request has one at most.
-/

namespace IncrementalBuild

/-! ## Putting jobs together -/

/-- **Jobs that wait for earlier ones, under different keys, can be added one after the
other.** -/
theorem JobGraph.exists_foldlM_add {drafts : List Job} {g : JobGraph}
    (hwaits : ∀ i draft, drafts[i]? = some draft → ∀ p ∈ draft.prerequisites.toList,
      p < g.size + i)
    (hkeys : (g.jobs.map (·.key) ++ drafts.map (·.key)).Nodup) :
    ∃ g', drafts.foldlM (fun g job => (g.add job).map (·.1)) g = .ok g' := by
  induction drafts generalizing g with
  | nil => exact ⟨g, rfl⟩
  | cons draft rest ih =>
    have hfresh : draft.key ∉ g.jobs.map (·.key) := fun hmem =>
      (List.nodup_append.1 hkeys).2.2 _ hmem _ List.mem_cons_self rfl
    have hadd := JobGraph.add_eq_ok_iff.2 ⟨rfl, hfresh, hwaits 0 draft rfl⟩
    have hsize : (⟨g.jobs ++ [{ draft with id := g.size }]⟩ : JobGraph).size = g.size + 1 :=
      List.length_append
    obtain ⟨g', hg'⟩ := ih (g := ⟨g.jobs ++ [{ draft with id := g.size }]⟩)
      (fun i other hother p hp => by
        rw [hsize, Nat.add_assoc, Nat.add_comm 1]
        exact hwaits (i + 1) other hother p hp)
      (by simpa using hkeys)
    refine ⟨g', ?_⟩
    rw [List.foldlM_cons, hadd]
    exact hg'

namespace PlanSetting

variable {s : PlanSetting}

/-! ## Prerequisites -/

/-- The number of a job that builds a module is the number of the module. -/
theorem Proper.eq_moduleNumber (hs : s.Proper) (ho : s.InOrder) {i : Nat} {draft : Job}
    (h : s.moduleJobs[i]? = some draft) :
    ∃ name m, s.modules.modules.get? name = some m ∧ name ∈ s.moduleOrder ∧
      draft = s.moduleJob name m ∧ s.headerJobs.length + i = s.moduleNumber name := by
  have hknown : ∀ name ∈ s.moduleOrder,
      ((s.modules.modules.get? name).map (s.moduleJob name)).isSome = true := fun name hname => by
    rw [Option.isSome_map, OrderedMap.isSome_get?]
    exact hs.known name hname
  have hbind := (getElem?_filterMap_of_forall hknown i).symm.trans h
  obtain ⟨name, hname, hjob⟩ := Option.bind_eq_some_iff.1 hbind
  obtain ⟨m, hm, rfl⟩ := Option.map_eq_some_iff.1 hjob
  obtain ⟨hlt, rfl⟩ := List.getElem?_eq_some_iff.1 hname
  refine ⟨_, m, hm, List.getElem_mem hlt, rfl, ?_⟩
  unfold moduleNumber
  rw [ho.nodup.idxOf_getElem i hlt]

/-- **Every job of a request waits for earlier ones.** -/
theorem Proper.lt_of_mem_prerequisites_of_getElem? (hs : s.Proper) (ho : s.InOrder) {i : Nat}
    {draft : Job} (h : s.jobs[i]? = some draft) {p : Nat}
    (hp : p ∈ draft.prerequisites.toList) : p < i := by
  -- A job's place among the jobs of the request is bounded by its stage, so it is enough that
  -- what it waits for belongs to earlier stages. Only modules wait for jobs of their own stage.
  obtain ⟨h₀, h₁, h₂, h₃⟩ := rank_iff_of_getElem? h
  have hcompiled {ids : OrderedSet JobId} (hids : ids = OrderedSet.ofList s.compileIds)
      (hp : p ∈ ids.toList) :
      p < s.headerJobs.length + s.moduleJobs.length + s.compileJobs.length := by
    rw [hids, OrderedSet.mem_toList_ofList, compileIds, List.mem_range'_1] at hp
    exact hp.2
  have hmem := List.mem_of_getElem? h
  simp only [jobs, List.mem_append] at hmem
  rcases hmem with ((((hd | hd) | hd) | hd) | hd) | hd
  · obtain ⟨header, -, rfl⟩ := List.mem_map.1 hd
    exact absurd (OrderedSet.mem_toList_ofList.1 hp) List.not_mem_nil
  · -- The dependencies of a module come before it in the order of the modules.
    have hrank : draft.stage.rank = 1 := congrArg Stage.rank (stage_of_mem_moduleJobs hd)
    have hle : s.headerJobs.length ≤ i := by omega
    have hget : s.moduleJobs[i - s.headerJobs.length]? = some draft := by
      rw [← h]
      simp only [jobs, List.append_assoc]
      rw [List.getElem?_append_right hle, List.getElem?_append_left (by omega)]
    obtain ⟨name, m, hm, hname, rfl, hi⟩ := hs.eq_moduleNumber ho hget
    have hp : p ∈ (s.builtModules m.dependencies.toList).map (·.1) :=
      OrderedSet.mem_toList_ofList.1 hp
    rw [builtModules_eq fun dep hdep => ho.mem hname hm hdep, List.map_map] at hp
    obtain ⟨dep, hdep, rfl⟩ := List.mem_map.1 hp
    have hbefore := ho.before name hname m hm dep hdep
    show s.headerJobs.length + s.moduleOrder.idxOf dep < i
    unfold moduleNumber at hi
    omega
  · have hrank : draft.stage.rank = 2 := congrArg Stage.rank (stage_of_mem_compileJobs hd)
    have hlt : p < (s.headerJobs ++ s.moduleJobs).length :=
      hs.lt_of_mem_prerequisites (.inr hd) hp
    rw [List.length_append] at hlt
    omega
  · obtain ⟨hstage, he⟩ := stage_of_mem_mergeJobs hd
    have hrank : draft.stage.rank = 3 := congrArg Stage.rank hstage
    have := hcompiled he hp
    omega
  · obtain ⟨hstage, he⟩ := stage_of_mem_interfaceJobs hd
    have hrank : draft.stage.rank = 4 := congrArg Stage.rank hstage
    cases hmode : s.request.mode with
    | wholeModule =>
      have := hcompiled (by rw [he, moduleIds, hmode]) hp
      omega
    | perFile =>
      obtain ⟨merge, hmerge, -⟩ := exists_mergeJobs hmode
        (needsModule_of_wantsInterface (wantsInterface_of_mem_interfaceJobs hd))
      have hlength : s.mergeJobs.length = 1 := congrArg List.length hmerge
      rw [he, moduleIds, hmode, OrderedSet.mem_toList_ofList, List.mem_singleton] at hp
      omega
  · obtain ⟨hstage, he⟩ := stage_of_mem_linkJobs hd
    have hrank : draft.stage.rank = 5 := congrArg Stage.rank hstage
    have := hcompiled he hp
    omega

/-! ## Keys -/

theorem key_ne_of_stage_ne {d d' : Job} (hd : d ∈ s.jobs) (hd' : d' ∈ s.jobs)
    (h : d.stage ≠ d'.stage) : d.key ≠ d'.key := by
  intro hkey
  obtain ⟨rest, hrest⟩ := exists_key_eq hd
  obtain ⟨rest', hrest'⟩ := exists_key_eq hd'
  rw [hkey] at hrest
  exact h (Stage.eq_of_label_append (hrest.symm.trans hrest'))

theorem pairwise_key_ne_of_length_le_one {l : List Job} (h : l.length ≤ 1) :
    l.Pairwise fun d d' => d.key ≠ d'.key := by
  match l, h with
  | [], _ => exact .nil
  | [d], _ => exact List.pairwise_singleton _ d

/-- Modules with different names are built under different keys. -/
theorem InOrder.pairwise_moduleJobs (ho : s.InOrder) :
    s.moduleJobs.Pairwise fun d d' => d.key ≠ d'.key := by
  refine List.pairwise_filterMap.2 (ho.nodup.imp fun {name name'} hne d hd d' hd' hkey => hne ?_)
  obtain ⟨m, -, rfl⟩ := Option.map_eq_some_iff.1 hd
  obtain ⟨m', -, rfl⟩ := Option.map_eq_some_iff.1 hd'
  exact (String.append_right_inj "build-module:").1 (congrArg JobKey.text hkey)

/-- Inputs that differ are compiled under different keys, as they are spelled differently. -/
theorem Proper.pairwise_compileJobs (hs : s.Proper) :
    s.compileJobs.Pairwise fun d d' => d.key ≠ d'.key := by
  unfold compileJobs
  cases s.request.mode with
  | wholeModule => exact List.pairwise_singleton _ _
  | perFile =>
    refine List.pairwise_map.2 (hs.distinct.imp fun {p q} hne hkey => hne ?_)
    have htext : p.text = q.text :=
      (String.append_right_inj "compile:").1 (congrArg JobKey.text hkey)
    rw [show p = q from congrArg Path.mk htext]
    exact Std.ReflOrd.compare_self

/-- **The jobs of a request have different keys**, if it asks for one linked product at
most. -/
theorem Proper.nodup_keys (hs : s.Proper) (ho : s.InOrder)
    (hlink : s.request.linkOutputs.length ≤ 1) : (s.jobs.map (·.key)).Nodup := by
  -- Two parts of the list can be joined where the stages of the one come before the other's.
  have hjoin {before behind : List Job} (k : Nat) (hjobs : ∀ d ∈ before ++ behind, d ∈ s.jobs)
      (hlow : ∀ d ∈ before, d.stage.rank < k) (hhigh : ∀ d ∈ behind, d.stage.rank = k)
      (hbefore : before.Pairwise fun d d' => d.key ≠ d'.key)
      (hbehind : behind.Pairwise fun d d' => d.key ≠ d'.key) :
      (before ++ behind).Pairwise fun d d' => d.key ≠ d'.key := by
    refine List.pairwise_append.2 ⟨hbefore, hbehind, fun d hd d' hd' => ?_⟩
    refine key_ne_of_stage_ne (hjobs d (List.mem_append_left _ hd))
      (hjobs d' (List.mem_append_right _ hd')) fun hstage => ?_
    exact absurd (congrArg Stage.rank hstage) (Nat.ne_of_lt (hhigh d' hd' ▸ hlow d hd))
  have hheader {d : Job} (hd : d ∈ s.headerJobs) : d.stage.rank = 0 :=
    congrArg Stage.rank (stage_of_mem_headerJobs hd)
  have hmodule {d : Job} (hd : d ∈ s.moduleJobs) : d.stage.rank = 1 :=
    congrArg Stage.rank (stage_of_mem_moduleJobs hd)
  have hcompile {d : Job} (hd : d ∈ s.compileJobs) : d.stage.rank = 2 :=
    congrArg Stage.rank (stage_of_mem_compileJobs hd)
  have hmerge {d : Job} (hd : d ∈ s.mergeJobs) : d.stage.rank = 3 :=
    congrArg Stage.rank (stage_of_mem_mergeJobs hd).1
  have hinterface {d : Job} (hd : d ∈ s.interfaceJobs) : d.stage.rank = 4 :=
    congrArg Stage.rank (stage_of_mem_interfaceJobs hd).1
  have hlinking {d : Job} (hd : d ∈ s.linkJobs) : d.stage.rank = 5 :=
    congrArg Stage.rank (stage_of_mem_linkJobs hd).1
  have hfew (l : List Job) (h : l.length ≤ 1) : l.Pairwise fun d d' => d.key ≠ d'.key :=
    pairwise_key_ne_of_length_le_one h
  have hmem {d : Job} : d ∈ s.jobs ↔ ((((d ∈ s.headerJobs ∨ d ∈ s.moduleJobs) ∨
      d ∈ s.compileJobs) ∨ d ∈ s.mergeJobs) ∨ d ∈ s.interfaceJobs) ∨ d ∈ s.linkJobs := by
    simp only [jobs, List.mem_append]
  refine List.pairwise_map.2 ?_
  unfold jobs
  refine hjoin 5 (by grind) (by grind) (fun d => hlinking) ?_ ?links
  refine hjoin 4 (by grind) (by grind) (fun d => hinterface) ?_ ?interface
  refine hjoin 3 (by grind) (by grind) (fun d => hmerge) ?_ ?merge
  refine hjoin 2 (by grind) (by grind) (fun d => hcompile) ?_ hs.pairwise_compileJobs
  refine hjoin 1 (by grind) (by grind) (fun d => hmodule) (hfew _ ?_) ho.pairwise_moduleJobs
  · unfold headerJobs
    cases s.request.header <;> simp
  case merge =>
    refine hfew _ ?_
    unfold mergeJobs
    split <;> simp
  case interface =>
    refine hfew _ ?_
    unfold interfaceJobs
    split <;> simp
  case links =>
    refine hfew _ ?_
    unfold linkJobs
    split
    · exact Nat.zero_le 1
    · rw [List.length_map]
      exact hlink

end PlanSetting

/-! ## What an error says -/

namespace BuildRequest

/-- **What a fault says about a request.** -/
def HasFault (r : BuildRequest) (modules : Option ModuleGraph) : RequestFault → Prop
  | .emptyModuleName => Text.trim r.moduleName = ""
  | .noInputs => r.inputs = []
  | .noOutputs => r.outputs.isEmpty = true
  | .noConcurrency => r.concurrency = 0
  | .repeatedInput path => ∃ before p after, r.sourcePaths = before ++ p :: after ∧
      p.text = path ∧ ∃ q ∈ before, compare q p = .eq
  | .noModuleGraph => r.explicitModules = true ∧ modules = none
  | .noScanner => False
  | .misplacedJob _ _ _ => False

/-- **What it says that no rule makes a product.** -/
def LacksRule (r : BuildRequest) : OutputFault → Prop
  | .severalLinked outputs =>
    1 < r.linkOutputs.length ∧ outputs = r.linkOutputs.map LinkOutput.name
  | .linkerMissing output => r.tools.linker = none ∧ ∃ o ∈ r.linkOutputs, o.name = output

/-- **What an error says about a request and its module graph.** The errors that would tell of
a plan that is put together in a wrong way say nothing that could be true. -/
def Refused (r : BuildRequest) (modules : Option ModuleGraph) : PlanningError → Prop
  | .malformedRequest fault => r.HasFault modules fault
  | .missingOutputRule fault => r.LacksRule fault
  | .unknownModule user missing => r.explicitModules = true ∧ ∃ m, modules = some m ∧
      m.modules.contains missing = false ∧
      ((∃ e, m.modules.get? user = some e ∧ missing ∈ e.dependencies.toList) ∨
        ∃ p set, m.imports.get? p = some set ∧ p.text = user ∧ missing ∈ set.toList)
  | .moduleCycle _ => r.explicitModules = true ∧ ∃ m, modules = some m ∧ ¬ m.relation.Acyclic
  | .selfDependency _ => False
  | .unknownPrerequisite _ _ => False
  | .duplicateJob _ => False
  | .jobCycle _ => False
  | .dependencyCycle _ => False
  | .scanFailed _ => False

end BuildRequest

/-- The first path that equals an earlier one stands behind it. -/
theorem of_firstRepeated?_eq_some {paths : List Path} {p : Path}
    (h : firstRepeated? paths = some p) :
    ∃ before after, paths = before ++ p :: after ∧ ∃ q ∈ before, compare q p = .eq := by
  have key (passed rest : List Path) (h : firstRepeated?.go passed rest = some p) :
      ∃ before after, rest = before ++ p :: after ∧
        ∃ q, (q ∈ passed ∨ q ∈ before) ∧ compare q p = .eq := by
    induction rest generalizing passed with
    | nil => cases h
    | cons first rest ih =>
      unfold firstRepeated?.go at h
      split at h
      · rename_i hfirst
        obtain rfl := Option.some.inj h
        obtain ⟨q, hq, hqp⟩ := List.contains_iff_exists_mem_beq.1 hfirst
        exact ⟨[], rest, rfl, q, .inl hq,
          Std.OrientedCmp.eq_symm (Path.beq_iff_compare.1 hqp)⟩
      · obtain ⟨before, after, rfl, q, hq, hqp⟩ := ih _ h
        refine ⟨first :: before, after, rfl, q, ?_, hqp⟩
        rcases hq with hq | hq
        · rcases List.mem_cons.1 hq with rfl | hq
          · exact .inr List.mem_cons_self
          · exact .inl hq
        · exact .inr (List.mem_cons_of_mem _ hq)
  obtain ⟨before, after, he, q, hq, hqp⟩ := key [] paths h
  exact ⟨before, after, he, q, hq.resolve_left List.not_mem_nil, hqp⟩

namespace BuildRequest

variable {r : BuildRequest} {modules : Option ModuleGraph}

/-- **What is found wrong with a request is wrong with it**, and if nothing is, it asks for one
linked product at most. -/
theorem check_cases (r : BuildRequest) (modules : Option ModuleGraph) :
    (r.check modules = .ok () ∧ r.linkOutputs.length ≤ 1) ∨
      ∃ e, r.check modules = .error e ∧ r.Refused modules e := by
  generalize hcheck : r.check modules = outcome
  unfold check at hcheck
  simp only [bind, Except.bind, pure, Except.pure, throw, throwThe, MonadExceptOf.throw] at hcheck
  -- The checks in their order, each with the fault that it finds. The last one, of the modules,
  -- is come to in two ways: with a linker, and with nothing to link.
  have hrefused {e : PlanningError} (he : .error e = outcome) (h : r.Refused modules e) :
      (outcome = .ok () ∧ r.linkOutputs.length ≤ 1) ∨
        ∃ e, outcome = .error e ∧ r.Refused modules e := .inr ⟨e, he.symm, h⟩
  split at hcheck
  · rename_i hname
    exact hrefused hcheck hname
  split at hcheck
  · rename_i hinputs
    exact hrefused hcheck (List.isEmpty_iff.1 hinputs)
  split at hcheck
  · rename_i houtputs
    exact hrefused hcheck houtputs
  split at hcheck
  · rename_i hconcurrency
    exact hrefused hcheck hconcurrency
  split at hcheck
  · rename_i p hrepeated
    obtain ⟨before, after, he, hq⟩ := of_firstRepeated?_eq_some hrepeated
    exact hrefused hcheck ⟨before, p, after, he, rfl, hq⟩
  split at hcheck
  · rename_i hmany
    exact hrefused hcheck ⟨hmany, rfl⟩
  rename_i hmany
  have hmodules (hcheck : (if (r.explicitModules && modules.isNone) = true then
      Except.error (PlanningError.malformedRequest .noModuleGraph) else .ok ()) = outcome) :
      (outcome = .ok () ∧ r.linkOutputs.length ≤ 1) ∨
        ∃ e, outcome = .error e ∧ r.Refused modules e := by
    split at hcheck
    · rename_i hnone
      rw [Bool.and_eq_true, Option.isNone_iff_eq_none] at hnone
      exact hrefused hcheck hnone
    · exact .inl ⟨hcheck.symm, Nat.le_of_not_lt hmany⟩
  split at hcheck
  · rename_i output houtput
    split at hcheck
    · rename_i hlinker
      exact hrefused hcheck ⟨Option.isNone_iff_eq_none.1 hlinker, output,
        List.mem_of_mem_head? houtput, rfl⟩
    · exact hmodules hcheck
  · exact hmodules hcheck

/-- **What keeps modules from being put in order is true of them.** -/
theorem refused_of_buildOrder (he : r.explicitModules = true) {m : ModuleGraph}
    (hm : modules = some m) {e : PlanningError} (h : m.buildOrder = .error e) :
    r.Refused modules e := by
  unfold ModuleGraph.buildOrder at h
  split at h
  · rename_i user missing hunknown
    obtain rfl := Except.error.inj h
    unfold ModuleGraph.unknown? at hunknown
    have hmem := List.mem_of_find?_eq_some hunknown
    have hmissing := List.find?_some hunknown
    refine ⟨he, m, hm, by simpa using hmissing, ?_⟩
    rcases List.mem_append.1 hmem with hmem | hmem
    · obtain ⟨⟨name, entry⟩, hentry, hin⟩ := List.mem_flatMap.1 hmem
      obtain ⟨dep, hdep, heq⟩ := List.mem_map.1 hin
      obtain ⟨rfl, rfl⟩ := Prod.mk.inj heq
      exact .inl ⟨entry, OrderedMap.mem_entries_iff.1 hentry, hdep⟩
    · obtain ⟨⟨p, set⟩, hentry, hin⟩ := List.mem_flatMap.1 hmem
      obtain ⟨name, hname, heq⟩ := List.mem_map.1 hin
      obtain ⟨rfl, rfl⟩ := Prod.mk.inj heq
      exact .inr ⟨p, set, OrderedMap.get?_of_mem (e := (p, set)) hentry, rfl, hname⟩
  · cases hsort : m.relation.toposort with
    | ok order =>
      rw [hsort] at h
      cases h
    | error name =>
      rw [hsort] at h
      obtain rfl := Except.error.inj h
      refine ⟨he, m, hm, fun hacyclic => ?_⟩
      obtain ⟨order, horder⟩ := (Digraph.exists_toposort_iff_acyclic m.closed_relation
        m.nodup_nodes_relation).2 hacyclic
      cases hsort.symm.trans horder

/-- In a graph that is planned each job stands behind the jobs it waits for. -/
theorem lt_id_of_plan {g : JobGraph} (h : r.plan modules = .ok g) :
    ∀ job ∈ g.jobs, ∀ p ∈ job.prerequisites.toList, p < job.id := by
  obtain ⟨haccepted, order, horder, hholds⟩ := holds_of_plan h
  intro job hjob p hp
  obtain ⟨draft, hget, he⟩ := hholds.exists_draft hjob
  rw [he] at hp
  exact hholds.proper.lt_of_mem_prerequisites_of_getElem? (inOrder_setting horder) hget hp

/-- **A request is refused for what is true of it.** -/
theorem refused_of_plan {e : PlanningError} (hplan : r.plan modules = .error e) :
    r.Refused modules e := by
  unfold plan at hplan
  rcases r.check_cases modules with ⟨hcheck, hlink⟩ | ⟨fault, hcheck, hrefused⟩
  case inr =>
    rw [hcheck] at hplan
    obtain rfl := Except.error.inj hplan
    exact hrefused
  rw [hcheck] at hplan
  have haccepted := accepted_of_check hcheck
  -- Once the modules are in order, nothing can go wrong any more.
  have hjobs (order : List String) (horder : if r.explicitModules then
      (modules.getD .empty).buildOrder = .ok order else order = [])
      (hfails : (r.setting modules order).jobs.foldlM
        (fun (g : JobGraph) job => (g.add job).map (·.1)) ⟨[]⟩ = .error e) : False := by
    have hs := haccepted.proper horder
    have ho := inOrder_setting horder
    obtain ⟨g, hg⟩ := JobGraph.exists_foldlM_add (g := ⟨[]⟩)
      (fun i draft hdraft p hp => by
        show p < 0 + i
        rw [Nat.zero_add]
        exact hs.lt_of_mem_prerequisites_of_getElem? ho hdraft hp)
      (hs.nodup_keys ho hlink)
    cases hg.symm.trans hfails
  by_cases he : r.explicitModules = true
  · simp only [he, if_true] at hplan
    obtain ⟨m, rfl⟩ := Option.isSome_iff_exists.1 (haccepted.modules he)
    cases horder : m.buildOrder with
    | error fault =>
      rw [Option.getD_some, horder] at hplan
      obtain rfl := Except.error.inj hplan
      exact refused_of_buildOrder he rfl horder
    | ok order =>
      rw [Option.getD_some, horder] at hplan
      exact (hjobs order (by rw [if_pos he]; exact horder) hplan).elim
  · simp only [he] at hplan
    exact (hjobs [] (by rw [if_neg he]) hplan).elim

/-- **Planning succeeds, or says truly what is wrong with the request.** A graph that is planned
has each job behind the jobs it waits for and no key twice. An error tells of a fault of the
request, of a product that no rule makes, of an unknown module or of a circle of modules, and
the fault is there. No other error comes out of planning, whatever the request is. -/
theorem planned_or_refused (r : BuildRequest) (modules : Option ModuleGraph) :
    (∃ g, r.plan modules = .ok g ∧
        (∀ job ∈ g.jobs, ∀ p ∈ job.prerequisites.toList, p < job.id) ∧
        (g.jobs.map (·.key)).Nodup) ∨
      ∃ e, r.plan modules = .error e ∧ r.Refused modules e := by
  cases hplan : r.plan modules with
  | ok g =>
    obtain ⟨-, order, -, hholds⟩ := holds_of_plan hplan
    exact .inl ⟨g, rfl, lt_id_of_plan hplan, hholds.wellFormed.nodup_keys⟩
  | error e => exact .inr ⟨e, rfl, refused_of_plan hplan⟩

end BuildRequest

end IncrementalBuild
