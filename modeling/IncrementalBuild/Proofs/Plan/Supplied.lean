import IncrementalBuild.Proofs.Plan.Modules

/-!
# Planned jobs are supplied

What jobs read, which jobs they wait for, and which words are in their commands is planned in
three lists side by side. They belong together: whatever a job reads that is made in the build
is made by a job it waits for, its command tells the compiler where each product goes, and
every input is named. The products that are asked for are made under the names that the layout
has for them.

Each job is looked at by itself, in the plan's setting. A job waits for numbers, so it has to be
known what stands at them: the job of the header at the first, the jobs of the modules at
theirs, and every compile job somewhere among those that the last jobs wait for.
-/

namespace IncrementalBuild

instance : Std.LawfulEqOrd OutputKind where
  eq_of_compare {a b} h := by
    have hrank : a.rank = b.rank := Std.LawfulEqOrd.eq_of_compare (α := Nat) h
    match a, b, hrank with
    | .object, .object, _ => rfl
    | .module, .module, _ => rfl
    | .interface, .interface, _ => rfl
    | .linked .executable, .linked .executable, _ => rfl
    | .linked .dynamicLibrary, .linked .dynamicLibrary, _ => rfl
    | .linked .staticLibrary, .linked .staticLibrary, _ => rfl

/-- Whether files of a kind are made by jobs for other jobs. -/
def FileType.IsMade : FileType → Prop
  | object => True
  | moduleSummary => True
  | module => True
  | precompiledHeader => True
  | externalModule => True
  | _ => False

/-- The flag that stands before a product in a command. -/
def Artifact.flag (a : Artifact) : String :=
  match a.fileType with
  | .dependencyRecord => Command.recordFlag
  | _ => Command.outputFlag

/-- **Whether the command of a job names what the job reads and writes**, each product right
after its flag. -/
structure Job.Names (job : Job) : Prop where
  outputs : ∀ a ∈ job.outputs, [a.flag, a.path.text] <:+: job.command.args
  inputs : ∀ a ∈ job.inputs, a.path.text ∈ job.command.args

/-- The products that a kind of output calls for. -/
def BuildRequest.productsOf (r : BuildRequest) : OutputKind → List Artifact
  | .object =>
    match r.mode with
    | .perFile => r.sourcePaths.map fun p => (r.layout.perInput p).object
    | .wholeModule => [r.layout.wholeModuleObject]
  | .module => [r.layout.mergedModule]
  | .interface => [r.layout.moduleInterface]
  | .linked output => [r.layout.linked output]

/-- **Whether a graph is complete for a request.** -/
structure JobGraph.Complete (g : JobGraph) (r : BuildRequest) : Prop where
  /-- What is made in the build is made by a job that is waited for. -/
  supplied : ∀ job ∈ g.jobs, ∀ a ∈ job.inputs, a.fileType.IsMade →
    ∃ before ∈ g.jobs, before.id ∈ job.prerequisites.toList ∧ a ∈ before.outputs
  /-- What is asked for is made. -/
  produced : ∀ kind, r.outputs.contains kind = true → ∀ a ∈ r.productsOf kind,
    ∃ job ∈ g.jobs, a ∈ job.outputs
  named : ∀ job ∈ g.jobs, job.Names

namespace PlanSetting

variable {s : PlanSetting}

/-! ## Words of commands -/

/-- A product and its flag stand side by side among the arguments for several products. -/
theorem flagged_infix {flag : String} {a : Artifact} {products : List Artifact} (h : a ∈ products)
    (before after : List String) :
    [flag, a.path.text] <:+: before ++ products.flatMap (flagged flag) ++ after := by
  obtain ⟨l, r, rfl⟩ := List.append_of_mem h
  refine ⟨before ++ l.flatMap (flagged flag), r.flatMap (flagged flag) ++ after, ?_⟩
  simp [flagged]

/-- The path of an artifact is among the arguments for several. -/
theorem mem_pathArgs {a : Artifact} {as : List Artifact} (h : a ∈ as) :
    a.path.text ∈ pathArgs as := List.mem_map_of_mem h

/-- A job without units names what it reads and writes, if its products stand at the end. -/
theorem names_of_products {job : Job} (shared : List String)
    (hargs : job.command.args = shared ++ job.outputs.flatMap (flagged Command.outputFlag))
    (hinputs : ∀ a ∈ job.inputs, a.path.text ∈ shared)
    (houtputs : ∀ a ∈ job.outputs, a.flag = Command.outputFlag) : job.Names := by
  constructor
  · intro a ha
    rw [hargs, houtputs a ha, ← List.append_nil (shared ++ _)]
    exact flagged_infix ha shared []
  · intro a ha
    rw [hargs]
    exact List.mem_append_left _ (hinputs a ha)

/-- What is written when one input is compiled is written behind the flag for products. -/
theorem flag_of_mem_unitProducts {p : Path} {a : Artifact} (h : a ∈ s.unitProducts p) :
    a.flag = Command.outputFlag := by
  unfold unitProducts at h
  rw [List.mem_append, List.mem_ite_nil_right, List.mem_ite_nil_right, List.mem_singleton,
    List.mem_singleton] at h
  rcases h with ⟨-, rfl⟩ | ⟨-, rfl⟩ <;> rfl

/-- What a whole module is compiled to is named by the output flag. -/
theorem flag_of_mem_moduleProducts {a : Artifact} (h : a ∈ s.moduleProducts) :
    a.flag = Command.outputFlag := by
  unfold moduleProducts at h
  rw [List.mem_append, List.mem_ite_nil_right, List.mem_ite_nil_right, List.mem_singleton,
    List.mem_singleton] at h
  rcases h with ⟨-, rfl⟩ | ⟨-, rfl⟩ <;> rfl

/-- A compile job of one input names its input and all that it makes. -/
theorem names_inputJob (p : Path) : (s.inputJob p).Names := by
  let record := (s.layout.perInput p).record
  let shared := s.compileArgs [] ++ pathArgs (s.compileContext [p])
  let products := (s.unitProducts p).flatMap (flagged Command.outputFlag)
  have hargs : (s.inputJob p).command.args = shared ++ [Command.primaryFlag, p.text] ++ products
      ++ flagged Command.recordFlag record := rfl
  refine ⟨fun a ha => ?_, fun a ha => ?_⟩
  · rw [hargs]
    rcases List.mem_append.1 ha with ha | ha
    · rw [flag_of_mem_unitProducts ha]
      exact flagged_infix ha _ _
    · rw [List.mem_singleton.1 ha]
      exact (List.suffix_append _ _).isInfix
  · rw [hargs, List.append_assoc, List.append_assoc]
    rcases List.mem_cons.1 ha with rfl | ha
    · exact List.mem_append_right _ (List.mem_append_left _
        (List.mem_cons_of_mem _ List.mem_cons_self))
    · exact List.mem_append_left _ (List.mem_append_right _ (mem_pathArgs ha))

/-- The compile job of a whole module names its inputs and all that it makes. -/
theorem names_wholeModuleJob : s.wholeModuleJob.Names := by
  refine names_of_products (s.compileArgs ["--whole-module"]
    ++ pathArgs (s.compileContext s.request.sourcePaths)) rfl (fun a ha => ?_)
    fun a => flag_of_mem_moduleProducts
  rcases List.mem_append.1 ha with ha | ha
  · obtain ⟨p, hp, rfl⟩ := List.mem_map.1 ha
    exact List.mem_append_left _ (List.mem_append_right _ (List.mem_map_of_mem hp))
  · exact List.mem_append_right _ (mem_pathArgs ha)

/-- **Every planned command names what its job reads and writes.** -/
theorem names_of_mem {draft : Job} (h : draft ∈ s.jobs) : draft.Names := by
  simp only [jobs, List.mem_append] at h
  rcases h with ((((hd | hd) | hd) | hd) | hd) | hd
  · obtain ⟨header, -, rfl⟩ := List.mem_map.1 hd
    refine names_of_products ["--emit-pch", header.path.text] rfl (fun a ha => ?_) fun a ha => ?_
    · rw [List.mem_singleton.1 ha]
      exact List.mem_cons_of_mem _ List.mem_cons_self
    · rw [List.mem_singleton.1 ha]
      rfl
  · obtain ⟨name, -, m, -, rfl⟩ := mem_moduleJobs_iff.1 hd
    refine names_of_products (["--build-module", name, m.interfacePath.text]
      ++ pathArgs ((s.builtModules m.dependencies.toList).map (·.2))) rfl (fun a ha => ?_)
      fun a ha => ?_
    · rcases List.mem_cons.1 ha with rfl | ha
      · exact List.mem_append_left _ (by simp)
      · exact List.mem_append_right _ (mem_pathArgs ha)
    · rw [List.mem_singleton.1 ha]
      rfl
  · rcases mem_compileJobs_iff.1 hd with ⟨-, p, -, rfl⟩ | ⟨-, rfl⟩
    · exact names_inputJob p
    · exact names_wholeModuleJob
  · unfold mergeJobs at hd
    split at hd
    · obtain rfl := List.mem_singleton.1 hd
      refine names_of_products (["--merge-modules", "--module-name", s.request.moduleName]
        ++ pathArgs (s.request.sourcePaths.map fun p => (s.layout.perInput p).summary)) rfl
        (fun a ha => List.mem_append_right _ (mem_pathArgs ha)) fun a ha => ?_
      rw [List.mem_singleton.1 ha]
      rfl
    · exact absurd hd List.not_mem_nil
  · unfold interfaceJobs at hd
    split at hd
    · obtain rfl := List.mem_singleton.1 hd
      refine names_of_products ["--emit-interface", s.layout.mergedModule.path.text] rfl
        (fun a ha => ?_) fun a ha => ?_
      · rw [List.mem_singleton.1 ha]
        exact List.mem_cons_of_mem _ List.mem_cons_self
      · rw [List.mem_singleton.1 ha]
        rfl
    · exact absurd hd List.not_mem_nil
  · unfold linkJobs at hd
    split at hd
    · exact absurd hd List.not_mem_nil
    · obtain ⟨output, -, rfl⟩ := List.mem_map.1 hd
      refine names_of_products (linkArgs output ++ pathArgs s.objects
        ++ pathArgs (s.request.libraries.map (⟨·, .library⟩))) rfl (fun a ha => ?_) fun a ha => ?_
      · rcases List.mem_append.1 ha with ha | ha
        · exact List.mem_append_left _ (List.mem_append_right _ (mem_pathArgs ha))
        · exact List.mem_append_right _ (mem_pathArgs ha)
      · rw [List.mem_singleton.1 ha]
        rfl

/-! ## Jobs behind numbers -/

/-- **Whether an artifact is made by a job with one of some numbers.** -/
def MadeBy (s : PlanSetting) (ids : List JobId) (a : Artifact) : Prop :=
  ∃ id ∈ ids, ∃ before, s.jobs[id]? = some before ∧ a ∈ before.outputs

/-- What some jobs make is made by more jobs as well. -/
theorem MadeBy.mono {ids ids' : List JobId} {a : Artifact} (h : s.MadeBy ids a)
    (hids : ∀ id ∈ ids, id ∈ ids') : s.MadeBy ids' a := by
  obtain ⟨id, hid, hmade⟩ := h
  exact ⟨id, hids id hid, hmade⟩

/-- The compiled header is made by the first job. -/
theorem madeBy_headerIds {a : Artifact} (h : a ∈ s.headerArtifacts) : s.MadeBy s.headerIds a := by
  obtain ⟨i, hi, rfl⟩ := List.mem_map.1 h
  obtain ⟨job, hone, houtputs⟩ : ∃ job, s.headerJobs = [job] ∧
      job.outputs = [s.layout.precompiledHeader i.path] := by
    unfold headerJobs
    rw [Option.mem_toList.1 hi]
    exact ⟨_, rfl, rfl⟩
  refine ⟨0, ?_, job, ?_, ?_⟩
  · rw [headerIds, hone]
    exact List.mem_singleton_self 0
  · unfold jobs
    rw [hone]
    rfl
  · rw [houtputs]
    exact List.mem_singleton_self _

/-- What is built for some modules stands under their numbers. -/
theorem exists_of_mem_builtModules {names : List String} {b : JobId × Artifact}
    (h : b ∈ s.builtModules names) :
    ∃ name ∈ s.moduleOrder, b = (s.moduleNumber name, s.layout.externalModule name) := by
  obtain ⟨name, -, hname⟩ := List.mem_filterMap.1 h
  obtain ⟨id, hid, rfl⟩ := Option.map_eq_some_iff.1 hname
  have hmem : name ∈ s.moduleOrder := by
    by_contra hno
    unfold moduleId? at hid
    rw [List.idxOf?_eq_none_iff.2 hno] at hid
    cases hid
  rw [moduleId?_eq hmem] at hid
  exact ⟨name, hmem, by rw [Option.some.inj hid]⟩

/-- **A module that is built is made by the job under its number.** -/
theorem Proper.madeBy_builtModules (hs : s.Proper) {names : List String} {a : Artifact}
    (h : a ∈ (s.builtModules names).map (·.2)) :
    s.MadeBy ((s.builtModules names).map (·.1)) a := by
  obtain ⟨b, hb, rfl⟩ := List.mem_map.1 h
  obtain ⟨name, hname, he⟩ := exists_of_mem_builtModules hb
  have hknown := hs.known name hname
  rw [← OrderedMap.isSome_get?] at hknown
  obtain ⟨m, hm⟩ := Option.isSome_iff_exists.1 hknown
  refine ⟨b.1, List.mem_map_of_mem hb, s.moduleJob name m, ?_, ?_⟩
  · rw [he]
    exact hs.getElem?_moduleNumber hname hm
  · rw [he]
    exact List.mem_singleton_self _

/-- **What compiling reads besides the sources is made by the jobs it waits for.** -/
theorem Proper.madeBy_compilePrerequisites (hs : s.Proper) {sources : List Path} {a : Artifact}
    (h : a ∈ s.compileContext sources) : s.MadeBy (s.compilePrerequisites sources) a := by
  rcases List.mem_append.1 h with h | h
  · exact (madeBy_headerIds h).mono fun id => List.mem_append_left _
  · refine MadeBy.mono ?_ fun id => List.mem_append_right s.headerIds
    unfold neededModules at h ⊢
    split at h
    · rename_i he
      rw [if_pos he]
      exact hs.madeBy_builtModules h
    · exact absurd h List.not_mem_nil

/-- **What a compile job writes is made by the jobs that the last jobs wait for.** -/
theorem madeBy_compileIds {draft : Job} {a : Artifact} (h : draft ∈ s.compileJobs)
    (ha : a ∈ draft.outputs) : s.MadeBy s.compileIds a := by
  obtain ⟨id, hid⟩ := List.getElem?_of_mem (mem_jobs_of_mem_compileJobs h)
  exact ⟨id, (mem_compileIds_iff hid).2 (stage_of_mem_compileJobs h), draft, hid, ha⟩

/-- Where objects are needed, every input has one. -/
theorem object_mem_outputs (hneeds : s.request.needsObjects = true) (p : Path) :
    (s.layout.perInput p).object ∈ (s.inputJob p).outputs := by
  refine List.mem_append_left _ (List.mem_append_left _ ?_)
  rw [if_pos hneeds]
  exact List.mem_singleton_self _

/-- Where a module is needed, every input has a summary to merge. -/
theorem summary_mem_outputs (hneeds : s.request.needsModule = true) (p : Path) :
    (s.layout.perInput p).summary ∈ (s.inputJob p).outputs := by
  refine List.mem_append_left _ (List.mem_append_right _ ?_)
  rw [if_pos hneeds]
  exact List.mem_singleton_self _

/-- Where objects are needed, a whole module has one object. -/
theorem wholeModuleObject_mem_outputs (hneeds : s.request.needsObjects = true) :
    s.layout.wholeModuleObject ∈ s.wholeModuleJob.outputs := by
  refine List.mem_append_left _ ?_
  rw [if_pos hneeds]
  exact List.mem_singleton_self _

/-- Where a module is needed, compiling a whole module makes it. -/
theorem mergedModule_mem_outputs (hneeds : s.request.needsModule = true) :
    s.layout.mergedModule ∈ s.wholeModuleJob.outputs := by
  refine List.mem_append_right _ ?_
  rw [if_pos hneeds]
  exact List.mem_singleton_self _

/-- Objects are made by the compile jobs. -/
theorem madeBy_of_mem_objects {a : Artifact} (h : a ∈ s.objects) : s.MadeBy s.compileIds a := by
  unfold objects at h
  split at h
  case isFalse => exact absurd h List.not_mem_nil
  rename_i hneeds
  split at h
  · rename_i hmode
    obtain ⟨p, hp, rfl⟩ := List.mem_map.1 h
    exact madeBy_compileIds (mem_compileJobs_iff.2 (.inl ⟨hmode, p, hp, rfl⟩))
      (object_mem_outputs hneeds p)
  · rename_i hmode
    rw [List.mem_singleton.1 h]
    exact madeBy_compileIds (mem_compileJobs_iff.2 (.inr ⟨hmode, rfl⟩))
      (wholeModuleObject_mem_outputs hneeds)

/-- **Where an interface is wanted, the module is made by the job that is waited for.** -/
theorem madeBy_moduleIds (hwants : s.request.wantsInterface = true) :
    s.MadeBy s.moduleIds s.layout.mergedModule := by
  have hneeds := needsModule_of_wantsInterface hwants
  unfold moduleIds
  split
  · rename_i hmode
    obtain ⟨merge, hmerge, houtputs⟩ := exists_mergeJobs hmode hneeds
    refine ⟨_, List.mem_singleton_self _, merge, getElem?_merge hmerge, ?_⟩
    rw [houtputs]
    exact List.mem_singleton_self _
  · rename_i hmode
    exact madeBy_compileIds (mem_compileJobs_iff.2 (.inr ⟨hmode, rfl⟩))
      (mergedModule_mem_outputs hneeds)

/-- **Whatever a job reads that is made in the build is made by a job it waits for.** -/
theorem Proper.madeBy_prerequisites (hs : s.Proper) {draft : Job} (h : draft ∈ s.jobs)
    {a : Artifact} (ha : a ∈ draft.inputs) (hmade : a.fileType.IsMade) :
    s.MadeBy draft.prerequisites.toList a := by
  -- Every kind of job waits for a set made from a list, and lists are what the lemmas before
  -- speak of.
  have hwaits {ids : List JobId} (hids : draft.prerequisites = OrderedSet.ofList ids)
      (h : s.MadeBy ids a) : s.MadeBy draft.prerequisites.toList a :=
    h.mono fun id hid => by
      rw [hids]
      exact OrderedSet.mem_toList_ofList.2 hid
  simp only [jobs, List.mem_append] at h
  rcases h with ((((hd | hd) | hd) | hd) | hd) | hd
  -- A header is made from its source.
  · obtain ⟨header, -, rfl⟩ := List.mem_map.1 hd
    rw [List.mem_singleton.1 ha] at hmade
    exact hmade.elim
  -- A module is made from its interface and the modules that it depends on.
  · obtain ⟨name, -, m, -, rfl⟩ := mem_moduleJobs_iff.1 hd
    rcases List.mem_cons.1 ha with rfl | ha
    · exact hmade.elim
    · exact hwaits rfl (hs.madeBy_builtModules ha)
  -- Sources are not made; what else a compile job reads is the header and modules.
  · have hsource {p : Path} : ¬ (⟨p, .source⟩ : Artifact).fileType.IsMade := id
    rcases mem_compileJobs_iff.1 hd with ⟨-, p, -, rfl⟩ | ⟨-, rfl⟩
    · rcases List.mem_cons.1 ha with rfl | ha
      · exact absurd hmade hsource
      · exact hwaits rfl (hs.madeBy_compilePrerequisites ha)
    · rcases List.mem_append.1 ha with ha | ha
      · obtain ⟨p, -, rfl⟩ := List.mem_map.1 ha
        exact absurd hmade hsource
      · exact hwaits rfl (hs.madeBy_compilePrerequisites ha)
  -- Modules are merged from the summaries that the compile jobs write.
  · refine hwaits (stage_of_mem_mergeJobs hd).2 ?_
    unfold mergeJobs at hd
    split at hd
    case isFalse => exact absurd hd List.not_mem_nil
    rename_i hmerges
    rw [Bool.and_eq_true, beq_iff_eq] at hmerges
    obtain rfl := List.mem_singleton.1 hd
    obtain ⟨p, hp, rfl⟩ := List.mem_map.1 ha
    exact madeBy_compileIds (mem_compileJobs_iff.2 (.inl ⟨hmerges.2, p, hp, rfl⟩))
      (summary_mem_outputs hmerges.1 p)
  -- The interface is written from the module.
  · refine hwaits (stage_of_mem_interfaceJobs hd).2 ?_
    have hwants := wantsInterface_of_mem_interfaceJobs hd
    unfold interfaceJobs at hd
    rw [if_pos hwants] at hd
    obtain rfl := List.mem_singleton.1 hd
    rw [List.mem_singleton.1 ha]
    exact madeBy_moduleIds hwants
  -- Objects are linked, and libraries, which are not made.
  · refine hwaits (stage_of_mem_linkJobs hd).2 ?_
    unfold linkJobs at hd
    split at hd
    · exact absurd hd List.not_mem_nil
    obtain ⟨output, -, rfl⟩ := List.mem_map.1 hd
    rcases List.mem_append.1 ha with ha | ha
    · exact madeBy_of_mem_objects ha
    · obtain ⟨p, -, rfl⟩ := List.mem_map.1 ha
      exact hmade.elim

/-! ## Products that are asked for -/

/-- **Whether some job makes an artifact.** -/
def Makes (s : PlanSetting) (a : Artifact) : Prop := ∃ draft ∈ s.jobs, a ∈ draft.outputs

/-- What a compile job makes is made. -/
theorem makes_of_compile {draft : Job} {a : Artifact} (h : draft ∈ s.compileJobs)
    (ha : a ∈ draft.outputs) : s.Makes a :=
  ⟨draft, mem_jobs_of_mem_compileJobs h, ha⟩

/-- What a following job makes is made. -/
theorem makes_of_follower {draft : Job} {a : Artifact}
    (h : draft ∈ s.mergeJobs ++ (s.interfaceJobs ++ s.linkJobs)) (ha : a ∈ draft.outputs) :
    s.Makes a :=
  ⟨draft, mem_jobs_of_mem_followers h, ha⟩

/-- Objects are made for whatever is linked from objects, in both modes. -/
theorem makes_object (hneeds : s.request.needsObjects = true) :
    match s.request.mode with
    | .perFile => ∀ p ∈ s.request.sourcePaths, s.Makes (s.layout.perInput p).object
    | .wholeModule => s.Makes s.layout.wholeModuleObject := by
  split
  · rename_i hmode
    exact fun p hp => makes_of_compile (mem_compileJobs_iff.2 (.inl ⟨hmode, p, hp, rfl⟩))
      (object_mem_outputs hneeds p)
  · rename_i hmode
    exact makes_of_compile (mem_compileJobs_iff.2 (.inr ⟨hmode, rfl⟩))
      (wholeModuleObject_mem_outputs hneeds)

/-- The merged module is made where one is needed, by merging or with the whole module. -/
theorem makes_mergedModule (hneeds : s.request.needsModule = true) :
    s.Makes s.layout.mergedModule := by
  cases hmode : s.request.mode with
  | perFile =>
    obtain ⟨merge, hmerge, houtputs⟩ := exists_mergeJobs hmode hneeds
    have hmem : merge ∈ s.mergeJobs := by
      rw [hmerge]
      exact List.mem_singleton_self merge
    refine makes_of_follower (List.mem_append_left _ hmem) ?_
    rw [houtputs]
    exact List.mem_singleton_self _
  | wholeModule =>
    exact makes_of_compile (mem_compileJobs_iff.2 (.inr ⟨hmode, rfl⟩))
      (mergedModule_mem_outputs hneeds)

/-- An interface is made where one is wanted. -/
theorem makes_moduleInterface (hwants : s.request.wantsInterface = true) :
    s.Makes s.layout.moduleInterface := by
  obtain ⟨draft, hd, houtputs⟩ : ∃ draft ∈ s.interfaceJobs,
      draft.outputs = [s.layout.moduleInterface] := by
    unfold interfaceJobs
    rw [if_pos hwants]
    exact ⟨_, List.mem_singleton_self _, rfl⟩
  refine makes_of_follower (List.mem_append_right _ (List.mem_append_left _ hd)) ?_
  rw [houtputs]
  exact List.mem_singleton_self _

/-- A program or library is made where there is a linker. -/
theorem makes_linked {output : LinkOutput} (h : output ∈ s.request.linkOutputs)
    (hlinker : s.request.tools.linker.isSome = true) : s.Makes (s.layout.linked output) := by
  obtain ⟨linker, htool⟩ := Option.isSome_iff_exists.1 hlinker
  obtain ⟨draft, hd, houtputs⟩ : ∃ draft ∈ s.linkJobs,
      draft.outputs = [s.layout.linked output] := by
    unfold linkJobs
    rw [htool]
    exact ⟨_, List.mem_map.2 ⟨output, h, rfl⟩, rfl⟩
  refine makes_of_follower (List.mem_append_right _ (List.mem_append_right _ hd)) ?_
  rw [houtputs]
  exact List.mem_singleton_self _

/-- **Every product that is asked for is made by some job**, if there is a linker for what is
linked. -/
theorem makes_of_mem_productsOf (hlayout : s.layout = s.request.layout)
    (hlinker : s.request.linkOutputs ≠ [] → s.request.tools.linker.isSome = true)
    {kind : OutputKind} (hkind : s.request.outputs.contains kind = true) {a : Artifact}
    (ha : a ∈ s.request.productsOf kind) : s.Makes a := by
  unfold BuildRequest.productsOf at ha
  rw [← hlayout] at ha
  cases kind with
  | object =>
    have hmakes := s.makes_object (by rw [BuildRequest.needsObjects, hkind, Bool.true_or])
    cases hmode : s.request.mode with
    | perFile =>
      rw [hmode] at ha hmakes
      obtain ⟨p, hp, rfl⟩ := List.mem_map.1 ha
      exact hmakes p hp
    | wholeModule =>
      rw [hmode] at ha hmakes
      rw [List.mem_singleton.1 ha]
      exact hmakes
  | module =>
    rw [List.mem_singleton.1 ha]
    exact makes_mergedModule (by rw [BuildRequest.needsModule, hkind, Bool.true_or])
  | interface =>
    rw [List.mem_singleton.1 ha]
    exact makes_moduleInterface hkind
  | linked output =>
    have hlinked : output ∈ s.request.linkOutputs :=
      List.mem_filterMap.2 ⟨_, OrderedSet.contains_iff_mem_toList.1 hkind, rfl⟩
    rw [List.mem_singleton.1 ha]
    exact makes_linked hlinked (hlinker (List.ne_nil_of_mem hlinked))

end PlanSetting

/-- **Planned graphs are complete**: every job waits for whatever makes what it reads, every
product that is asked for is made under its name, and every command names what its job reads
and writes. -/
theorem BuildRequest.complete_of_plan {r : BuildRequest} {modules : Option ModuleGraph}
    {g : JobGraph} (h : r.plan modules = .ok g) : g.Complete r := by
  obtain ⟨haccepted, order, horder, hholds⟩ := holds_of_plan h
  refine ⟨fun job hjob a ha hmade => ?_, fun kind hkind a ha => ?_, fun job hjob => ?_⟩
  · obtain ⟨draft, hget, he⟩ := hholds.exists_draft hjob
    rw [he] at ha
    obtain ⟨id, hid, before, hbefore, houtputs⟩ :=
      hholds.proper.madeBy_prerequisites (List.mem_of_getElem? hget) ha hmade
    have hplace : g.job? id = some { before with id } := by
      rw [hholds.job?_eq, hbefore]
      rfl
    refine ⟨_, JobGraph.mem_of_job? hplace, ?_, houtputs⟩
    rw [he]
    exact hid
  · obtain ⟨draft, hd, ha⟩ := PlanSetting.makes_of_mem_productsOf
      (s := r.setting modules order) rfl haccepted.linker hkind ha
    obtain ⟨id, hid⟩ := hholds.exists_job hd
    exact ⟨_, hid, ha⟩
  · obtain ⟨draft, hget, he⟩ := hholds.exists_draft hjob
    have hnames := PlanSetting.names_of_mem (List.mem_of_getElem? hget)
    rw [he]
    exact ⟨hnames.outputs, hnames.inputs⟩

namespace EveryKind

/-- The module is merged from what the compile jobs write, its interface is made from the
module, and the program is linked from the objects. -/
theorem complete_of_plan_everyKind : ∃ g, request.plan (some modules) = .ok g ∧
    g.Complete request ∧
    (g.jobs.drop 5).map (fun job => (job.command.args, job.prerequisites.toList))
      = [(["--merge-modules", "--module-name", "App", "out/a.summary", "out/b.summary", "-o",
          "out/App.module"], [3, 4]),
        (["--emit-interface", "out/App.module", "-o", "out/App.interface"], [5]),
        (["out/a.o", "out/b.o", "m.a", "-o", "out/App"], [3, 4])] := by
  obtain ⟨g, hplan, hjobs⟩ := exists_eq_ok_of_toOption (x := request.plan (some modules))
    (f := fun g => (g.jobs.drop 5).map fun job => (job.command.args, job.prerequisites.toList))
    (b := [(["--merge-modules", "--module-name", "App", "out/a.summary", "out/b.summary", "-o",
        "out/App.module"], [3, 4]),
      (["--emit-interface", "out/App.module", "-o", "out/App.interface"], [5]),
      (["out/a.o", "out/b.o", "m.a", "-o", "out/App"], [3, 4])]) (by decide +kernel)
  exact ⟨g, hplan, BuildRequest.complete_of_plan hplan, hjobs⟩

end EveryKind

end IncrementalBuild
