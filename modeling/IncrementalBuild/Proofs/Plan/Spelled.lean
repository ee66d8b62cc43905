import IncrementalBuild.Proofs.Command
import IncrementalBuild.Proofs.Plan.Batch
import IncrementalBuild.Proofs.Plan.Jobs

/-!
# Planned commands say what they do

The command of a planned job names the inputs that the job compiles one by one, the places
of their records, and its products, as long as no word that goes into a command is spelled
like a flag of single inputs. This stays true when jobs are gathered in batches.
-/

namespace IncrementalBuild

open Command

/-- **Whether the command of a job names what the job compiles and writes.** -/
structure Job.Spelled (job : Job) : Prop where
  splits : ∃ shared pairs, job.command.Splits shared pairs
  primaries : job.command.valuesOf primaryFlag = job.units.map (·.primary.text)
  records : (job.command.valuesOf recordFlag).map some
    = job.units.map fun u => u.record.map (·.path.text)
  outputs : (job.command.valuesOf outputFlag ++ job.command.valuesOf recordFlag).Perm
    (job.outputs.map (·.path.text))

/-- **Whether no word of a planned command is spelled like a flag of single inputs.** -/
structure BuildRequest.PlainWords (r : BuildRequest) (g : JobGraph) : Prop where
  arguments : ∀ arg ∈ r.compilerArgs, isUnitFlag arg = false
  moduleName : isUnitFlag r.moduleName = false
  modules : ∀ job ∈ g.jobs, ∀ name, job.kind = .buildModule name → isUnitFlag name = false
  paths : ∀ job ∈ g.jobs, ∀ a ∈ job.inputs ++ job.outputs, isUnitFlag a.path.text = false

/-- The name that a job passes on to the building of a module. -/
def JobKind.builtName? : JobKind → Option String
  | .buildModule name => some name
  | _ => none

/-- Only a job that builds a module builds one by name. -/
theorem JobKind.builtName?_eq_some_iff {kind : JobKind} {name : String} :
    kind.builtName? = some name ↔ kind = .buildModule name := by
  cases kind <;> simp [builtName?]

/-- What plain words are, without the lists: no argument, no module's name and no path is spelled
like a flag. -/
theorem BuildRequest.plainWords_iff {r : BuildRequest} {g : JobGraph} :
    r.PlainWords g ↔ (∀ arg ∈ r.compilerArgs, isUnitFlag arg = false) ∧
      isUnitFlag r.moduleName = false ∧
      (∀ job ∈ g.jobs, ∀ name ∈ job.kind.builtName?, isUnitFlag name = false) ∧
      ∀ job ∈ g.jobs, ∀ a ∈ job.inputs ++ job.outputs, isUnitFlag a.path.text = false := by
  simp only [Option.mem_def, JobKind.builtName?_eq_some_iff]
  exact ⟨fun h => ⟨h.arguments, h.moduleName, h.modules, h.paths⟩,
    fun h => ⟨h.1, h.2.1, h.2.2.1, h.2.2.2⟩⟩

instance (r : BuildRequest) (g : JobGraph) : Decidable (r.PlainWords g) :=
  decidable_of_iff' _ BuildRequest.plainWords_iff

namespace PlanSetting

/-- The flags and values that name products. -/
def productPairs (products : List Artifact) : List (String × String) :=
  products.map fun a => (outputFlag, a.path.text)

/-- Pairs of the output flag and a product are written out like the products of a job. -/
theorem unitArgs_productPairs (products : List Artifact) :
    unitArgs (productPairs products) = products.flatMap (flagged outputFlag) := by
  unfold unitArgs productPairs flagged
  rw [List.flatMap_map]

/-- Paths that are not spelled like flags are arguments that are none. -/
theorem isUnitFlag_pathArgs {as : List Artifact}
    (h : ∀ a ∈ as, isUnitFlag a.path.text = false) :
    ∀ arg ∈ pathArgs as, isUnitFlag arg = false := by
  intro arg harg
  obtain ⟨a, ha, rfl⟩ := List.mem_map.1 harg
  exact h a ha

/-- The products that a flag is paired with are all of them or none. -/
theorem filter_productPairs (products : List Artifact) (flag : String) :
    ((productPairs products).filter (·.1 == flag)).map (·.2)
      = if outputFlag == flag then products.map (·.path.text) else [] := by
  unfold productPairs
  rw [List.filter_map, List.map_map]
  by_cases h : (outputFlag == flag) = true <;> simp [Function.comp_def, h]

/-- A job without units is spelled if its products stand behind the shared arguments. -/
theorem spelled_of_products {job : Job} (shared : List String) (hunits : job.units = [])
    (hargs : job.command.args = shared ++ job.outputs.flatMap (flagged outputFlag))
    (hshared : ∀ arg ∈ shared, isUnitFlag arg = false)
    (houtputs : ∀ a ∈ job.outputs, isUnitFlag a.path.text = false) : job.Spelled := by
  have hsplits : job.command.Splits shared (productPairs job.outputs) := by
    refine ⟨by rw [hargs, unitArgs_productPairs], hshared, fun p hp => ?_, fun p hp => ?_⟩
    · obtain ⟨a, -, rfl⟩ := List.mem_map.1 hp
      rfl
    · obtain ⟨a, ha, rfl⟩ := List.mem_map.1 hp
      exact houtputs a ha
  have hvalues {flag : String} (hflag : isUnitFlag flag = true) :=
    (hsplits.valuesOf_eq hflag).trans (filter_productPairs job.outputs flag)
  refine ⟨⟨_, _, hsplits⟩, ?_, ?_, ?_⟩
  · rw [hvalues rfl, hunits]
    rfl
  · rw [hvalues rfl, hunits]
    rfl
  · rw [hvalues rfl, hvalues rfl]
    exact .of_eq (List.append_nil _)

variable {s : PlanSetting}

/-- The shared arguments of a compile job are no flags of single inputs. -/
theorem isUnitFlag_compileArgs {modeArgs : List String} {sources : List Path}
    (hmode : ∀ arg ∈ modeArgs, isUnitFlag arg = false)
    (hname : isUnitFlag s.request.moduleName = false)
    (hargs : ∀ arg ∈ s.request.compilerArgs, isUnitFlag arg = false)
    (hsources : ∀ p ∈ s.request.sourcePaths, isUnitFlag p.text = false)
    (hcontext : ∀ a ∈ s.compileContext sources, isUnitFlag a.path.text = false) :
    ∀ arg ∈ s.compileArgs modeArgs ++ pathArgs (s.compileContext sources),
      isUnitFlag arg = false := by
  intro arg harg
  simp only [compileArgs, List.mem_append, List.mem_cons, List.not_mem_nil, or_false,
    List.mem_map] at harg
  rcases harg with ((((rfl | h) | rfl | rfl) | h) | ⟨p, hp, rfl⟩) | h
  · rfl
  · exact hmode arg h
  · rfl
  · exact hname
  · exact hargs arg h
  · exact hsources p hp
  · exact isUnitFlag_pathArgs hcontext arg h

/-- The job of an input names the input, its products and its record. -/
theorem spelled_inputJob {p : Path}
    (hshared : ∀ arg ∈ s.compileArgs [] ++ pathArgs (s.compileContext [p]),
      isUnitFlag arg = false)
    (hp : isUnitFlag p.text = false)
    (houtputs : ∀ a ∈ (s.inputJob p).outputs, isUnitFlag a.path.text = false) :
    (s.inputJob p).Spelled := by
  let record := (s.layout.perInput p).record
  -- The arguments of the job are words without flags, and then pairs of a flag and a value.
  have hsplits : (s.inputJob p).command.Splits
      (s.compileArgs [] ++ pathArgs (s.compileContext [p]))
      ((primaryFlag, p.text) :: (productPairs (s.unitProducts p)
        ++ [(recordFlag, record.path.text)])) := by
    refine ⟨?_, hshared, fun q hq => ?_, fun q hq => ?_⟩
    · have happend (l l' : List (String × String)) :
          unitArgs (l ++ l') = unitArgs l ++ unitArgs l' := List.flatMap_append
      rw [unitArgs_cons, happend, unitArgs_productPairs]
      show _ ++ _ ++ _ ++ _ ++ _ = _
      simp [flagged, record]
    · rcases List.mem_cons.1 hq with rfl | hq
      · rfl
      · rcases List.mem_append.1 hq with hq | hq
        · obtain ⟨a, -, rfl⟩ := List.mem_map.1 hq
          rfl
        · obtain rfl := List.mem_singleton.1 hq
          rfl
    · rcases List.mem_cons.1 hq with rfl | hq
      · exact hp
      · rcases List.mem_append.1 hq with hq | hq
        · obtain ⟨a, ha, rfl⟩ := List.mem_map.1 hq
          exact houtputs a (List.mem_append_left _ ha)
        · obtain rfl := List.mem_singleton.1 hq
          exact houtputs record (List.mem_append_right _ List.mem_cons_self)
  -- So what a flag stands for can be read off the pairs.
  have hvalues {flag : String} (hflag : isUnitFlag flag = true) :
      (s.inputJob p).command.valuesOf flag
        = (if primaryFlag == flag then [p.text] else [])
          ++ ((if outputFlag == flag then (s.unitProducts p).map (·.path.text) else [])
            ++ if recordFlag == flag then [record.path.text] else []) := by
    rw [hsplits.valuesOf_eq hflag, List.filter_cons, List.filter_append]
    have hlast : (([(recordFlag, record.path.text)] : List (String × String)).filter
        (·.1 == flag)).map (·.2) = if recordFlag == flag then [record.path.text] else [] := by
      rw [List.filter_cons]
      split <;> rfl
    split <;> rw [← hlast, ← filter_productPairs, ← List.map_append] <;> rfl
  refine ⟨⟨_, _, hsplits⟩, ?_, ?_, ?_⟩
  · rw [hvalues rfl]
    rfl
  · rw [hvalues rfl]
    rfl
  · rw [hvalues rfl, hvalues rfl]
    refine .of_eq ?_
    show ([] ++ (_ ++ [])) ++ ([] ++ ([] ++ _)) = List.map _ (s.unitProducts p ++ [record])
    simp

/-- What is done before anything is compiled is spelled. -/
theorem spelled_of_mem_preparations {draft : Job} (h : draft ∈ s.preparations)
    (hname : ∀ name, draft.kind = .buildModule name → isUnitFlag name = false)
    (hpaths : ∀ a ∈ draft.inputs ++ draft.outputs, isUnitFlag a.path.text = false) :
    draft.Spelled := by
  rcases List.mem_append.1 h with h | h
  · obtain ⟨header, -, rfl⟩ := List.mem_map.1 h
    refine spelled_of_products ["--emit-pch", header.path.text] rfl rfl
      (fun arg harg => ?_) fun a ha => hpaths a (List.mem_append_right _ ha)
    rcases List.mem_cons.1 harg with rfl | harg
    · rfl
    · obtain rfl := List.mem_singleton.1 harg
      exact hpaths _ (List.mem_append_left _ List.mem_cons_self)
  · obtain ⟨name, -, hbuilt⟩ := List.mem_filterMap.1 h
    obtain ⟨m, -, rfl⟩ := Option.map_eq_some_iff.1 hbuilt
    refine spelled_of_products
      (["--build-module", name, m.interfacePath.text]
        ++ pathArgs ((s.builtModules m.dependencies.toList).map (·.2))) rfl rfl
      (fun arg harg => ?_) fun a ha => hpaths a (List.mem_append_right _ ha)
    rcases List.mem_append.1 harg with harg | harg
    · simp only [List.mem_cons, List.not_mem_nil, or_false] at harg
      rcases harg with rfl | rfl | rfl
      · rfl
      · exact hname _ rfl
      · exact hpaths _ (List.mem_append_left _ List.mem_cons_self)
    · exact isUnitFlag_pathArgs (fun a ha => hpaths a
        (List.mem_append_left _ (List.mem_cons_of_mem _ ha))) arg harg

/-- What works on the products of the compile jobs is spelled. -/
theorem spelled_of_mem_followers {draft : Job}
    (h : draft ∈ s.mergeJobs ++ (s.interfaceJobs ++ s.linkJobs))
    (hname : isUnitFlag s.request.moduleName = false)
    (hpaths : ∀ a ∈ draft.inputs ++ draft.outputs, isUnitFlag a.path.text = false) :
    draft.Spelled := by
  have houtputs : ∀ a ∈ draft.outputs, isUnitFlag a.path.text = false := fun a ha =>
    hpaths a (List.mem_append_right _ ha)
  have hinputs : ∀ a ∈ draft.inputs, isUnitFlag a.path.text = false := fun a ha =>
    hpaths a (List.mem_append_left _ ha)
  rcases List.mem_append.1 h with h | h
  · unfold mergeJobs at h
    split at h
    · obtain rfl := List.mem_singleton.1 h
      refine spelled_of_products (["--merge-modules", "--module-name",
        s.request.moduleName] ++ pathArgs (s.request.sourcePaths.map fun p =>
          (s.layout.perInput p).summary)) rfl rfl (fun arg harg => ?_) houtputs
      rcases List.mem_append.1 harg with harg | harg
      · simp only [List.mem_cons, List.not_mem_nil, or_false] at harg
        rcases harg with rfl | rfl | rfl
        · rfl
        · rfl
        · exact hname
      · exact isUnitFlag_pathArgs hinputs arg harg
    · exact absurd h List.not_mem_nil
  rcases List.mem_append.1 h with h | h
  · unfold interfaceJobs at h
    split at h
    · obtain rfl := List.mem_singleton.1 h
      refine spelled_of_products ["--emit-interface", s.layout.mergedModule.path.text]
        rfl rfl (fun arg harg => ?_) houtputs
      rcases List.mem_cons.1 harg with rfl | harg
      · rfl
      · obtain rfl := List.mem_singleton.1 harg
        exact hinputs _ List.mem_cons_self
    · exact absurd h List.not_mem_nil
  · unfold linkJobs at h
    split at h
    · exact absurd h List.not_mem_nil
    · obtain ⟨output, -, rfl⟩ := List.mem_map.1 h
      refine spelled_of_products (linkArgs output ++ pathArgs s.objects
        ++ pathArgs (s.request.libraries.map fun p => (⟨p, .library⟩ : Artifact))) rfl rfl
        (fun arg harg => ?_) houtputs
      rcases List.mem_append.1 harg with harg | harg
      · rcases List.mem_append.1 harg with harg | harg
        · cases output <;> simp [linkArgs] at harg <;> subst harg <;> rfl
        · exact isUnitFlag_pathArgs (fun a ha => hinputs a (List.mem_append_left _ ha)) arg harg
      · exact isUnitFlag_pathArgs (fun a ha => hinputs a (List.mem_append_right _ ha)) arg harg

end PlanSetting

/-- **Every job of a request is spelled.** -/
theorem JobGraph.Holds.spelled {g : JobGraph} {s : PlanSetting} (h : g.Holds s)
    (hwords : s.request.PlainWords g) {job : Job} (hjob : job ∈ g.jobs) : job.Spelled := by
  obtain ⟨draft, hget, he⟩ := h.exists_draft hjob
  have hdraft := List.mem_of_getElem? hget
  have hpaths {draft : Job} (hd : draft ∈ s.jobs) :
      ∀ a ∈ draft.inputs ++ draft.outputs, isUnitFlag a.path.text = false := by
    obtain ⟨id, hid⟩ := h.exists_job hd
    exact hwords.paths { draft with id } hid
  have hspelled : draft.Spelled := by
    rcases PlanSetting.mem_jobs_cases hdraft with hcase | hcase | hcase
    · refine PlanSetting.spelled_of_mem_preparations hcase (fun name hname => ?_) (hpaths hdraft)
      refine hwords.modules job hjob name ?_
      rw [he]
      exact hname
    · have hsources : ∀ p ∈ s.request.sourcePaths, isUnitFlag p.text = false := by
        intro p hp
        cases hmode : s.request.mode with
        | perFile =>
          exact hpaths (PlanSetting.mem_jobs_of_mem_compileJobs
            (PlanSetting.mem_compileJobs_iff.2 (.inl ⟨hmode, p, hp, rfl⟩))) ⟨p, .source⟩
            (List.mem_append_left _ List.mem_cons_self)
        | wholeModule =>
          exact hpaths (PlanSetting.mem_jobs_of_mem_compileJobs
            (PlanSetting.mem_compileJobs_iff.2 (.inr ⟨hmode, rfl⟩))) ⟨p, .source⟩
            (List.mem_append_left _ (List.mem_append_left _ (List.mem_map.2 ⟨p, hp, rfl⟩)))
      rcases PlanSetting.mem_compileJobs_iff.1 hcase with ⟨-, p, hp, rfl⟩ | ⟨-, rfl⟩
      · refine PlanSetting.spelled_inputJob (PlanSetting.isUnitFlag_compileArgs
          (fun arg harg => absurd harg List.not_mem_nil) hwords.moduleName hwords.arguments
          hsources fun a ha => ?_) (hsources p hp) fun a ha => ?_
        · exact hpaths hdraft a (List.mem_append_left _ (List.mem_cons_of_mem _ ha))
        · exact hpaths hdraft a (List.mem_append_right _ ha)
      · refine PlanSetting.spelled_of_products _ rfl rfl (PlanSetting.isUnitFlag_compileArgs
          (fun arg harg => ?_) hwords.moduleName hwords.arguments hsources fun a ha => ?_)
          fun a ha => hpaths hdraft a (List.mem_append_right _ ha)
        · obtain rfl := List.mem_singleton.1 harg
          rfl
        · exact hpaths hdraft a (List.mem_append_left _ (List.mem_append_right _ ha))
    · exact PlanSetting.spelled_of_mem_followers hcase hwords.moduleName (hpaths hdraft)
  rw [he]
  exact ⟨hspelled.splits, hspelled.primaries, hspelled.records, hspelled.outputs⟩

/-- **Gathering keeps commands spelled.** -/
theorem BuildPlan.Gathers.spelled {p p' : BuildPlan} {place : JobId → JobId}
    (h : p.Gathers p' place) (hp : ∀ job ∈ p.graph.jobs, job.Spelled) {job : Job}
    (hjob : job ∈ p'.graph.jobs) : job.Spelled := by
  obtain ⟨first, rest, hgathered⟩ := h.gathered job hjob
  have hmember {m : Job} (hm : m ∈ first :: rest) : m.Spelled :=
    hp m ((hgathered.mem_iff m).1 hm).1
  rcases hgathered.body with ⟨-, he⟩ | ⟨-, -, he⟩
  · have hfirst := hmember List.mem_cons_self
    rw [he]
    exact ⟨hfirst.splits, hfirst.primaries, hfirst.records, hfirst.outputs⟩
  · obtain ⟨c, hmerge, hsplits, hvalues⟩ := exists_merge first.command
      (rest.map (·.command)) fun c hc => by
        have hc : c ∈ (first :: rest).map (·.command) := hc
        obtain ⟨m, hm, rfl⟩ := List.mem_map.1 hc
        exact (hmember hm).splits
    have hcommand : (first.merged rest).command = c := by
      show (Command.merge (first.command :: rest.map (·.command))).getD first.command = c
      rw [hmerge]
      rfl
    have hvalues {flag : String} (hflag : isUnitFlag flag = true) :
        (first.merged rest).command.valuesOf flag
          = (first :: rest).flatMap fun m => m.command.valuesOf flag := by
      rw [hcommand, hvalues flag hflag, ← List.map_cons (f := Job.command), List.flatMap_map]
    have hmerged : (first.merged rest).Spelled := by
      refine ⟨hcommand ▸ hsplits, ?_, ?_, ?_⟩
      · rw [hvalues rfl]
        show _ = List.map _ ((first :: rest).flatMap Job.units)
        rw [List.map_flatMap]
        exact List.flatMap_congr fun m hm => (hmember hm).primaries
      · rw [hvalues rfl]
        show _ = List.map _ ((first :: rest).flatMap Job.units)
        rw [List.map_flatMap, List.map_flatMap]
        exact List.flatMap_congr fun m hm => (hmember hm).records
      · rw [hvalues rfl, hvalues rfl]
        show List.Perm _ (List.map _ ((first :: rest).flatMap (·.outputs)))
        rw [List.map_flatMap]
        exact (List.flatMap_append_perm _ _ _).trans
          (List.Perm.flatMap_left _ fun m hm => (hmember hm).outputs)
    rw [he]
    exact ⟨hmerged.splits, hmerged.primaries, hmerged.records, hmerged.outputs⟩

end IncrementalBuild
