import IncrementalBuild.Proofs.Plan.Jobs

/-!
# What a request calls for again

A request that is planned twice calls for the same jobs, except that other modules may be
imported the second time.
-/

namespace IncrementalBuild

namespace PlanSetting

variable {s s' : PlanSetting}

/-! ## Keys -/

/-- **A job that is planned is known by its own key.** -/
theorem originKeys_eq {draft : Job} (h : draft ∈ s.jobs) : draft.originKeys = [draft.key] := by
  rcases mem_jobs_cases h with h | h | h
  · have : draft.units = [] := by
      have hprepares := prepares_of_mem_preparations h
      unfold Job.Prepares at hprepares
      unfold Job.units
      split at hprepares
      · rename_i hk
        rw [hk]
      · rename_i hk
        rw [hk]
      · exact hprepares.elim
    unfold Job.originKeys
    rw [this]
  · rcases mem_compileJobs_iff.1 h with ⟨-, p, -, rfl⟩ | ⟨-, rfl⟩ <;> rfl
  · unfold Job.originKeys
    rw [(not_of_mem_followers h).2.2]

/-- Whether two settings come from one request. -/
structure Alike (s s' : PlanSetting) : Prop where
  request : s'.request = s.request
  layout : s'.layout = s.layout

/-- What follows the compile jobs has the same keys in the same order. -/
theorem Alike.keys_followers (h : s.Alike s') :
    (s'.mergeJobs ++ (s'.interfaceJobs ++ s'.linkJobs)).map (·.key)
      = (s.mergeJobs ++ (s.interfaceJobs ++ s.linkJobs)).map (·.key) := by
  have hmerge : s'.mergeJobs.map (·.key) = s.mergeJobs.map (·.key) := by
    unfold mergeJobs
    rw [h.request]
    split <;> rfl
  have hinterface : s'.interfaceJobs.map (·.key) = s.interfaceJobs.map (·.key) := by
    unfold interfaceJobs
    rw [h.request]
    split <;> rfl
  have hlink : s'.linkJobs.map (·.key) = s.linkJobs.map (·.key) := by
    unfold linkJobs
    rw [h.request, h.layout]
    split
    · rfl
    · rw [List.map_map, List.map_map]
      rfl
  rw [List.map_append, List.map_append, hmerge, hinterface, hlink, List.map_append,
    List.map_append]

/-- **A key that one request calls for once it calls for again**, unless it is that of a
module which is not built any more. -/
theorem Alike.exists_key (h : s.Alike s') (hs : s'.Proper) {draft : Job} (hd : draft ∈ s.jobs) :
    (∃ other ∈ s'.jobs, other.key = draft.key) ∨
      ∃ name ∈ s.moduleOrder, draft.key = .buildModule name ∧ name ∉ s'.moduleOrder := by
  rcases mem_jobs_cases hd with hd | hd | hd
  · rcases List.mem_append.1 hd with hd | hd
    · obtain ⟨header, hheader, rfl⟩ := List.mem_map.1 hd
      refine .inl ⟨_, mem_jobs_of_mem_preparations (List.mem_append_left _
        (List.mem_map.2 ⟨header, ?_, rfl⟩)), rfl⟩
      rw [h.request]
      exact hheader
    · obtain ⟨name, hmem, m, -, rfl⟩ := mem_moduleJobs_iff.1 hd
      by_cases hbuilt : name ∈ s'.moduleOrder
      · have hknown := hs.known name hbuilt
        rw [← OrderedMap.isSome_get?] at hknown
        obtain ⟨m', hm'⟩ := Option.isSome_iff_exists.1 hknown
        exact .inl ⟨s'.moduleJob name m', mem_jobs_of_mem_preparations (List.mem_append_right _
          (mem_moduleJobs_iff.2 ⟨name, hbuilt, m', hm', rfl⟩)), rfl⟩
      · exact .inr ⟨name, hmem, rfl, hbuilt⟩
  · left
    rcases mem_compileJobs_iff.1 hd with ⟨hmode, p, hp, rfl⟩ | ⟨hmode, rfl⟩
    · refine ⟨s'.inputJob p, mem_jobs_of_mem_compileJobs (mem_compileJobs_iff.2 (.inl ?_)), rfl⟩
      rw [h.request]
      exact ⟨hmode, p, hp, rfl⟩
    · refine ⟨s'.wholeModuleJob, mem_jobs_of_mem_compileJobs (mem_compileJobs_iff.2 (.inr ?_)), ?_⟩
      · rw [h.request]
        exact ⟨hmode, rfl⟩
      · show JobKey.compileModule s'.request.moduleName = .compileModule s.request.moduleName
        rw [h.request]
  · left
    have hkey : draft.key ∈
        (s'.mergeJobs ++ (s'.interfaceJobs ++ s'.linkJobs)).map (·.key) := by
      rw [h.keys_followers]
      exact List.mem_map_of_mem hd
    obtain ⟨other, ho, hkey⟩ := List.mem_map.1 hkey
    exact ⟨other, mem_jobs_of_mem_followers ho, hkey⟩

/-- Behind the compile jobs stands the job that merges, if there is one. -/
theorem getElem?_merge {draft : Job} (h : s.mergeJobs = [draft]) :
    s.jobs[s.headerJobs.length + s.moduleJobs.length + s.compileJobs.length]? = some draft := by
  have hlength : s.preparations.length = s.headerJobs.length + s.moduleJobs.length :=
    List.length_append
  rw [jobs_eq, ← hlength, List.getElem?_append_right (Nat.le_add_right _ _),
    List.getElem?_append_right (by omega), h]
  simp

end PlanSetting

/-- The jobs of a request are known by their own keys. -/
theorem JobGraph.Holds.originKeys_eq {g : JobGraph} {s : PlanSetting} (h : g.Holds s) :
    ∀ job ∈ g.jobs, job.originKeys = [job.key] := by
  intro job hjob
  obtain ⟨draft, hget, he⟩ := h.exists_draft hjob
  have hkeys : draft.originKeys = [draft.key] :=
    PlanSetting.originKeys_eq (List.mem_of_getElem? hget)
  rw [he]
  exact hkeys

end IncrementalBuild
