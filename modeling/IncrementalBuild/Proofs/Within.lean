import IncrementalBuild.Proofs.Ending
import IncrementalBuild.Proofs.Prepare

/-!
# A build leaves nothing but what it tracks

A build starts with a state that knows of no file but the tracked ones. Whatever it learns
afterwards, it learns of inputs: the tracker takes over the records of units and makes
dirty what a job compiles. So the state that a build leaves knows of tracked files alone,
and as long as no record declares an empty key, neither does the state.
-/

namespace IncrementalBuild

namespace Tracker

variable {ω : Type} [FileSystem ω] {r : BuildRequest} {first t : Tracker} {job : Job}

/-- Whether the records of a job declare no empty key. -/
def KeyedRecords (world : ω) (job : Job) : Prop :=
  ∀ u ∈ job.units, ∀ record, recordOf? world u = some record →
    ∀ d ∈ record.declarations, d.key ≠ ""

/-- What a job compiles is tracked. -/
theorem exists_tracked_of_compiles (h : first.plan.Serves r)
    (hjob : job ∈ first.plan.graph.jobs) {q : Path} (hq : job.Compiles q) :
    ∃ i ∈ r.trackedInputs, compare i.path q = .eq := by
  obtain ⟨i, hi, hiq⟩ := h.sources job hjob q hq
  exact ⟨i, List.mem_append_left _ hi, hiq⟩

/-- **A success adds nothing that is not tracked.** -/
theorem within_jobSucceeded (h : first.plan.Serves r) (ht : t.plan = first.plan)
    (hjob : job ∈ first.plan.graph.jobs) (world : ω) (hkeys : KeyedRecords world job)
    (hwithin : t.state.Within r.trackedInputs) :
    (jobSucceeded world t job).1.state.Within r.trackedInputs where
  inputs q hq := by
    have ha := answered_jobSucceeded world t job
    rcases ha.dirty q with hd | ⟨-, -, id, -, hleft⟩
    · by_cases hnoted : ∃ p ∈ notedBy job, compare p q = .eq
      · obtain ⟨p, hp, hpq⟩ := hnoted
        rcases compiles_or_header_of_mem_notedBy h hjob hp hpq with hc | hk
        · exact exists_tracked_of_compiles h hjob hc
        · obtain ⟨⟨header, hheader, rfl⟩, -⟩ := h.header job hjob p hk
          exact ⟨header, List.mem_append_right _ (Option.mem_toList.2 hheader), hpq⟩
      · rw [← OrderedMap.isSome_get?, ha.kept q (fun p hp he => hnoted ⟨p, hp, he⟩) hd,
          OrderedMap.isSome_get?] at hq
        exact hwithin.inputs q hq
    · obtain ⟨-, j, hj, -, hc⟩ := compiles_of_compileOf? h ht hleft.1
      exact exists_tracked_of_compiles h hj hc
  graph := by
    refine graph_jobSucceeded (P := fun g => ∀ q, g.containsFile q = true →
      ∃ i ∈ r.trackedInputs, compare i.path q = .eq) world t hwithin.graph
      fun u hu d _ g hg q hq => ?_
    rw [DependencyGraph.containsFile_replace] at hq
    split at hq
    · rename_i huq
      obtain ⟨i, hi, hip⟩ := h.exists_input_of_mem_units hjob hu
      exact ⟨i, List.mem_append_left _ hi, hip ▸ huq⟩
    · exact hg q hq
  keys :=
    graph_jobSucceeded (P := DependencyGraph.Keyed) world t hwithin.keys
      fun u hu record hrecord g hg => hg.replace u.primary (hkeys u hu record hrecord)

/-- **Along every course the state is about tracked files**, where no record that was taken
over declares an empty key. -/
theorem Begins.within {env : Environment ω} {policy : FailurePolicy} {concurrency : Nat}
    {world : ω} {told : List (Told ω)} {e : Execution ω Tracker} (hb : first.Begins r)
    (hfirst : first.state.Within r.trackedInputs)
    (h : Course env observer (.start first.plan policy concurrency world first) told e)
    (hkeys : ∀ x ∈ told, ∀ id job, x.event = .jobFinished id .succeeded →
      first.plan.graph.job? id = some job → KeyedRecords x.world job) :
    e.observed.state.Within r.trackedInputs := by
  refine (h.induction (P := fun told s t => Attends r first s t ∧
    ((∀ x ∈ told, ∀ id job, x.event = .jobFinished id .succeeded →
      first.plan.graph.job? id = some job → KeyedRecords x.world job) →
        t.state.Within r.trackedInputs))
    hb.serves.wellFormed (fun s _ hclean _ => ⟨hb.attends_start hclean, fun _ => hfirst⟩)
    (fun told w s t h => ⟨h.1.cancel, fun hk => h.2 fun x hx => hk x (List.mem_append_left _ hx)⟩)
    fun told w s s' t id outcome dispatched h hs hplan hrun hturn => ?_).2 hkeys
  obtain ⟨job, hjob⟩ := JobGraph.exists_job?_of_lt (hplan ▸ hs.lt_size hrun)
  obtain ⟨hmem, rfl⟩ := hb.serves.wellFormed.job?_eq_some_iff.1 hjob
  cases outcome with
  | failed kind =>
    exact ⟨h.1.turn_nil hturn, fun hk => h.2 fun x hx => hk x (List.mem_append_left _ hx)⟩
  | succeeded =>
    rw [answer_observer w t hjob] at hturn ⊢
    refine ⟨h.1.succeed hb hs hplan hmem hrun (answered_jobSucceeded w t job) hturn, fun hk => ?_⟩
    exact within_jobSucceeded hb.serves h.1.plan hmem w
      (hk _ (List.mem_append_right _ List.mem_cons_self) job.id job rfl hjob)
      (h.2 fun x hx => hk x (List.mem_append_left _ hx))

/-- The end of a build adds nothing that is not tracked. -/
theorem within_finish (h : first.plan.Serves r) (ht : t.plan = first.plan)
    (hwithin : t.state.Within r.trackedInputs) (reports : List JobReport) :
    (t.finish reports).Within r.trackedInputs where
  inputs q hq := by
    rw [← OrderedMap.isSome_get?, get?_finish] at hq
    split at hq
    · rename_i hspoils
      obtain ⟨report, -, -, job, hjob, hc⟩ := hspoils
      exact exists_tracked_of_compiles h (ht ▸ JobGraph.mem_of_job? hjob) hc
    · rw [OrderedMap.isSome_get?] at hq
      exact hwithin.inputs q hq
  graph q hq := by
    rw [(finish_rest t reports).1] at hq
    exact hwithin.graph q hq
  keys q d hd := by
    rw [(finish_rest t reports).1] at hd
    exact hwithin.keys q d hd

end Tracker

/-- The state of a prepared build is about tracked files. -/
theorem PlannedBuild.Prepared.within {ω : Type} [FileSystem ω] {b : PlannedBuild}
    {r : BuildRequest} {prior : StateLoad} {modules : Option ModuleGraph} {world : ω}
    {start : DirtyInputs} {g : JobGraph} (h : b.Prepared r prior modules world start g)
    (hkeys : ∀ q, ∀ d ∈ (DirtyInputs.trusted prior).graph.declarationsOf q, d.key ≠ "") :
    b.state.Within r.trackedInputs := by
  have := DirtyInputs.within_of_compute h.started hkeys
  rw [h.state]
  exact ⟨this.inputs, this.graph, this.keys⟩

end IncrementalBuild
