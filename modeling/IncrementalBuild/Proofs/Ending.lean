import IncrementalBuild.Build
import IncrementalBuild.Proofs.Tracking

/-!
# The end of a build

When an execution has ended, every job is reported once, with a status that says where
it stood. What the tracker then leaves is described for each input and each job key: a
compile job that neither succeeded nor was skipped takes the fingerprints of its inputs
away, and the keys of unfinished jobs are remembered.
-/

namespace IncrementalBuild

namespace Execution

variable {ω σ : Type}

/-- How a job is reported. -/
def statusOf (e : Execution ω σ) (id : JobId) : JobStatus :=
  (e.core.finish.statusOf? id).getD .cancelled

/-- **The report holds every job of the plan, and nothing else.** -/
theorem mem_report_jobs {e : Execution ω σ} {report : JobReport} :
    report ∈ e.report.jobs ↔ ∃ job ∈ e.core.scheduler.plan.graph.jobs,
      report = ⟨job.id, job.key, e.statusOf job.id, e.failures.get? job.id⟩ := by
  show report ∈ List.map _ e.core.scheduler.plan.graph.jobs ↔ _
  rw [List.mem_map]
  exact exists_congr fun job => and_congr_right fun _ => eq_comm

/-- **What a status says**: a job is reported as where it stands, and as cancelled if it
has not come to an end. -/
theorem statusOf_eq {e : Execution ω σ} {id : JobId} {state : JobState}
    (h : e.core.scheduler.stateOf? id = some state) :
    e.statusOf id = state.status?.getD .cancelled := by
  unfold statusOf Scheduler.statusOf? Core.finish
  rw [Scheduler.stateOf?_finalize, h]
  cases state <;> rfl

theorem statusOf_eq_skipped_iff {e : Execution ω σ} (hs : e.core.scheduler.Sound) {id : JobId}
    (hid : id < e.core.scheduler.plan.graph.size) :
    e.statusOf id = .skipped ↔ e.core.scheduler.isClean id := by
  obtain ⟨state, hstate⟩ := hs.exists_state hid
  rw [statusOf_eq hstate, Scheduler.isClean, hstate]
  cases state <;> simp [JobState.status?]

theorem statusOf_eq_succeeded_iff {e : Execution ω σ} (hs : e.core.scheduler.Sound) {id : JobId}
    (hid : id < e.core.scheduler.plan.graph.size) :
    e.statusOf id = .succeeded ↔ e.core.scheduler.stateOf? id = some .succeeded := by
  obtain ⟨state, hstate⟩ := hs.exists_state hid
  rw [statusOf_eq hstate, hstate]
  cases state <;> simp [JobState.status?]

/-- A job is found in the report by its key. -/
theorem statusOf?_report (e : Execution ω σ) (hg : e.core.scheduler.plan.graph.WellFormed)
    {job : Job} (hjob : job ∈ e.core.scheduler.plan.graph.jobs) :
    e.report.statusOf? job.key = some (e.statusOf job.id) := by
  unfold ExecutionReport.statusOf?
  cases hfind : e.report.jobs.find? (·.key == job.key) with
  | none =>
    have := List.find?_eq_none.1 hfind _ (mem_report_jobs.2 ⟨job, hjob, rfl⟩)
    exact absurd (beq_self_eq_true job.key) this
  | some report =>
    obtain ⟨other, hother, rfl⟩ := mem_report_jobs.1 (List.mem_of_find?_eq_some hfind)
    have hkey : other.key = job.key := by
      have := List.find?_some hfind
      simpa using this
    rw [hg.eq_of_key_eq hother hjob hkey]
    rfl

end Execution

namespace Tracker

/-! ## Inputs -/

/-- Inputs that are to be rebuilt have no fingerprint. -/
theorem get?_foldl_markNeedsRebuild (s : BuildState) (paths : List Path) (q : Path) :
    (paths.foldl BuildState.markNeedsRebuild s).inputs.get? q
      = if ∃ p ∈ paths, compare p q = .eq then some none else s.inputs.get? q := by
  induction paths generalizing s with
  | nil => simp
  | cons p rest ih =>
    have hone : (s.markNeedsRebuild p).inputs.get? q
        = if compare p q = .eq then some none else s.inputs.get? q :=
      OrderedMap.get?_insert s.inputs p q none
    rw [List.foldl_cons, ih, hone]
    by_cases hrest : ∃ p ∈ rest, compare p q = .eq
    · simp [hrest]
    · by_cases hpq : compare p q = .eq <;> simp [hrest, hpq]

theorem foldl_markNeedsRebuild_rest (s : BuildState) (paths : List Path) :
    (paths.foldl BuildState.markNeedsRebuild s).graph = s.graph ∧
      (paths.foldl BuildState.markNeedsRebuild s).staleJobs = s.staleJobs ∧
      (paths.foldl BuildState.markNeedsRebuild s).options = s.options ∧
      (paths.foldl BuildState.markNeedsRebuild s).commands = s.commands := by
  induction paths generalizing s with
  | nil => exact ⟨rfl, rfl, rfl, rfl⟩
  | cons p rest ih => exact ih (s.markNeedsRebuild p)

/-- Whether a report is of the unsuccessful compilation of an input. -/
def Spoils (g : JobGraph) (report : JobReport) (p : Path) : Prop :=
  report.status.isSuccess = false ∧ ∃ job, g.job? report.id = some job ∧ job.Compiles p

open Classical in
/-- **Noting a report takes fingerprints away only from inputs that were not compiled.** -/
theorem get?_noteStatus (g : JobGraph) (s : BuildState) (report : JobReport) (q : Path) :
    (noteStatus g s report).inputs.get? q
      = if Spoils g report q then some none else s.inputs.get? q := by
  unfold noteStatus
  cases hjob : g.job? report.id with
  | none =>
    refine (if_neg ?_).symm
    rintro ⟨-, job, hj, -⟩
    cases hjob.symm.trans hj
  | some job =>
    have hkeep (h : report.status.isSuccess = true) :
        s.inputs.get? q = if Spoils g report q then some none else s.inputs.get? q :=
      (if_neg fun hs => by rw [hs.1] at h; cases h).symm
    have hspoil (h : report.status.isSuccess = false) (state : BuildState)
        (hstate : state.inputs = s.inputs) :
        (if job.isCompile then job.sourceInputs.foldl BuildState.markNeedsRebuild state
          else state).inputs.get? q
        = if Spoils g report q then some none else s.inputs.get? q := by
      have hiff : Spoils g report q ↔ job.Compiles q :=
        ⟨fun ⟨_, j, hj, hc⟩ => Option.some.inj (hj.symm.trans hjob) ▸ hc,
          fun hc => ⟨h, job, hjob, hc⟩⟩
      by_cases hc : job.isCompile = true
      · rw [if_pos hc, get?_foldl_markNeedsRebuild, hstate]
        have : (∃ p ∈ job.sourceInputs, compare p q = .eq) ↔ Spoils g report q :=
          ⟨fun h => hiff.2 ⟨hc, h⟩, fun h => (hiff.1 h).2⟩
        simp only [this]
      · rw [if_neg hc, if_neg fun h => hc (hiff.1 h).1, hstate]
    dsimp only
    cases hst : report.status with
    | skipped => exact hkeep (by rw [hst]; rfl)
    | succeeded => exact hkeep (by rw [hst]; rfl)
    | failed | blocked | cancelled => exact hspoil (by rw [hst]; rfl) _ rfl

open Classical in
/-- **The inputs that a build leaves.** -/
theorem get?_finish (t : Tracker) (reports : List JobReport) (q : Path) :
    (t.finish reports).inputs.get? q
      = if ∃ report ∈ reports, Spoils t.plan.graph report q then some none
        else t.state.inputs.get? q := by
  show (reports.foldl (noteStatus t.plan.graph) t.state).inputs.get? q = _
  generalize t.state = s
  induction reports generalizing s with
  | nil => simp
  | cons report rest ih =>
    rw [List.foldl_cons, ih, get?_noteStatus]
    by_cases hrest : ∃ report ∈ rest, Spoils t.plan.graph report q
    · simp [hrest]
    · by_cases hr : Spoils t.plan.graph report q <;> simp [hrest, hr]

/-! ## What noting a report leaves alone -/

theorem noteStatus_rest (g : JobGraph) (s : BuildState) (report : JobReport) :
    (noteStatus g s report).graph = s.graph ∧ (noteStatus g s report).options = s.options ∧
      (noteStatus g s report).commands = s.commands := by
  unfold noteStatus
  cases g.job? report.id with
  | none => exact ⟨rfl, rfl, rfl⟩
  | some job =>
    have hmark (state : BuildState) (hstate : state.graph = s.graph ∧
        state.options = s.options ∧ state.commands = s.commands) :
        let after := if job.isCompile then
          job.sourceInputs.foldl BuildState.markNeedsRebuild state else state
        after.graph = s.graph ∧ after.options = s.options ∧ after.commands = s.commands := by
      obtain ⟨hg, -, ho, hc⟩ := foldl_markNeedsRebuild_rest state job.sourceInputs
      dsimp only
      split
      · exact ⟨hg.trans hstate.1, ho.trans hstate.2.1, hc.trans hstate.2.2⟩
      · exact hstate
    cases report.status with
    | skipped | succeeded => exact ⟨rfl, rfl, rfl⟩
    | failed | blocked | cancelled => exact hmark _ ⟨rfl, rfl, rfl⟩

/-- **The end of a build changes neither declarations nor choices nor commands.** -/
theorem finish_rest (t : Tracker) (reports : List JobReport) :
    (t.finish reports).graph = t.state.graph ∧
      (t.finish reports).options = t.state.options ∧
      (t.finish reports).commands = t.state.commands := by
  show (reports.foldl (noteStatus t.plan.graph) t.state).graph = _ ∧
    (reports.foldl (noteStatus t.plan.graph) t.state).options = _ ∧
    (reports.foldl (noteStatus t.plan.graph) t.state).commands = _
  generalize t.state = s
  induction reports generalizing s with
  | nil => exact ⟨rfl, rfl, rfl⟩
  | cons report rest ih =>
    obtain ⟨h₁, h₂, h₃⟩ := ih (noteStatus t.plan.graph s report)
    obtain ⟨h₁', h₂', h₃'⟩ := noteStatus_rest t.plan.graph s report
    exact ⟨h₁.trans h₁', h₂.trans h₂', h₃.trans h₃'⟩

/-! ## Unfinished jobs -/

/-- Whether a report is of a job with an origin key. -/
def IsOf (g : JobGraph) (report : JobReport) (key : JobKey) : Prop :=
  ∃ job, g.job? report.id = some job ∧ key ∈ job.originKeys

/-- **Which keys are remembered after a report**: those of unfinished jobs are added, and
those of successes are taken away. -/
theorem contains_noteStatus (g : JobGraph) (s : BuildState) (report : JobReport)
    (key : JobKey) :
    (noteStatus g s report).staleJobs.contains key = true ↔
      (report.status.isSuccess = false ∧ IsOf g report key) ∨
      (s.staleJobs.contains key = true ∧ ¬ (report.status = .succeeded ∧ IsOf g report key)) := by
  unfold noteStatus
  cases hjob : g.job? report.id with
  -- A report of no job of the graph changes nothing.
  | none =>
    have hnot : ¬ IsOf g report key := fun ⟨job, hj, _⟩ => by cases hjob.symm.trans hj
    simp [hnot]
  | some job =>
    have hof : IsOf g report key ↔ key ∈ job.originKeys :=
      ⟨fun ⟨j, hj, hk⟩ => Option.some.inj (hj.symm.trans hjob) ▸ hk, fun hk => ⟨job, hjob, hk⟩⟩
    have hany : (job.originKeys.any fun a => compare a key == .eq) = true ↔
        key ∈ job.originKeys := by
      rw [List.any_eq_true]
      exact ⟨fun ⟨a, ha, he⟩ => Std.LawfulEqOrd.eq_of_compare (beq_iff_eq.1 he) ▸ ha,
        fun h => ⟨key, h, beq_iff_eq.2 Std.ReflOrd.compare_self⟩⟩
    -- Without success the keys of the job are added. Marking its inputs does not touch the keys.
    have hadd (h : report.status.isSuccess = false) :
        (if job.isCompile then job.sourceInputs.foldl BuildState.markNeedsRebuild
            { s with staleJobs := job.originKeys.foldl OrderedSet.add s.staleJobs }
          else { s with staleJobs := job.originKeys.foldl OrderedSet.add s.staleJobs }
            : BuildState).staleJobs.contains key = true ↔
        (report.status.isSuccess = false ∧ IsOf g report key) ∨
          (s.staleJobs.contains key = true ∧
            ¬ (report.status = .succeeded ∧ IsOf g report key)) := by
      have hne : report.status ≠ .succeeded := fun he => by rw [he] at h; cases h
      have hstale : (if job.isCompile then job.sourceInputs.foldl BuildState.markNeedsRebuild
            { s with staleJobs := job.originKeys.foldl OrderedSet.add s.staleJobs }
          else { s with staleJobs := job.originKeys.foldl OrderedSet.add s.staleJobs }
            : BuildState).staleJobs = job.originKeys.foldl OrderedSet.add s.staleJobs := by
        split
        · exact (foldl_markNeedsRebuild_rest _ _).2.1
        · rfl
      rw [hstale, OrderedSet.contains_foldl_add, Bool.or_eq_true, hany, ← hof]
      simp only [h, hne, true_and, false_and, not_false_eq_true, and_true]
      exact or_comm
    dsimp only
    cases hst : report.status with
    | skipped => simp [JobStatus.isSuccess]
    -- With success the keys of the job are taken away.
    | succeeded =>
      show (job.originKeys.foldl OrderedMap.erase s.staleJobs).contains key = true ↔ _
      rw [OrderedSet.contains_foldl_erase, Bool.and_eq_true]
      have hall : (job.originKeys.all fun a => compare a key != .eq) = true ↔
          ¬ key ∈ job.originKeys := by
        rw [List.all_eq_true]
        refine ⟨fun h hk => ?_, fun h a ha => bne_iff_ne.2 fun he => ?_⟩
        · exact bne_iff_ne.1 (h key hk) Std.ReflOrd.compare_self
        · exact h (Std.LawfulEqOrd.eq_of_compare he ▸ ha)
      rw [hall, ← hof]
      simp [JobStatus.isSuccess]
    | failed | blocked | cancelled =>
      have := hadd (by rw [hst]; rfl)
      rw [hst] at this
      exact this

/-- A key is remembered at the end if some unfinished job has it and no success does. -/
theorem contains_foldl_noteStatus {g : JobGraph} {reports : List JobReport} {key : JobKey}
    (hno : ∀ report ∈ reports, report.status = .succeeded → ¬ IsOf g report key)
    (s : BuildState) :
    (reports.foldl (noteStatus g) s).staleJobs.contains key = true ↔
      (∃ report ∈ reports, report.status.isSuccess = false ∧ IsOf g report key) ∨
        s.staleJobs.contains key = true := by
  induction reports generalizing s with
  | nil => simp
  | cons report rest ih =>
    rw [List.foldl_cons, ih fun r hr => hno r (List.mem_cons_of_mem _ hr), contains_noteStatus]
    have hnot : ¬ (report.status = .succeeded ∧ IsOf g report key) := fun h =>
      hno report List.mem_cons_self h.1 h.2
    simp only [List.exists_mem_cons_iff, hnot, not_false_eq_true, and_true]
    rw [or_left_comm, or_assoc]

/-- A key is forgotten at the end if some success has it and no unfinished job does. -/
theorem not_contains_foldl_noteStatus {g : JobGraph} {reports : List JobReport} {key : JobKey}
    (hno : ∀ report ∈ reports, report.status.isSuccess = false → ¬ IsOf g report key)
    (s : BuildState)
    (h : (∃ report ∈ reports, report.status = .succeeded ∧ IsOf g report key) ∨
      s.staleJobs.contains key = false) :
    (reports.foldl (noteStatus g) s).staleJobs.contains key = false := by
  induction reports generalizing s with
  | nil => exact h.resolve_left (by simp)
  | cons report rest ih =>
    rw [List.foldl_cons]
    refine ih (fun r hr => hno r (List.mem_cons_of_mem _ hr)) _ ?_
    rw [List.exists_mem_cons_iff] at h
    rcases h with (h | h) | h
    · refine .inr ?_
      rw [← Bool.not_eq_true, contains_noteStatus]
      rintro (h' | h')
      · exact hno report List.mem_cons_self h'.1 h'.2
      · exact h'.2 h
    · exact .inl h
    · refine .inr ?_
      rw [← Bool.not_eq_true, contains_noteStatus]
      rintro (h' | h')
      · exact hno report List.mem_cons_self h'.1 h'.2
      · rw [h] at h'
        cases h'.1

/-- **The keys that a build remembers** are keys of its plan. -/
theorem contains_finish (t : Tracker) (reports : List JobReport) (key : JobKey) :
    (t.finish reports).staleJobs.contains key = true ↔
      (reports.foldl (noteStatus t.plan.graph) t.state).staleJobs.contains key = true ∧
        ∃ job ∈ t.plan.graph.jobs, key ∈ job.originKeys := by
  let planned := OrderedSet.ofList (t.plan.graph.jobs.flatMap Job.originKeys)
  have hplanned : planned.contains key = true ↔
      ∃ job ∈ t.plan.graph.jobs, key ∈ job.originKeys := by
    rw [OrderedSet.contains_iff_mem_toList, OrderedSet.mem_toList_ofList, List.mem_flatMap]
  rw [← hplanned, ← Bool.and_eq_true]
  exact Bool.eq_iff_iff.1 (OrderedMap.contains_filter _ planned.contains key fun k hk =>
    planned.contains_congr hk)

end Tracker

end IncrementalBuild
