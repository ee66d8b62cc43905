import IncrementalBuild.Proofs.Diagnostic
import IncrementalBuild.Proofs.Ending
import IncrementalBuild.Proofs.Interleaving
import IncrementalBuild.Proofs.Statuses

/-!
# Reports that account for every job

What a report says of an execution comes from two sides: statuses are where the scheduler has the
jobs in the end, failures and diagnostics are what the workers have written. At the end every worker
has done all that there was to do (`Interleaving.all_done`), so each side can be read off from the
processes. A job is reported to have succeeded or failed if it had a process, it failed exactly if
the process did, and what was filed is what the processes gave.

Diagnostics are filed under origins, and of equal origins the file keeps the spelling that it has.
Two files are therefore compared by what origins are compared by (`SameFiling`).
-/

namespace IncrementalBuild

/-! ## What a diagnostic file holds -/

namespace DiagnosticOrigin

/-- What an origin is compared by. -/
def identity (o : DiagnosticOrigin) : Nat × List Component × String :=
  (o.rank, o.components, o.keyText)

theorem compare_eq_iff {a b : DiagnosticOrigin} : compare a b = .eq ↔ a.identity = b.identity := by
  show (compareOn rank a b).then ((compareOn components a b).then (compareOn keyText a b)) = .eq ↔ _
  rw [Ordering.then_eq_eq, Ordering.then_eq_eq]
  unfold compareOn identity
  rw [Std.compare_eq_iff_eq, Std.compare_eq_iff_eq, Std.compare_eq_iff_eq, Prod.mk.injEq,
    Prod.mk.injEq]

end DiagnosticOrigin

/-- Whether two lists hold the same diagnostics under the same origins, each as often in one as in
the other. Paths count as they are compared, not as they are spelled. -/
def SameFiling (l r : List (DiagnosticOrigin × Diagnostic)) : Prop :=
  (l.map fun d => (d.1.identity, d.2)).Perm (r.map fun d => (d.1.identity, d.2))

namespace SameFiling

variable {l l' r r' : List (DiagnosticOrigin × Diagnostic)}

theorem of_perm (h : l.Perm r) : SameFiling l r := h.map _

theorem trans {m : List (DiagnosticOrigin × Diagnostic)} (h : SameFiling l m)
    (h' : SameFiling m r) : SameFiling l r := List.Perm.trans h h'

theorem append (h : SameFiling l r) (h' : SameFiling l' r') : SameFiling (l ++ l') (r ++ r') := by
  unfold SameFiling
  rw [List.map_append, List.map_append]
  exact List.Perm.append h h'

end SameFiling

namespace DiagnosticFile

/-- The diagnostics of an entry, each with its origin. -/
def spread (entry : DiagnosticOrigin × List Diagnostic) : List (DiagnosticOrigin × Diagnostic) :=
  entry.2.map (entry.1, ·)

/-- All diagnostics of a file, each with its origin. -/
def pairs (f : DiagnosticFile) : List (DiagnosticOrigin × Diagnostic) := f.entries.flatMap spread

theorem sameFiling_insertEntry (d : DiagnosticOrigin × Diagnostic)
    {l : List (DiagnosticOrigin × List Diagnostic)}
    (hl : l.Pairwise fun a b => compare a.1 b.1 = .lt) :
    SameFiling
      ((OrderedMap.insertEntry d.1
        (((l.find? fun e => compare e.1 d.1 == .eq).map (·.2)).getD [] ++ [d.2]) l).flatMap spread)
      (d :: l.flatMap spread) := by
  induction l with
  | nil => exact .of_perm (.refl _)
  | cons head rest ih =>
    obtain ⟨hhead, hrest⟩ := List.pairwise_cons.1 hl
    cases hcompare : compare d.1 head.1 with
    | lt =>
      -- All entries stand behind the new one, so that there is none for its origin.
      have hnone : (head :: rest).find? (fun e => compare e.1 d.1 == .eq) = none := by
        refine List.find?_eq_none.2 fun e he heq => ?_
        have hlt : compare d.1 e.1 = .lt := by
          rcases List.mem_cons.1 he with rfl | he
          · exact hcompare
          · exact Std.TransCmp.lt_trans hcompare (hhead e he)
        rw [beq_iff_eq, Std.OrientedCmp.eq_comm, hlt] at heq
        cases heq
      rw [hnone, OrderedMap.insertEntry]
      simp only [hcompare]
      exact .of_perm (.refl _)
    | eq =>
      have hfound : (head :: rest).find? (fun e => compare e.1 d.1 == .eq) = some head :=
        List.find?_cons_of_pos (beq_iff_eq.2 (Std.OrientedCmp.eq_symm hcompare))
      rw [hfound, OrderedMap.insertEntry]
      simp only [hcompare]
      have hsame : SameFiling (spread (head.1, head.2 ++ [d.2])) (d :: spread head) := by
        unfold SameFiling spread
        rw [List.map_append, List.map_append, List.map_cons, List.map_cons, List.map_nil,
          List.map_cons, List.map_nil, DiagnosticOrigin.compare_eq_iff.1 hcompare]
        exact List.perm_append_singleton _ _
      exact hsame.append (.of_perm (.refl (rest.flatMap spread)))
    | gt =>
      have hlt : compare head.1 d.1 = .lt := Std.OrientedCmp.gt_iff_lt.1 hcompare
      rw [List.find?_cons_of_neg (by rw [hlt]; decide), OrderedMap.insertEntry]
      simp only [hcompare]
      exact ((SameFiling.of_perm (.refl (spread head))).append (ih hrest)).trans
        (.of_perm List.perm_middle)

/-- **Filing a diagnostic adds it to the file** under its origin, and takes nothing away. -/
theorem sameFiling_add (f : DiagnosticFile) (d : DiagnosticOrigin × Diagnostic) :
    SameFiling (f.add d).pairs (d :: f.pairs) :=
  sameFiling_insertEntry d f.ascending

theorem sameFiling_foldl_add (f : DiagnosticFile) (ds : List (DiagnosticOrigin × Diagnostic)) :
    SameFiling (ds.foldl add f).pairs (ds ++ f.pairs) := by
  induction ds generalizing f with
  | nil => exact .of_perm (.refl _)
  | cons d rest ih =>
    refine (ih (f.add d)).trans ?_
    exact ((SameFiling.of_perm (.refl rest)).append (f.sameFiling_add d)).trans
      (.of_perm List.perm_middle)

end DiagnosticFile

/-! ## What failed jobs give -/

namespace Job

/-- A diagnostic of a job is filed under an input or under the job. -/
theorem origin_of_mem_diagnostics (job : Job) {stdout stderr fallback : String} {failed : Bool}
    {d : DiagnosticOrigin × Diagnostic} (h : d ∈ job.diagnostics stdout stderr failed fallback) :
    (∃ q ∈ job.inputPaths, d.1 = .input q) ∨ d.1 = .job job.key := by
  have hparsed : ∀ d ∈ (ParsedDiagnostic.ofText stderr ++ ParsedDiagnostic.ofText stdout).map
      (fun d => (job.originOf d.path, d.diagnostic)),
      (∃ q ∈ job.inputPaths, d.1 = .input q) ∨ d.1 = .job job.key := fun d hd => by
    obtain ⟨parsed, -, rfl⟩ := List.mem_map.1 hd
    exact job.originOf_input_or_job parsed.path
  unfold diagnostics at h
  dsimp only at h
  split at h
  · rcases List.mem_append.1 h with h | h
    · exact hparsed d h
    · rw [List.mem_singleton.1 h]
      exact job.originOf_input_or_job none
  · exact hparsed d h

/-- **A failure is never silent**: if the output gives no error, one is made. -/
theorem exists_error_of_failed (job : Job) (stdout stderr fallback : String) :
    ∃ d ∈ job.diagnostics stdout stderr true fallback, d.2.severity = .error ∧
      ((∃ q ∈ job.inputPaths, d.1 = .input q) ∨ d.1 = .job job.key) := by
  have herror : ∃ d ∈ job.diagnostics stdout stderr true fallback, d.2.severity = .error := by
    unfold diagnostics
    dsimp only
    split
    · exact ⟨_, List.mem_append_right _ List.mem_cons_self, rfl⟩
    · rename_i h
      rw [Bool.true_and, Bool.not_eq_true', Bool.not_eq_false, List.any_eq_true] at h
      obtain ⟨d, hd, hsev⟩ := h
      exact ⟨d, hd, beq_iff_eq.1 hsev⟩
  obtain ⟨d, hd, hsev⟩ := herror
  exact ⟨d, hd, hsev, job.origin_of_mem_diagnostics hd⟩

end Job

namespace Worker

/-- **Whoever fails gives an error**, under an input of the job or under its key. -/
theorem exists_error (w : Worker) (h : w.failure?.isSome = true) :
    ∃ d ∈ w.collected, d.2.severity = .error ∧
      ((∃ q ∈ w.job.inputPaths, d.1 = .input q) ∨ d.1 = .job w.job.key) := by
  obtain ⟨job, result, left⟩ := w
  cases result with
  | error e => exact job.exists_error_of_failed "" "" e.text
  | ok output =>
    have hcode : output.exitCode ≠ 0 := fun hzero => by simp [failure?, hzero] at h
    have := job.exists_error_of_failed output.stdout output.stderr
      s!"{job.command.tool} exited with code {output.exitCode}"
    simpa [collected, Execution.outcomeOf, hcode] using this

end Worker

section Accounts

variable {ω σ : Type} {env : Environment ω} {observe : WorldObserver ω σ} {e : Execution ω σ}
  {told : List (Told ω)} {workers : List Worker} {done : List (JobId × Deed)} {plan : BuildPlan}
  {policy : FailurePolicy} {concurrency : Nat} {world : ω} {observed : σ}

/-! ## The report -/

/-- **A job is reported to have succeeded or failed exactly if it has run to its end.** -/
theorem Execution.statusOf_ran_iff (hs : e.core.scheduler.Sound) {id : JobId}
    (hid : id < e.core.scheduler.plan.graph.size) :
    e.statusOf id = .succeeded ∨ e.statusOf id = .failed ↔ e.core.scheduler.hasEnded id := by
  obtain ⟨state, hstate⟩ := hs.exists_state hid
  rw [statusOf_eq hstate, Scheduler.hasEnded, hstate]
  cases state <;> simp [JobState.status?]

theorem Scheduler.Sound.lt_size_of_hasStarted {s : Scheduler} (hs : s.Sound) {id : JobId}
    (h : s.hasStarted id) : id < s.plan.graph.size :=
  h.elim hs.lt_size fun h => h.elim hs.lt_size hs.lt_size

/-- Settling a job gives rise to two events at most. -/
theorem Execution.length_events_settle (e : Execution ω σ) (job : Job) (run : ProcessRun ω) :
    (e.settle job run).events.length ≤ e.events.length + 2 := by
  show (e.events ++ (if run.cancelRequested then [RuntimeEvent.cancelRequested] else [])
    ++ [_]).length ≤ _
  rw [List.length_append, List.length_append]
  split <;> simp

/-- There are no more processes than jobs. -/
theorem Execution.Staffed.length_le {history : CoreHistory σ} {step : CoreStep} {limit : Nat}
    {ended : List JobId} (hs : e.Staffed env plan workers history step)
    (h : history.Tallied plan limit ended) :
    e.started.length + workers.length ≤ plan.graph.size := by
  have hsub : history.dispatched.Subperm (List.range plan.graph.size) :=
    h.nodup.subperm fun id hid => List.mem_range.2
      (h.plan_eq ▸ h.counted.sound.lt_size_of_hasStarted ((h.mem_iff id).1 hid))
  have := hs.dispatched.length_eq ▸ hsub.length_le
  rwa [List.length_append, List.length_map, List.length_range] at this

/-- The failures that are noted at the end are those of the processes. -/
theorem Interleaving.failures_eq (hg : plan.graph.WellFormed)
    (h : Interleaving env observe (.start plan policy concurrency world observed) told workers done
      e) (hend : e.keepRunning = false) :
    (∀ w ∈ workers, e.failures.get? w.job.id = w.failure?) ∧
      ∀ id ∉ workers.map (·.job.id), e.failures.get? id = none := by
  obtain ⟨hnodup, hall, -⟩ := h.all_done hg hend
  have hmem (id : JobId) (kind : FailureKind) : (id, kind) ∈ done.filterMap Deed.noted? ↔
      ∃ w ∈ workers, w.job.id = id ∧ w.failure? = some kind := by
    rw [(hall.filterMap Deed.noted?).mem_iff, Worker.filterMap_noted?_due, List.mem_flatMap]
    refine exists_congr fun w => and_congr_right fun _ => ?_
    simp only [List.mem_map, Option.mem_toList, Prod.mk.injEq]
    exact ⟨fun ⟨_, hkind, hid, he⟩ => ⟨hid, he ▸ hkind⟩,
      fun ⟨hid, hkind⟩ => ⟨kind, hkind, hid, rfl⟩⟩
  have hget (id : JobId) (kind : FailureKind) : e.failures.get? id = some kind ↔
      ∃ w ∈ workers, w.job.id = id ∧ w.failure? = some kind := by
    rw [h.settles_start.failures, OrderedMap.get?_ofList_eq_some_iff fun k v v' hv hv' => ?_, hmem]
    obtain ⟨w, hw, hid, hkind⟩ := (hmem k v).1 hv
    obtain ⟨w', hw', hid', hkind'⟩ := (hmem k v').1 hv'
    obtain rfl := List.inj_on_of_nodup_map hnodup hw hw' (hid.trans hid'.symm)
    exact Option.some.inj (hkind.symm.trans hkind')
  refine ⟨fun w hw => Option.ext fun kind => ?_, fun id hid => Option.eq_none_iff_forall_ne_some.2
    fun kind hkind => ?_⟩
  · rw [hget]
    refine ⟨fun ⟨w', hw', hid, hkind⟩ => ?_, fun hkind => ⟨w, hw, rfl, hkind⟩⟩
    exact List.inj_on_of_nodup_map hnodup hw' hw hid ▸ hkind
  · obtain ⟨w, hw, rfl, -⟩ := (hget id kind).1 hkind
    exact hid (List.mem_map_of_mem hw)

/-- **The jobs that are reported to have run are those that workers looked after.** -/
theorem Interleaving.ran_iff (hg : plan.graph.WellFormed)
    (h : Interleaving env observe (.start plan policy concurrency world observed) told workers done
      e) (hend : e.keepRunning = false) {job : Job} (hjob : job ∈ plan.graph.jobs) :
    e.statusOf job.id = .succeeded ∨ e.statusOf job.id = .failed ↔
      job.id ∈ workers.map (·.job.id) := by
  obtain ⟨history, step, hcore, hs⟩ := h.exists_run hg
  obtain ⟨-, -, htold⟩ := h.all_done hg hend
  have htallied := hcore.tallied hg
  have hplan : e.core.scheduler.plan = plan := hs.core_eq ▸ htallied.plan_eq
  have hsound : e.core.scheduler.Sound := hs.core_eq ▸ htallied.counted.sound
  rw [Execution.statusOf_ran_iff hsound (hplan ▸ hg.id_lt hjob), ← hs.core_eq,
    ← htallied.mem_ended_iff]
  refine ⟨fun hmem => ?_, fun hmem => ?_⟩
  · exact h.settles_start.perm_ids.mem_iff.1
      (List.mem_append_left _ (List.mem_append_left _ hmem))
  · obtain ⟨w, hw, hid⟩ := List.mem_map.1 hmem
    obtain ⟨t, ht, he⟩ := htold w hw
    exact List.mem_filterMap.2 ⟨t, ht, by rw [he, ← hid]; rfl⟩

/-- A job is reported to have failed exactly if its process gives a failure. -/
theorem Interleaving.failed_iff (hg : plan.graph.WellFormed)
    (h : Interleaving env observe (.start plan policy concurrency world observed) told workers done
      e) (hend : e.keepRunning = false) :
    ∀ w ∈ workers, e.statusOf w.job.id = .failed ↔ w.failure?.isSome = true := by
  intro w hw
  obtain ⟨history, step, hcore, hs⟩ := h.exists_run hg
  obtain ⟨-, -, htold⟩ := h.all_done hg hend
  obtain ⟨t, ht, he⟩ := htold w hw
  rw [Execution.statusOf_eq (hs.core_eq ▸ hcore.stateOf?_of_mem_told hg ht he), w.outcome_eq]
  cases w.failure? <;> simp [JobOutcome.state, JobState.status?]

/-- **The report of an execution accounts for every job**, where some workers looked after the
processes that there were. -/
structure Execution.Accounts (e : Execution ω σ) (env : Environment ω) (plan : BuildPlan)
    (workers : List Worker) : Prop where
  /-- Each job is reported in its place. -/
  reported : e.report.jobs.map (fun report => (report.id, report.key))
    = plan.graph.jobs.map fun job => (job.id, job.key)
  /-- No two workers looked after one job. -/
  nodup : (workers.map (·.job.id)).Nodup
  processes : ∀ w ∈ workers, w.job ∈ plan.graph.jobs ∧
    ∃ world run, env.runs world w.job.command run ∧ w.result = run.result
  /-- The jobs that ran are those that are reported to have succeeded or failed. -/
  ran_iff : ∀ report ∈ e.report.jobs, report.status = .succeeded ∨ report.status = .failed ↔
    ∃ w ∈ workers, w.job.id = report.id
  /-- A failure is there exactly if the job failed. -/
  failure_iff : ∀ report ∈ e.report.jobs, report.failure.isSome = true ↔ report.status = .failed
  /-- It is the failure of the process of that job. -/
  failure_eq : ∀ report ∈ e.report.jobs, ∀ w ∈ workers, w.job.id = report.id →
    report.failure = w.failure?
  /-- A job that failed has given an error, under one of its inputs or under its own key. -/
  error : ∀ report ∈ e.report.jobs, report.status = .failed → ∃ w ∈ workers,
    w.job.id = report.id ∧ ∃ d ∈ w.collected, d.2.severity = .error ∧
      ((∃ q ∈ w.job.inputPaths, d.1 = .input q) ∨ d.1 = .job w.job.key)
  /-- The diagnostics are those of the jobs that ran, none of them lost and none doubled. -/
  diagnostics : SameFiling e.report.diagnostics.pairs (workers.flatMap Worker.collected)

/-- **In whatever order workers take turns, the report accounts for every job.** -/
theorem Interleaving.accounts (hg : plan.graph.WellFormed)
    (h : Interleaving env observe (.start plan policy concurrency world observed) told workers done
      e) (hend : e.keepRunning = false) : e.Accounts env plan workers := by
  -- The turns are a run of the core, so what is known of those carries over, and at the end all
  -- that the workers owed has been done.
  obtain ⟨history, step, hcore, hs⟩ := h.exists_run hg
  obtain ⟨hnodup, hall, -⟩ := h.all_done hg hend
  obtain ⟨hfailure, hnone⟩ := h.failures_eq hg hend
  have hplan : e.core.scheduler.plan = plan := hs.core_eq ▸ (hcore.tallied hg).plan_eq
  have hreport : ∀ report ∈ e.report.jobs, ∃ job ∈ plan.graph.jobs,
      report = ⟨job.id, job.key, e.statusOf job.id, e.failures.get? job.id⟩ :=
    fun report hr => hplan ▸ Execution.mem_report_jobs.1 hr
  refine
    { reported := ?_, nodup := hnodup, processes := hs.processes, ran_iff := ?_, failure_iff := ?_
      failure_eq := ?_, error := ?_, diagnostics := ?_ }
  -- Every job is reported.
  · show (e.core.scheduler.plan.graph.jobs.map _).map _ = _
    rw [List.map_map, hplan]
    rfl
  -- The jobs that ran are those of the workers.
  · intro report hr
    obtain ⟨job, hjob, rfl⟩ := hreport report hr
    rw [h.ran_iff hg hend hjob, List.mem_map]
  -- A failure was told of a worker's job exactly if the worker has failed; of other jobs none
  -- was.
  · intro report hr
    obtain ⟨job, hjob, rfl⟩ := hreport report hr
    dsimp only
    by_cases hmem : job.id ∈ workers.map (·.job.id)
    · obtain ⟨w, hw, hid⟩ := List.mem_map.1 hmem
      rw [← hid, hfailure w hw, h.failed_iff hg hend w hw]
    · rw [hnone _ hmem]
      exact iff_of_false Bool.false_ne_true fun hfailed =>
        hmem ((h.ran_iff hg hend hjob).1 (.inr hfailed))
  · intro report hr w hw hid
    obtain ⟨job, hjob, rfl⟩ := hreport report hr
    rw [← hfailure w hw, hid]
  -- A job that failed was run, and its worker has the error.
  · intro report hr hfailed
    obtain ⟨job, hjob, rfl⟩ := hreport report hr
    obtain ⟨w, hw, hid⟩ := List.mem_map.1 ((h.ran_iff hg hend hjob).1 (.inr hfailed))
    refine ⟨w, hw, hid, w.exists_error ((h.failed_iff hg hend w hw).1 ?_)⟩
    rw [hid]
    exact hfailed
  -- The diagnostics were filed one after the other, in some order; and filing does not depend on
  -- it.
  · show SameFiling e.diagnostics.pairs _
    rw [h.settles_start.diagnostics, ← Worker.filterMap_filed?_due]
    refine (DiagnosticFile.sameFiling_foldl_add ∅ _).trans (.of_perm ?_)
    exact (List.Perm.of_eq (List.append_nil _)).trans (hall.filterMap Deed.filed?)

/-! ## Executions that run jobs one after the other -/

/-- **Going on ends**, where each job that had no worker yet counts as three steps and each event as
one: at first no job has a worker and there is no event. -/
theorem Interleaving.advance [ProcessWorld ω] (hg : plan.graph.WellFormed) (n : Nat)
    (h : Interleaving (.ofProcesses ω) observe (.start plan policy concurrency world observed) told
      workers done e) (hleft : ∀ w ∈ workers, w.left = [])
    (hsteps : 3 * (plan.graph.size - workers.length) + e.events.length < n) :
    (Execution.advance observe n e).keepRunning = false ∧
      ∃ told' workers' done', Interleaving (.ofProcesses ω) observe
        (.start plan policy concurrency world observed) told' workers' done'
        (Execution.advance observe n e) := by
  induction n generalizing told workers done e with
  | zero => omega
  | succ n ih =>
    obtain ⟨history, step, hcore, hs⟩ := h.exists_run hg
    have htallied := hcore.tallied hg
    have hplan : e.core.scheduler.plan = plan := hs.core_eq ▸ htallied.plan_eq
    unfold Execution.advance
    split
    · rename_i hkeep
      split
      -- A job was handed out and is run. It had no worker yet, so there are fewer of those, and
      -- three steps pay for the events of one job.
      · rename_i id rest hstarted
        have hid : id ∈ e.started := hstarted ▸ List.mem_cons_self
        have hrunning := (htallied.mem_iff id).1
          (hs.dispatched.mem_iff.1 (List.mem_append_left _ hid))
        obtain ⟨job, hjob⟩ := JobGraph.exists_job?_of_lt
          (htallied.counted.sound.lt_size_of_hasStarted hrunning)
        rw [htallied.plan_eq, ← hplan] at hjob
        have hnext := h.settle hid (hg.job?_eq_some_iff.1 (hplan ▸ hjob)).2 hjob rfl
        have hroom : workers.length < plan.graph.size := by
          have := hs.length_le htallied
          rw [hstarted, List.length_cons] at this
          omega
        rw [Execution.runFirst_eq hstarted hjob]
        refine ih hnext (fun w hw => ?_) ?_
        · rcases List.mem_append.1 hw with hw | hw
          · exact hleft w hw
          · rw [List.mem_singleton.1 hw]
        · have := Execution.length_events_settle
            ({ e with started := e.started.erase id } : Execution ω σ) job
            (ProcessWorld.run e.world job.command)
          rw [List.length_append, List.length_singleton]
          dsimp only at this
          omega
      -- An event is handled, and there is one event less.
      · rename_i event rest _ hevents
        have hnext := h.handle hkeep (hevents ▸ List.mem_cons_self)
        rw [hevents, List.erase_cons_head] at hnext
        refine ih hnext hleft ?_
        rw [hevents, List.length_cons] at hsteps
        show _ + rest.length < n
        omega
      · -- Some job is out, but all that were handed out have ended.
        rename_i hstarted hevents
        obtain ⟨id, hid, hnot⟩ := hcore.exists_outstanding hg (hs.keepRunning_eq.trans hkeep)
        have hids := h.settles_start.perm_ids
        have howed : Worker.owed workers = [] :=
          List.flatMap_eq_nil_iff.2 fun w hw => by rw [hleft w hw, List.map_nil]
        rw [howed, Execution.untold, hevents] at hids
        rw [← hs.dispatched.mem_iff, hstarted, List.nil_append, ← hids.mem_iff] at hid
        exact absurd (by simpa using hid) hnot
    · rename_i hkeep
      exact ⟨Bool.not_eq_true _ ▸ hkeep, told, workers, done, h⟩

/-- **Carrying a plan out comes to its end**, as workers do who take turns. -/
theorem BuildPlan.execute_ended [ProcessWorld ω] (hg : plan.graph.WellFormed)
    (policy : FailurePolicy) (concurrency : Nat) (observe : WorldObserver ω σ) (world : ω)
    (observed : σ) :
    (plan.execute policy concurrency observe world observed).keepRunning = false ∧
      ∃ told workers done, Interleaving (.ofProcesses ω) observe
        (.start plan policy concurrency world observed) told workers done
        (plan.execute policy concurrency observe world observed) :=
  Interleaving.start.advance hg _ (fun _ hw => absurd hw List.not_mem_nil) (Nat.lt_succ_self _)

/-- **Reports account for every job**: in whatever order workers take turns, and whatever their
processes, the observer and the world do, the report of an execution that has ended tells what
became of each job, and so does the report of an execution that runs jobs one after the other,
which always ends. -/
theorem BuildPlan.every_report_accounts (hg : plan.graph.WellFormed) (policy : FailurePolicy)
    (concurrency : Nat) (observe : WorldObserver ω σ) (world : ω) (observed : σ) :
    (∀ env told workers done e, Interleaving env observe
        (.start plan policy concurrency world observed) told workers done e →
      e.keepRunning = false → e.Accounts env plan workers) ∧
    ∀ [ProcessWorld ω], ∃ workers,
      (plan.execute policy concurrency observe world observed).Accounts (.ofProcesses ω) plan
        workers := by
  refine ⟨fun env told workers done e h hend => h.accounts hg hend, ?_⟩
  intro _
  obtain ⟨hend, told, workers, done, h⟩ :=
    BuildPlan.execute_ended hg policy concurrency observe world observed
  exact ⟨workers, h.accounts hg hend⟩

/-! The sides of the diamond run side by side. The left one exits with an error line, the right one
cannot be started. The left worker files what it has, then the right worker does everything, and
then the left one notes its failure and tells the core. -/

namespace Scheduler.Diamond

/-- Processes may end in any way. -/
def anyProcess : Environment Unit where
  runs _ _ _ := True
  drifts _ _ := False

def left : Job := job 1 "left" [0]

def right : Job := job 2 "right" [0]

def leftRun : ProcessRun Unit := ⟨(), .ok ⟨2, "", "left.src:1: error: bad name"⟩, false⟩

def rightRun : ProcessRun Unit := ⟨(), .error ⟨"compiler", "not found"⟩, false⟩

/-- The execution in which the left worker has begun before the right one, which is done first. -/
theorem exists_interleaving : ∃ told workers done e,
    Interleaving anyProcess silent (.start lower .continueOnFailure 2 () ()) told workers done e ∧
      e.keepRunning = false ∧ workers.map (·.job) = [left, right] ∧
      e.report.jobs.map (fun report => (report.id, report.status))
        = [(0, .skipped), (1, .failed), (2, .failed), (3, .blocked)] := by
  let begun : Execution Unit Unit := .start lower .continueOnFailure 2 () ()
  have hone : Interleaving anyProcess silent begun [] ([] ++ [.fresh left leftRun.result]) []
      (begun.exit 1 leftRun) := .exit .start (by decide +kernel) rfl trivial
  have htwo : Interleaving anyProcess silent begun []
      ([] ++ [.fresh left leftRun.result] ++ [.fresh right rightRun.result]) []
      ((begun.exit 1 leftRun).exit 2 rightRun) := .exit hone (by decide +kernel) rfl trivial
  let leftLast : List Deed := [.note (.exit 2), .tell (.failed (.exit 2))]
  have hleft : Worker.fresh left leftRun.result = ⟨left, leftRun.result,
      (Worker.fresh left leftRun.result).collected.map .file ++ leftLast⟩ := by
    rw [Worker.fresh, Worker.deeds, List.append_assoc]
    rfl
  have hfiled := Interleaving.work [] [.fresh right rightRun.result] _ leftLast (hleft ▸ htwo)
  have hright := Interleaving.work [⟨left, leftRun.result, leftLast⟩] []
    (Worker.fresh right rightRun.result).deeds [] (by rw [List.append_nil]; exact hfiled)
  have hdone := Interleaving.work [] [⟨right, rightRun.result, []⟩] leftLast [] hright
  have htold := (hdone.handle (by decide +kernel)
    (show .jobFinished 2 (.failed (.spawn "not found")) ∈ _ by decide +kernel)).handle
      (by decide +kernel) (show .jobFinished 1 (.failed (.exit 2)) ∈ _ by decide +kernel)
  exact ⟨_, _, _, _, htold, by decide +kernel, rfl, by decide +kernel⟩

end Scheduler.Diamond

open Scheduler.Diamond in
theorem BuildPlan.every_report_accounts_diamond : ∃ told workers done e,
    Interleaving anyProcess silent (.start lower .continueOnFailure 2 () ()) told workers done e ∧
      lower.graph.WellFormed ∧ e.keepRunning = false ∧ workers.map (·.job) = [left, right] ∧
      e.report.jobs.map (fun report => (report.id, report.status))
        = [(0, .skipped), (1, .failed), (2, .failed), (3, .blocked)] ∧
      e.Accounts anyProcess lower workers := by
  obtain ⟨told, workers, done, e, h, hend, hworkers, hjobs⟩ := exists_interleaving
  exact ⟨told, workers, done, e, h, graph_wellFormed, hend, hworkers, hjobs,
    (BuildPlan.every_report_accounts graph_wellFormed .continueOnFailure 2 silent () ()).1
      anyProcess told workers done e h hend⟩

end Accounts

end IncrementalBuild
