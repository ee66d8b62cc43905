import IncrementalBuild.Proofs.Plan.Stages
import IncrementalBuild.Proofs.Soundness
import IncrementalBuild.Proofs.StateFile

/-!
# Nothing unfinished is forgotten

The keys of the jobs that a build left unfinished are saved under the names that the jobs
have without batches. The next build either reads them, and schedules whatever job it has
planned under one of them, or trusts nothing and schedules every job.
-/

namespace IncrementalBuild

/-- Whether a job with this status is still to be done. -/
def JobStatus.IsUnfinished (status : JobStatus) : Prop :=
  status = .failed ∨ status = .blocked ∨ status = .cancelled

theorem JobStatus.isUnfinished_iff {status : JobStatus} :
    status.IsUnfinished ↔ status.isSuccess = false := by
  cases status <;> simp [IsUnfinished, isSuccess]

section Run

variable {ω : Type} [FileSystem ω] {env : Environment ω} {r : BuildRequest}
  {scan : Option (Scanner ω)} {world world' : ω} {b : PlannedBuild} {told : List (Told ω)}
  {ended : Execution ω Tracker} {prior : StateLoad} {modules : Option ModuleGraph}
  {start : DirtyInputs} {g : JobGraph}

/-- **The keys of an unfinished job are saved.** -/
theorem PlannedBuild.Prepared.contains_staleJobs (hb : b.Prepared r prior modules world' start g)
    (hrun : Course env Tracker.observer (r.begin b world') told ended)
    (hprior : (DirtyInputs.trusted prior).graph.UniqueKeys) {job : Job}
    (hjob : job ∈ b.plan.graph.jobs) (hstatus : (ended.statusOf job.id).IsUnfinished)
    {key : JobKey} (hkey : key ∈ job.originKeys) :
    (ended.observed.finish ended.report.jobs).staleJobs.contains key = true := by
  obtain ⟨place, hgathers⟩ := hb.gathers
  obtain ⟨-, order, -, hholds⟩ := BuildRequest.holds_of_plan hb.planned
  have hsound := BuildRequest.sound_of_course hb hrun
  have hplan : ended.observed.plan = b.plan := ((hb.begins hprior).attends hrun).plan
  have hgraph := hb.serves.wellFormed
  have hmine {report : JobReport} (hreport : report ∈ ended.report.jobs)
      (hof : Tracker.IsOf b.plan.graph report key) :
      report.status = ended.statusOf job.id := by
    obtain ⟨j, hj, rfl⟩ := Execution.mem_report_jobs.1 hreport
    obtain ⟨other, hother, hk⟩ := hof
    obtain ⟨hmem, hid⟩ := hgraph.job?_eq_some_iff.1 hother
    rw [hgathers.eq_of_mem_originKeys hholds.originKeys_eq hholds.wellFormed hmem hjob hk hkey]
      at hid
    exact congrArg ended.statusOf hid.symm
  refine (Tracker.contains_finish _ _ _).2 ⟨?_, job, hplan ▸ hjob, hkey⟩
  rw [hplan, Tracker.contains_foldl_noteStatus fun report hreport hs hof => ?_]
  · exact .inl ⟨_, Execution.mem_report_jobs.2 ⟨job, hsound.plan_eq ▸ hjob, rfl⟩,
      JobStatus.isUnfinished_iff.1 hstatus, job, hgraph.job?_id hjob, hkey⟩
  · rw [← hmine hreport hof, hs] at hstatus
    simp [JobStatus.IsUnfinished] at hstatus

/-- **A stale job is scheduled**, and without a state to trust every job is. -/
theorem PlannedBuild.Prepared.isScheduled_of_stale
    (hb : b.Prepared r prior modules world' start g) {m : Job} (hm : m ∈ g.jobs)
    (h : (∃ state, prior = .loaded state ∧ state.staleJobs.contains m.key = true) ∨
      ∀ state, prior ≠ .loaded state) :
    ((g.prune (r.changesFor g start) world').disposition m.id).isScheduled = true := by
  obtain ⟨-, order, -, hholds⟩ := BuildRequest.holds_of_plan hb.planned
  rcases h with ⟨state, rfl, hstale⟩ | hnone
  · refine (JobGraph.isScheduled_prune_iff hholds.wellFormed _ world' hm).2 (.inl ?_)
    refine (Changes.isSome_reason?_iff _ world').2
      (.inr (.inr (.inr (.inl ⟨m.key, ?_, ?_⟩))))
    · rw [hholds.originKeys_eq m hm]
      exact List.mem_cons_self
    · have hkept : start.state.staleJobs.contains m.key = true := by
        rw [hb.starts.staleJobs]
        exact hstale
      show (BuildRequest.staleKeys g start.state start.removed).contains m.key = true
      unfold BuildRequest.staleKeys
      split
      · exact hkept
      · rw [← List.foldl_map (f := Job.key) (g := OrderedSet.add), OrderedSet.contains_foldl_add,
          hkept, Bool.true_or]
  · refine hholds.isScheduled_of_dirty _ world' (fun i hi => ?_) hm
    have hfresh : start = DirtyInputs.fresh r.trackedInputs := by
      have := hb.started
      unfold DirtyInputs.compute at this
      split at this
      · exact absurd rfl (hnone _)
      · exact (Except.ok.inj this).symm
      · exact (Except.ok.inj this).symm
    show start.dirty.contains i.path = true
    rw [hfresh]
    exact DirtyInputs.contains_dirty_fresh hi

/-- What is loaded in place of a saved state has its unfinished jobs. -/
theorem BuildRequest.staleJobs_of_priorState {next : ω} {saved state : BuildState}
    (hkept : ∀ text, FileSystem.readText next r.statePath = .ok text →
      text = (SavedState.ofState saved).print)
    (h : r.priorState next = .loaded state) : state.staleJobs = saved.staleJobs := by
  have hload := (priorState_eq_loaded_iff.1 h).1
  unfold StateLoad.ofFile at hload
  split at hload
  · split at hload
    · cases hload
    · rename_i text htext
      rw [hkept text htext] at hload
      exact (StateLoad.ofText_print hload).2.1
  · cases hload

/-- **Nothing unfinished is forgotten.** Whatever job a build reports as failed, blocked or
cancelled, each key that the job was planned as is, in the next plan for the request, a key
of a scheduled job, whatever batches either plan forms; unless it is the key of building an
imported module that the next scan does not know any more. The next build may find the state
file as it was saved, or unreadable, or gone. -/
theorem BuildRequest.scheduled_of_unfinished {next next' : ω} {scan' : Option (Scanner ω)}
    {b' : PlannedBuild} {saved : BuildState} {job : Job} {status : JobStatus} {key : JobKey}
    (hprep : r.prepare scan world = (.ok b, world'))
    (hrun : Course env Tracker.observer (r.begin b world') told ended)
    (hsaved : (r.conclude ended).report.state = some saved)
    (hkept : ∀ text, FileSystem.readText next r.statePath = .ok text →
      text = (SavedState.ofState saved).print)
    (hnext : r.prepare scan' next = (.ok b', next'))
    (hjob : job ∈ b.plan.graph.jobs)
    (hstatus : (r.conclude ended).report.statusOf? job.key = some status)
    (hunfinished : status.IsUnfinished) (hkey : key ∈ job.originKeys) :
    (∃ job' ∈ b'.plan.graph.jobs, key ∈ job'.originKeys ∧
        (b'.plan.disposition job'.id).isScheduled = true) ∨
      ∃ name modules', key = .buildModule name ∧
        (r.scanModules scan' next).1 = .ok (some modules') ∧
        modules'.modules.contains name = false := by
  have hunique := r.uniqueKeys_trusted world
  obtain ⟨modules, start, g, -, hb⟩ := prepared_of_prepare hprep
  obtain ⟨modules', start', g', hscan', hb'⟩ := prepared_of_prepare hnext
  obtain ⟨place, hgathers⟩ := hb.gathers
  obtain ⟨place', hgathers'⟩ := hb'.gathers
  obtain ⟨-, order, horder, hholds⟩ := holds_of_plan hb.planned
  obtain ⟨-, order', horder', hholds'⟩ := holds_of_plan hb'.planned
  -- The job is stale in the saved state, under each key that it was planned as.
  have hsound := sound_of_course hb hrun
  have hstatusOf : ended.statusOf job.id = status := by
    have : ended.report.statusOf? job.key = some (ended.statusOf job.id) :=
      ended.statusOf?_report (hsound.plan_eq ▸ hb.serves.wellFormed) (hsound.plan_eq ▸ hjob)
    exact Option.some.inj (this.symm.trans hstatus)
  have hstale := hb.contains_staleJobs hrun hunique hjob (hstatusOf ▸ hunfinished) hkey
  obtain rfl := Option.some.inj hsaved
  -- The key is that of a job asked for by the request, before any batches were formed.
  obtain ⟨m, hm, rfl, -⟩ := hgathers.exists_member hholds.originKeys_eq hjob hkey
  obtain ⟨draft, hget, he⟩ := hholds.exists_draft hm
  have hmkey : m.key = draft.key := by rw [he]
  rw [hmkey]
  -- The next plan asks for a job with the same key, unless the job builds a module that the next
  -- scan does not know.
  have halike : (r.setting modules order).Alike (r.setting modules' order') := ⟨rfl, rfl⟩
  rcases halike.exists_key hholds'.proper (List.mem_of_getElem? hget) with
    ⟨draft', hdraft', hsame⟩ | ⟨name, hbuilt, hname, hout⟩
  · left
    obtain ⟨id', hmem'⟩ := hholds'.exists_job hdraft'
    obtain ⟨job', hjob', hkey', hscheduled⟩ :=
      hgathers'.exists_gathering hholds'.originKeys_eq hmem'
    refine ⟨job', hjob', hsame ▸ hkey', hscheduled.trans (hb'.isScheduled_of_stale hmem' ?_)⟩
    -- A state that is loaded is the one that was saved, so the job is stale in it. Without a
    -- loaded state everything is scheduled.
    cases hload : r.priorState next with
    | loaded state =>
      refine .inl ⟨state, rfl, ?_⟩
      rw [staleJobs_of_priorState hkept hload]
      show OrderedMap.contains _ draft'.key = true
      rw [hsame, ← hmkey]
      exact hstale
    | missing => exact .inr fun state h => by cases h
    | corrupt fault => exact .inr fun state h => by cases h
  · right
    -- Modules are built only where the request says so, and then there was a scan.
    have hexplicit : r.explicitModules = true := by
      by_contra hno
      rw [if_neg hno] at horder
      rw [show (r.setting modules order).moduleOrder = order from rfl, horder] at hbuilt
      exact absurd hbuilt List.not_mem_nil
    obtain ⟨found, rfl⟩ := exists_eq_some_of_scanModules hexplicit (congrArg Prod.fst hscan')
    refine ⟨name, found, hname, by rw [hscan'], ?_⟩
    rw [if_pos hexplicit] at horder'
    have hmem : name ∈ order' ↔ found.modules.contains name = true :=
      (ModuleGraph.orders_of_buildOrder horder').mem_iff name
    rw [← Bool.not_eq_true, ← hmem]
    exact hout

/-- What a build saves was made with the choices of the request. -/
theorem PlannedBuild.Prepared.options_finish (hb : b.Prepared r prior modules world' start g)
    (hprior : (DirtyInputs.trusted prior).graph.UniqueKeys)
    (hrun : Course env Tracker.observer (r.begin b world') told ended) :
    (ended.observed.finish ended.report.jobs).options = some r.optionsFingerprint := by
  rw [(Tracker.finish_rest _ _).2.1, ((hb.begins hprior).attends hrun).options]
  show b.state.options = _
  rw [hb.state]

end Run

/-! ### A module that cannot be built and is not known any more -/

namespace OneModule

/-- One input is to be compiled, with explicit modules. -/
def request : BuildRequest :=
  { BuildRequest.forObjects [⟨⟨"a"⟩, ⟨"1"⟩⟩] with explicitModules := true }

/-- The input imports a module. -/
def modules : ModuleGraph where
  modules := OrderedMap.ofList [("M", ⟨⟨"M.interface"⟩, ∅⟩)]
  imports := OrderedMap.ofList [(⟨"a"⟩, OrderedSet.ofList ["M"])]

/-- The module cannot be built. -/
def world : SimulatedTools :=
  { SimulatedTools.ofFiles .empty with
    script := { ToolScript.empty with
      fail := OrderedMap.ofList [(⟨"out/modules/M.module"⟩, 1)] } }

/-- Whether building the module has failed, so that the input is blocked, and a build that
knows no modules any more has no job for it. -/
def Forgets (b : PlannedBuild) (ended : Execution SimulatedTools Tracker) : Bool :=
  let finished := request.conclude ended
  let saved := ended.observed.finish ended.report.jobs
  let reported (key : JobKey) (status : JobStatus) : Bool := b.plan.graph.jobs.any fun job =>
    job.originKeys == [key] && finished.report.statusOf? job.key == some status
  saved.graph.files.entries.isEmpty
    && reported (.buildModule "M") .failed && reported (.compile ⟨"a"⟩) .blocked
    && (DirtyInputs.ofState { saved with graph := .empty } request.trackedInputs).toOption.any
      fun start => (request.planFrom finished.world start (some .empty)).toOption.any fun b' =>
        b'.plan.graph.jobs.all fun job' => !job'.originKeys.contains (.buildModule "M")

theorem exists_builds : ∃ (b : PlannedBuild) (world' : SimulatedTools)
    (told : List (Told SimulatedTools)) (ended : Execution SimulatedTools Tracker)
    (saved : BuildState) (b' : PlannedBuild),
    request.prepare (some (.known modules)) world = (.ok b, world') ∧
    Course (.ofProcesses SimulatedTools) Tracker.observer (request.begin b world') told ended ∧
    (request.conclude ended).report.state = some saved ∧
    (∀ text, FileSystem.readText (request.conclude ended).world request.statePath = .ok text →
      text = (SavedState.ofState saved).print) ∧
    request.prepare (some (.known .empty)) (request.conclude ended).world
      = (.ok b', (request.conclude ended).world) ∧
    (∃ job ∈ b.plan.graph.jobs, job.originKeys = [.buildModule "M"] ∧
      (request.conclude ended).report.statusOf? job.key = some .failed) ∧
    (∃ job ∈ b.plan.graph.jobs, job.originKeys = [.compile ⟨"a"⟩] ∧
      (request.conclude ended).report.statusOf? job.key = some .blocked) ∧
    ∀ job' ∈ b'.plan.graph.jobs, JobKey.buildModule "M" ∉ job'.originKeys := by
  obtain ⟨b, world', told, ended, hprep, hrun, hchecked⟩ :=
    request.exists_course_of_check (some (.known modules)) world Forgets (by decide +kernel)
  obtain ⟨known, start, g, -, hb⟩ := BuildRequest.prepared_of_prepare hprep
  have hoptions := hb.options_finish (request.uniqueKeys_trusted world) hrun
  unfold Forgets at hchecked
  simp only [Bool.and_eq_true, List.any_eq_true, beq_iff_eq] at hchecked
  obtain ⟨⟨⟨hnone, hfailed⟩, hblocked⟩, hnext⟩ := hchecked
  generalize hsaved : ended.observed.finish ended.report.jobs = saved at *
  -- Without declarations the state is loaded as it was saved.
  have hentries : (SavedState.ofState saved).declarations.entries = [] := List.isEmpty_iff.1 hnone
  have hgraph : SavedState.graphOf (SavedState.ofState saved).declarations.entries .empty
      = .ok .empty := by
    rw [hentries]
    rfl
  have hfiles : (request.conclude ended).world.files = ended.world.files.addFile request.statePath
      (SavedState.ofState saved).print.toUTF8 := hsaved ▸ rfl
  have hload : request.priorState (request.conclude ended).world
      = .loaded { saved with graph := .empty } := by
    refine BuildRequest.priorState_eq_loaded_iff.2 ⟨?_, hoptions⟩
    rw [SimulatedTools.ofFile_files, hfiles, MemoryFiles.ofFile_addFile,
      StateLoad.ofText_print_of_graphOf hgraph]
  cases hstart : DirtyInputs.ofState { saved with graph := .empty } request.trackedInputs with
  | error e =>
    rw [hstart] at hnext
    cases hnext
  | ok start' =>
  rw [hstart] at hnext
  cases hb' : request.planFrom (request.conclude ended).world start' (some .empty) with
  | error e =>
    have hnext := Option.any_some.symm.trans hnext
    rw [hb'] at hnext
    cases hnext
  | ok b' =>
  have hnext := Option.any_some.symm.trans hnext
  rw [hb'] at hnext
  refine ⟨b, world', told, ended, saved, b', hprep, hrun, hsaved ▸ rfl, fun text htext => ?_, ?_,
    hfailed, hblocked, fun job' hjob' hkey => ?_⟩
  · have hread : FileSystem.readText (request.conclude ended).world.files request.statePath
        = .ok (SavedState.ofState saved).print := by
      rw [hfiles]
      exact MemoryFiles.readText_of_get? (OrderedMap.get?_insert_self _ _ _)
    exact Except.ok.inj (htext.symm.trans hread)
  · have hstart : DirtyInputs.compute (request.priorState (request.conclude ended).world)
        request.trackedInputs = .ok start' := by
      rw [hload]
      exact hstart
    rw [← hb']
    exact BuildRequest.prepare_eq hstart rfl
  · have := List.all_eq_true.1 (Option.any_some.symm.trans hnext) job' hjob'
    rw [List.contains_iff_mem.2 hkey] at this
    cases this

/-- A key that failed is a key of no job of the next plan: the module that it is to build is
not known any more. -/
theorem exists_forgotten : ∃ (b : PlannedBuild) (world' : SimulatedTools)
    (told : List (Told SimulatedTools)) (ended : Execution SimulatedTools Tracker)
    (saved : BuildState) (b' : PlannedBuild) (job : Job) (key : JobKey),
    request.prepare (some (.known modules)) world = (.ok b, world') ∧
    Course (.ofProcesses SimulatedTools) Tracker.observer (request.begin b world') told ended ∧
    (request.conclude ended).report.state = some saved ∧
    request.prepare (some (.known .empty)) (request.conclude ended).world
      = (.ok b', (request.conclude ended).world) ∧
    job ∈ b.plan.graph.jobs ∧
    (request.conclude ended).report.statusOf? job.key = some .failed ∧ key ∈ job.originKeys ∧
    ¬ ∃ job' ∈ b'.plan.graph.jobs, key ∈ job'.originKeys ∧
      (b'.plan.disposition job'.id).isScheduled = true := by
  obtain ⟨b, world', told, ended, saved, b', hprep, hrun, hsaved, -, hnext,
    ⟨job, hjob, hkeys, hfailed⟩, -, hforgotten⟩ := exists_builds
  refine ⟨b, world', told, ended, saved, b', job, .buildModule "M", hprep, hrun, hsaved, hnext,
    hjob, hfailed, hkeys ▸ List.mem_cons_self, ?_⟩
  rintro ⟨job', hjob', hkey, -⟩
  exact hforgotten job' hjob' hkey

/-- The input that was blocked is scheduled. -/
theorem exists_scheduled : ∃ (b : PlannedBuild) (world' : SimulatedTools)
    (told : List (Told SimulatedTools)) (ended : Execution SimulatedTools Tracker)
    (saved : BuildState) (b' : PlannedBuild) (job : Job) (status : JobStatus) (key : JobKey),
    let next := (request.conclude ended).world
    request.prepare (some (.known modules)) world = (.ok b, world') ∧
    Course (.ofProcesses SimulatedTools) Tracker.observer (request.begin b world') told ended ∧
    (request.conclude ended).report.state = some saved ∧
    (∀ text, FileSystem.readText next request.statePath = .ok text →
      text = (SavedState.ofState saved).print) ∧
    request.prepare (some (.known .empty)) next = (.ok b', next) ∧
    job ∈ b.plan.graph.jobs ∧
    (request.conclude ended).report.statusOf? job.key = some status ∧ status.IsUnfinished ∧
    key ∈ job.originKeys ∧
    ((∃ job' ∈ b'.plan.graph.jobs, key ∈ job'.originKeys ∧
        (b'.plan.disposition job'.id).isScheduled = true) ∨
      ∃ name modules', key = .buildModule name ∧
        (request.scanModules (some (.known .empty)) next).1 = .ok (some modules') ∧
        modules'.modules.contains name = false) := by
  obtain ⟨b, world', told, ended, saved, b', hprep, hrun, hsaved, hkept, hnext, -,
    ⟨job, hjob, hkeys, hblocked⟩, -⟩ := exists_builds
  have hunfinished : JobStatus.blocked.IsUnfinished := .inr (.inl rfl)
  have hkey : JobKey.compile ⟨"a"⟩ ∈ job.originKeys := hkeys ▸ List.mem_cons_self
  exact ⟨b, world', told, ended, saved, b', job, .blocked, .compile ⟨"a"⟩, hprep, hrun, hsaved,
    hkept, hnext, hjob, hblocked, hunfinished, hkey,
    BuildRequest.scheduled_of_unfinished hprep hrun hsaved hkept hnext hjob hblocked hunfinished
      hkey⟩

end OneModule

end IncrementalBuild
