import IncrementalBuild.Proofs.History
import IncrementalBuild.Proofs.Unfinished

/-!
# Builds one after the other

A build begins with the state that the last one saved. Within one build, what waits for a
job that was done is done too or left unfinished, and what is left unfinished is scheduled
by the next build. So as long as each build plans a product, the product is not kept once
something that it is made from was made again. That one job waits for another can be told
from their keys, so this holds across builds with different requests.

Keys of jobs that a build does not plan are forgotten, however. A product that is left out
of a build, and asked for again in the next one, is kept although it is out of date.
-/

namespace IncrementalBuild

/-- **A build that was prepared and then carried out** in some environment. -/
structure BuildRun (ω : Type) [FileSystem ω] where
  request : BuildRequest
  scan : Option (Scanner ω)
  /-- The world in which the build is prepared. -/
  before : ω
  planned : PlannedBuild
  /-- The world in which the jobs are run. -/
  world : ω
  env : Environment ω
  told : List (Told ω)
  ended : Execution ω Tracker
  prepared : request.prepare scan before = (.ok planned, world)
  course : Course env Tracker.observer (request.begin planned world) told ended

namespace BuildRun

section Run

variable {ω : Type} [FileSystem ω]

/-- The jobs that are planned. -/
def jobs (run : BuildRun ω) : List Job := run.planned.plan.graph.jobs

def report (run : BuildRun ω) : ExecutionReport := (run.request.conclude run.ended).report

/-- The state that is saved. -/
def saved (run : BuildRun ω) : BuildState := run.ended.observed.finish run.ended.report.jobs

/-- The world in which the state was saved. -/
def after (run : BuildRun ω) : ω := (run.request.conclude run.ended).world

/-- Whether a job that was planned as the one with a key ended with a status. -/
def Reports (run : BuildRun ω) (key : JobKey) (status : JobStatus) : Prop :=
  ∃ job ∈ run.jobs, key ∈ job.originKeys ∧ run.report.statusOf? job.key = some status

/-- **Whether one build comes after another**: what it finds in its state file, if it can be
read, is what the other one saved. Builds that could not be planned may have been tried in
between, since they save nothing. -/
structure Leads (run next : BuildRun ω) : Prop where
  mode : next.request.mode = run.request.mode
  kept : ∀ text, FileSystem.readText next.before next.request.statePath = .ok text →
    text = (SavedState.ofState run.saved).print

variable (run : BuildRun ω)

theorem exists_prepared : ∃ modules start g,
    run.request.scanModules run.scan run.before = (.ok modules, run.world) ∧
      run.planned.Prepared run.request (run.request.priorState run.before) modules run.world
        start g :=
  BuildRequest.prepared_of_prepare run.prepared

variable {run} {job before other : Job} {key : JobKey} {status : JobStatus}

theorem sound : run.ended.Sound run.planned.plan := by
  obtain ⟨modules, start, g, -, hb⟩ := run.exists_prepared
  exact BuildRequest.sound_of_course hb run.course

/-- Every planned job is reported. -/
theorem statusOf?_eq (hjob : job ∈ run.jobs) :
    run.report.statusOf? job.key = some (run.ended.statusOf job.id) := by
  obtain ⟨modules, start, g, -, hb⟩ := run.exists_prepared
  have hplan := run.sound.plan_eq
  exact run.ended.statusOf?_report (hplan ▸ hb.serves.wellFormed) (hplan ▸ hjob)

/-- What is reported of a key is what the job that was planned as it ended with. -/
theorem reports_iff (hjob : job ∈ run.jobs) (hkey : key ∈ job.originKeys) :
    run.Reports key status ↔ run.ended.statusOf job.id = status := by
  obtain ⟨modules, start, g, -, hb⟩ := run.exists_prepared
  constructor
  · rintro ⟨other, hother, hkey', hstatus⟩
    obtain rfl := hb.eq_of_mem_originKeys hjob hother hkey hkey'
    exact Option.some.inj ((statusOf?_eq hjob).symm.trans hstatus)
  · rintro rfl
    exact ⟨job, hjob, hkey, statusOf?_eq hjob⟩

theorem skipped_iff (hjob : job ∈ run.jobs) :
    run.ended.statusOf job.id = .skipped ↔ run.ended.core.scheduler.isClean job.id := by
  obtain ⟨modules, start, g, -, hb⟩ := run.exists_prepared
  refine Execution.statusOf_eq_skipped_iff run.sound.scheduler ?_
  rw [run.sound.plan_eq]
  exact hb.serves.wellFormed.id_lt hjob

/-- A skipped job was not scheduled. -/
theorem isScheduled_of_skipped (hjob : job ∈ run.jobs)
    (h : run.ended.statusOf job.id = .skipped) :
    (run.planned.plan.disposition job.id).isScheduled = false := by
  obtain ⟨modules, start, g, -, hb⟩ := run.exists_prepared
  have hattends := (hb.begins (run.request.uniqueKeys_trusted run.before)).attends run.course
  exact hattends.leftOut job hjob ((skipped_iff hjob).1 h)

end Run

end BuildRun

/-! ## Commands that are the same -/

namespace BuildRequest

/-- The fingerprint of a command is that of a job with its key. -/
theorem exists_of_get?_commandFingerprints {r : BuildRequest} {g : JobGraph} {key : JobKey}
    {f : Fingerprint} (h : (r.commandFingerprints g).get? key = some f) :
    ∃ job ∈ g.jobs, job.key = key ∧ f = job.command.fingerprint fun arg =>
      job.isCompile && (r.sourcePaths.map (·.text)).contains arg := by
  unfold commandFingerprints at h
  rw [OrderedMap.get?_ofList, Option.map_eq_some_iff] at h
  obtain ⟨entry, hentry, rfl⟩ := h
  obtain ⟨job, hjob, rfl⟩ := List.mem_map.1 (List.mem_reverse.1 (List.mem_of_find?_eq_some hentry))
  have hkey : compare job.key key = .eq := by
    have := List.find?_some hentry
    simpa using this
  exact ⟨job, hjob, Std.LawfulEqOrd.eq_of_compare hkey, rfl⟩

/-- **No command is changed** if each job of a graph has the command that a job of the last
one had which was known by the same key. -/
theorem changedCommands_eq_empty_of_same {r r' : BuildRequest} {g g' : JobGraph}
    (hsources : r'.sourcePaths = r.sourcePaths)
    (hsame : ∀ job ∈ g.jobs, ∀ job' ∈ g'.jobs, job.key = job'.key →
      job.isCompile = job'.isCompile ∧ job.command = job'.command) :
    changedCommands (r'.commandFingerprints g') (r.commandFingerprints g) = ∅ := by
  -- The fingerprints are never computed: equal commands give equal terms.
  refine OrderedMap.ext_entries (List.map_eq_nil_iff.2 (List.filter_eq_nil_iff.2 ?_))
  rintro ⟨key, f⟩ hentry
  obtain ⟨job', hjob', hkey', rfl⟩ :=
    exists_of_get?_commandFingerprints (OrderedMap.get?_of_mem hentry)
  dsimp only
  cases hold : (r.commandFingerprints g).get? key with
  | none => exact Bool.false_ne_true
  | some old =>
    obtain ⟨job, hjob, hkey, rfl⟩ := exists_of_get?_commandFingerprints hold
    obtain ⟨hc, hcommand⟩ := hsame job hjob job' hjob' (hkey.trans hkey'.symm)
    rw [hc, hcommand, hsources]
    simp

/-- What was recorded of commands does not matter for a plan, if none has changed. -/
theorem planFrom_eq_of_commands {ω : Type} [FileSystem ω] {r : BuildRequest} {world : ω}
    {start : DirtyInputs} {modules : Option ModuleGraph} {g : JobGraph}
    (hg : r.plan modules = .ok g)
    (h : changedCommands (r.commandFingerprints g) start.state.commands = ∅) :
    r.planFrom world start modules
      = r.planFrom world { start with state := { start.state with commands := ∅ } } modules := by
  have hnone : changedCommands (r.commandFingerprints g) ∅ = ∅ :=
    OrderedMap.ext_entries (List.map_eq_nil_iff.2 (List.filter_eq_nil_iff.2 fun e _ => by simp))
  have hchanges : r.changesFor g start
      = r.changesFor g { start with state := { start.state with commands := ∅ } } := by
    unfold changesFor
    rw [h, hnone]
    rfl
  rw [planFrom_eq hg, planFrom_eq hg, ← hchanges]

/-- Whether jobs with the same key have the same command in the plans of two requests. -/
def sameCommands (r r' : BuildRequest) : Bool :=
  match r.plan none, r'.plan none with
  | .ok g, .ok g' => g.jobs.all fun job => g'.jobs.all fun job' =>
      job.key != job'.key || (job.isCompile == job'.isCompile && job.command == job'.command)
  | _, _ => true

/-- **Whether one request can go on where another left off**: without modules to build, and
with the same inputs and choices as far as compiling depends on them. -/
structure Akin (r next : BuildRequest) : Prop where
  plain : r.explicitModules = false
  plainNext : next.explicitModules = false
  mode : next.mode = r.mode
  statePath : next.statePath = r.statePath
  options : next.optionsFingerprint = r.optionsFingerprint
  sources : next.sourcePaths = r.sourcePaths
  commands : r.sameCommands next = true

theorem Akin.changedCommands_eq_empty {r next : BuildRequest} {g g' : JobGraph} (h : r.Akin next)
    (hg : r.plan none = .ok g) (hg' : next.plan none = .ok g') :
    changedCommands (next.commandFingerprints g') (r.commandFingerprints g) = ∅ := by
  refine changedCommands_eq_empty_of_same h.sources fun job hjob job' hjob' hkey => ?_
  have hsame := h.commands
  unfold sameCommands at hsame
  rw [hg, hg'] at hsame
  have := List.all_eq_true.1 (List.all_eq_true.1 hsame job hjob) job' hjob'
  simpa [hkey] using this

end BuildRequest

/-! ## Builds with simulated tools -/

namespace BuildRun

/-- What is checked of the build that comes next, where nothing was declared and commands
are the same. -/
def checkNext (r next : BuildRequest) (ended : Execution SimulatedTools Tracker)
    (P : PlannedBuild → Execution SimulatedTools Tracker → Bool) : Bool :=
  let saved := ended.observed.finish ended.report.jobs
  let world := (r.conclude ended).world
  saved.graph.files.entries.isEmpty
    && match DirtyInputs.ofState { saved with graph := .empty } next.trackedInputs with
      | .error _ => false
      | .ok start =>
        match next.planFrom world { start with state := { start.state with commands := ∅ } }
          none with
        | .error _ => false
        | .ok b =>
          P b (b.plan.execute next.policy next.concurrency Tracker.observer world (next.tracker b))

variable {run : BuildRun SimulatedTools} {next : BuildRequest}

theorem files_after : run.after.files = run.ended.world.files.addFile run.request.statePath
    (SavedState.ofState run.saved).print.toUTF8 := rfl

/-- What a build saved is read by the next one. -/
theorem readText_after :
    FileSystem.readText run.after run.request.statePath
      = .ok (SavedState.ofState run.saved).print := by
  show FileSystem.readText run.after.files _ = _
  rw [files_after]
  exact MemoryFiles.readText_of_get? (OrderedMap.get?_insert_self _ _ _)

/-- Without declarations the state is loaded as it was saved. -/
theorem priorState_after (hakin : run.request.Akin next)
    (hnone : run.saved.graph.files.entries = []) :
    next.priorState run.after = .loaded { run.saved with graph := .empty } := by
  obtain ⟨modules, start, g, -, hb⟩ := run.exists_prepared
  have hentries : (SavedState.ofState run.saved).declarations.entries = [] := hnone
  have hgraph : SavedState.graphOf (SavedState.ofState run.saved).declarations.entries .empty
      = .ok .empty := by
    rw [hentries]
    rfl
  have hfiles : run.after.files = run.ended.world.files.addFile next.statePath
      (SavedState.ofState run.saved).print.toUTF8 := by rw [files_after, hakin.statePath]
  refine BuildRequest.priorState_of_addFile hfiles hgraph ?_
  rw [hakin.options]
  exact hb.options_finish (run.request.uniqueKeys_trusted run.before) run.course

/-- The commands that are saved are those of the plan. -/
theorem exists_commands_saved (hexplicit : run.request.explicitModules = false) :
    ∃ g, run.request.plan none = .ok g ∧
      run.saved.commands = run.request.commandFingerprints g := by
  obtain ⟨modules, start, g, hmodules, hb⟩ := run.exists_prepared
  rw [BuildRequest.scanModules_of_plain hexplicit] at hmodules
  obtain rfl : none = modules := Except.ok.inj (Prod.mk.inj hmodules).1
  have hattends := (hb.begins (run.request.uniqueKeys_trusted run.before)).attends run.course
  refine ⟨g, hb.planned, ?_⟩
  show (run.ended.observed.finish _).commands = _
  rw [(Tracker.finish_rest _ _).2.2, hattends.commands]
  show run.planned.state.commands = _
  rw [hb.state]

/-- **A build that was checked comes next.** -/
theorem exists_next (run : BuildRun SimulatedTools) {r : BuildRequest} (hrequest : run.request = r)
    {next : BuildRequest} (hakin : r.Akin next)
    {P : PlannedBuild → Execution SimulatedTools Tracker → Bool}
    (h : checkNext r next run.ended P = true) :
    ∃ run' : BuildRun SimulatedTools, run'.request = next ∧ run'.before = run.after ∧
      run.Leads run' ∧ P run'.planned run'.ended = true := by
  subst hrequest
  obtain ⟨hnone, h⟩ := (Bool.and_eq_true _ _).mp h
  have hnone : run.saved.graph.files.entries = [] := List.isEmpty_iff.1 hnone
  split at h
  · cases h
  rename_i start hstart
  split at h
  · cases h
  rename_i b hb
  have hload := priorState_after hakin hnone
  have hcompute : DirtyInputs.compute (next.priorState run.after) next.trackedInputs
      = .ok start := by
    rw [hload]
    exact hstart
  have hscan : next.scanModules none run.after = (.ok none, run.after) :=
    BuildRequest.scanModules_of_plain hakin.plainNext
  -- The plan was checked as if nothing were known of commands.
  have hplan : next.planFrom run.after start none = .ok b := by
    rw [← hb]
    cases hg' : next.plan none with
    | error e => rw [BuildRequest.planFrom_eq_error hg', BuildRequest.planFrom_eq_error hg']
    | ok g' =>
      refine BuildRequest.planFrom_eq_of_commands hg' ?_
      obtain ⟨g, hg, hsaved⟩ := exists_commands_saved hakin.plain
      rw [(DirtyInputs.starts_of_compute hcompute).commands, hload]
      show BuildRequest.changedCommands _ run.saved.commands = ∅
      rw [hsaved]
      exact hakin.changedCommands_eq_empty hg hg'
  have hprep : next.prepare none run.after = (.ok b, run.after) := by
    rw [BuildRequest.prepare_eq hcompute hscan, hplan]
  obtain ⟨modules, start, g, -, hprepared⟩ := BuildRequest.prepared_of_prepare hprep
  obtain ⟨told, hrun⟩ := hprepared.exists_course
  refine ⟨⟨next, none, run.after, b, run.after, _, told, _, hprep, hrun⟩, rfl, rfl,
    ⟨hakin.mode, fun text htext => ?_⟩, h⟩
  rw [hakin.statePath] at htext
  exact Except.ok.inj (htext.symm.trans readText_after)

end BuildRun

/-! ## What is kept -/

namespace BuildRun

section Run

variable {ω : Type} [FileSystem ω] {run : BuildRun ω} {job before other : Job} {key : JobKey}

/-- **Within a build nothing is skipped behind a job that is not.** -/
theorem skipped_of_prerequisite (hbefore : before ∈ run.jobs) (hjob : job ∈ run.jobs)
    (hp : before.id ∈ job.prerequisites.toList) (hm : before.isModuleBuild = false)
    (h : run.ended.statusOf job.id = .skipped) : run.ended.statusOf before.id = .skipped := by
  obtain ⟨modules, start, g, -, hb⟩ := run.exists_prepared
  have hfollowed : run.ended.core.scheduler.Followed :=
    run.course.history.1 ▸ (CoreHistory.sound_ofTold hb.serves.wellFormed hb.closed).followed
  have hplan := run.sound.plan_eq
  rw [skipped_iff hjob] at h
  exact (skipped_iff hbefore).2 (hfollowed before (hplan ▸ hbefore) job (hplan ▸ hjob) hp hm h)

/-- **Nothing is skipped that the last build left unfinished.** -/
theorem Leads.not_skipped {next : BuildRun ω} (h : run.Leads next) (hjob : job ∈ run.jobs)
    (hunfinished : (run.ended.statusOf job.id).IsUnfinished) (hother : other ∈ next.jobs)
    (hkey : key ∈ job.originKeys) (hkey' : key ∈ other.originKeys) :
    next.ended.statusOf other.id ≠ .skipped := by
  obtain ⟨modules, start, g, -, hb⟩ := run.exists_prepared
  obtain ⟨modules', start', g', -, hb'⟩ := next.exists_prepared
  have hstale : run.saved.staleJobs.contains key = true := hb.contains_staleJobs run.course
    (run.request.uniqueKeys_trusted run.before) hjob hunfinished hkey
  obtain ⟨place, hgathers⟩ := hb'.gathers
  obtain ⟨-, order, -, hholds⟩ := BuildRequest.holds_of_plan hb'.planned
  -- Stale keys are looked up before batches are formed, so the job without batches is needed.
  obtain ⟨m, hm, rfl, -⟩ := hgathers.exists_member hholds.originKeys_eq hother hkey'
  have hscheduled := hb'.isScheduled_of_stale hm (by
    cases hload : next.request.priorState next.before with
    | loaded state =>
      exact .inl ⟨state, rfl, BuildRequest.staleJobs_of_priorState h.kept hload ▸ hstale⟩
    | missing => exact .inr fun state h => by cases h
    | corrupt fault => exact .inr fun state h => by cases h)
  obtain ⟨gathering, hgathering, hmkey, heq⟩ :=
    hgathers.exists_gathering hholds.originKeys_eq hm
  obtain rfl := hb'.eq_of_mem_originKeys hgathering hother hmkey hkey'
  intro hskipped
  rw [hscheduled, isScheduled_of_skipped hother hskipped] at heq
  cases heq

/-- **A job stays undone until it succeeds.** Once it was not skipped, no later build skips
it as long as each build plans it and it does not succeed. -/
theorem not_skipped_of_leads {builds : Nat → BuildRun ω} {k n : Nat} (hkn : k ≤ n)
    (hleads : ∀ m, k ≤ m → m < n → (builds m).Leads (builds (m + 1)))
    (hplanned : ∀ m, k ≤ m → m ≤ n → ∃ job ∈ (builds m).jobs, key ∈ job.originKeys)
    (hlast : ∀ m, k ≤ m → m < n → ¬ (builds m).Reports key .succeeded)
    (h : ¬ (builds k).Reports key .skipped) : ¬ (builds n).Reports key .skipped := by
  induction n, hkn using Nat.le_induction with
  | base => exact h
  | succ n hkn ih =>
    have hnot := ih (fun m hm hmn => hleads m hm (Nat.lt_succ_of_lt hmn))
      (fun m hm hmn => hplanned m hm (Nat.le_succ_of_le hmn))
      (fun m hm hmn => hlast m hm (Nat.lt_succ_of_lt hmn))
    have hdone := hlast n hkn (Nat.lt_succ_self n)
    obtain ⟨job, hjob, hkey⟩ := hplanned n hkn (Nat.le_succ n)
    obtain ⟨other, hother, hkey'⟩ := hplanned (n + 1) (Nat.le_succ_of_le hkn) (Nat.le_refl _)
    rw [reports_iff hjob hkey] at hnot hdone
    rw [reports_iff hother hkey']
    -- Neither skipped nor a success, the job was left unfinished.
    refine (hleads n hkn (Nat.lt_succ_self n)).not_skipped hjob ?_ hother hkey hkey'
    revert hnot hdone
    cases (builds n).ended.statusOf job.id <;> simp [JobStatus.IsUnfinished]

theorem mode_eq_of_leads {builds : Nat → BuildRun ω} {k n : Nat} (hkn : k ≤ n)
    (hleads : ∀ m, k ≤ m → m < n → (builds m).Leads (builds (m + 1))) :
    (builds n).request.mode = (builds k).request.mode := by
  induction n, hkn using Nat.le_induction with
  | base => rfl
  | succ n hkn ih =>
    exact (hleads n hkn (Nat.lt_succ_self n)).mode.trans
      (ih fun m hm hmn => hleads m hm (Nat.lt_succ_of_lt hmn))

/-- **In whatever build two jobs are planned, the one waits for the other**, if it does so in
some build of the same mode. The building of modules is left aside. -/
theorem mem_prerequisites_of_keys {run next : BuildRun ω}
    (hmode : next.request.mode = run.request.mode) {before' job' : Job}
    (hbefore : before ∈ run.jobs) (hjob : job ∈ run.jobs)
    (hp : before.id ∈ job.prerequisites.toList) (hm : before.isModuleBuild = false)
    (hbefore' : before' ∈ next.jobs) (hjob' : job' ∈ next.jobs) {made : JobKey}
    (hmade : made ∈ before.originKeys) (hmade' : made ∈ before'.originKeys)
    (hkey : key ∈ job.originKeys) (hkey' : key ∈ job'.originKeys) :
    before'.id ∈ job'.prerequisites.toList ∧ before'.isModuleBuild = false := by
  obtain ⟨modules, start, g, -, hb⟩ := run.exists_prepared
  obtain ⟨modules', start', g', -, hb'⟩ := next.exists_prepared
  -- Jobs have other numbers in another plan, but the keys tell the stages.
  have hstage := (hb.labelled hbefore).stage_eq (hb'.labelled hbefore') hmade hmade'
  have hstage' := (hb.labelled hjob).stage_eq (hb'.labelled hjob') hkey hkey'
  have hm' : before'.isModuleBuild = false := by
    rw [Job.isModuleBuild_eq_false_iff, ← hstage]
    exact Job.isModuleBuild_eq_false_iff.1 hm
  refine ⟨(hb'.layered.waits_iff before' hbefore' hm' job' hjob').2 ?_, hm'⟩
  rw [← hstage, ← hstage', hmode]
  exact (hb.layered.waits_iff before hbefore hm job hjob).1 hp

/-- **No product is kept that is older than what it is made from**, unless a build has left
it out. A build skips a job, and the last one before it that succeeded in the job is the
`i`-th. Then no build behind the `i`-th has succeeded in a prerequisite of the job, the
building of modules aside, if from that build on each one has planned the job. The builds
may have other inputs, outputs and libraries each time, and may find other contents. -/
theorem not_succeeded_since {builds : Nat → BuildRun ω} {i n : Nat}
    (hleads : ∀ m, i < m → m < n → (builds m).Leads (builds (m + 1)))
    (hjob : job ∈ (builds n).jobs)
    (hskipped : (builds n).report.statusOf? job.key = some .skipped)
    (hlast : ∀ m, i < m → m < n → ¬ (builds m).Reports job.key .succeeded)
    (hbefore : before ∈ (builds n).jobs) (hp : before.id ∈ job.prerequisites.toList)
    (hm : before.isModuleBuild = false) {made : JobKey} (hmade : made ∈ before.originKeys)
    {k : Nat} (hik : i < k) (hkn : k ≤ n)
    (hplanned : ∀ m, k ≤ m → m < n → ∃ other ∈ (builds m).jobs, job.key ∈ other.originKeys) :
    ¬ (builds k).Reports made .succeeded := by
  have hskipped : (builds n).ended.statusOf job.id = .skipped :=
    Option.some.inj ((statusOf?_eq hjob).symm.trans hskipped)
  have hkey : job.key ∈ job.originKeys := by
    obtain ⟨modules, start, g, -, hb⟩ := (builds n).exists_prepared
    rw [hb.originKeys_eq hjob (isScheduled_of_skipped hjob hskipped)]
    exact List.mem_cons_self
  have hplanned : ∀ m, k ≤ m → m ≤ n → ∃ other ∈ (builds m).jobs, job.key ∈ other.originKeys := by
    intro m hm hmn
    rcases Nat.lt_or_eq_of_le hmn with hmn | rfl
    · exact hplanned m hm hmn
    · exact ⟨job, hjob, hkey⟩
  have hleads : ∀ m, k ≤ m → m < n → (builds m).Leads (builds (m + 1)) := fun m hm =>
    hleads m (Nat.lt_of_lt_of_le hik hm)
  rintro ⟨before', hbefore', hmade', hsucceeded⟩
  have hsucceeded := Option.some.inj ((statusOf?_eq hbefore').symm.trans hsucceeded)
  obtain ⟨job', hjob', hkey'⟩ := hplanned k (Nat.le_refl k) hkn
  obtain ⟨hp', hm'⟩ := mem_prerequisites_of_keys (mode_eq_of_leads hkn hleads).symm hbefore hjob
    hp hm hbefore' hjob' hmade hmade' hkey hkey'
  -- The job was not skipped then, and so it is not skipped now.
  have hnot : ¬ (builds k).Reports job.key .skipped := fun h => by
    have := skipped_of_prerequisite hbefore' hjob' hp' hm' ((reports_iff hjob' hkey').1 h)
    cases hsucceeded.symm.trans this
  exact not_skipped_of_leads hkn hleads hplanned
    (fun m hm => hlast m (Nat.lt_of_lt_of_le hik hm)) hnot ((reports_iff hjob hkey).2 hskipped)

end Run

end BuildRun

/-! ### A product that is left out of one build -/

namespace LeftOut

/-- A program is linked from one input. -/
def linking (content : Fingerprint) : BuildRequest :=
  { BuildRequest.forObjects [⟨⟨"a"⟩, content⟩] with
    outputs := OrderedSet.ofList [.object, .linked .executable]
    tools := ⟨"cc", some "ld", none⟩ }

/-- The input is compiled, and no program is asked for. -/
def compiling (content : Fingerprint) : BuildRequest :=
  { linking content with outputs := OrderedSet.ofList [.object] }

def program : JobKey := .link ⟨"out/App"⟩

def object : JobKey := .compile ⟨"a"⟩

section Checks

variable (b : PlannedBuild) (ended : Execution SimulatedTools Tracker)

/-- Whether a job that was planned as the one with a key ends with a status. -/
def endsWith (key : JobKey) (status : JobStatus) : Bool :=
  b.plan.graph.jobs.any fun job => job.originKeys.contains key && ended.statusOf job.id == status

/-- Whether the program is kept, and waits for the object. -/
def keepsProgram : Bool :=
  b.plan.graph.jobs.any fun job => b.plan.graph.jobs.any fun before =>
    job.key == program && ended.statusOf job.id == .skipped
      && job.prerequisites.toList.contains before.id && !before.isModuleBuild
      && before.originKeys.contains object

end Checks

variable {run : BuildRun SimulatedTools}

theorem exists_of_endsWith {key : JobKey} {status : JobStatus}
    (h : endsWith run.planned run.ended key status = true) :
    ∃ job ∈ run.jobs, key ∈ job.originKeys ∧ run.ended.statusOf job.id = status := by
  obtain ⟨job, hjob, h⟩ := List.any_eq_true.1 h
  rw [Bool.and_eq_true, List.contains_iff_mem, beq_iff_eq] at h
  exact ⟨job, hjob, h⟩

theorem reports_of_endsWith {key : JobKey} {status : JobStatus}
    (h : endsWith run.planned run.ended key status = true) : run.Reports key status := by
  obtain ⟨job, hjob, hkey, hstatus⟩ := exists_of_endsWith h
  exact (BuildRun.reports_iff hjob hkey).2 hstatus

theorem exists_of_keepsProgram (h : keepsProgram run.planned run.ended = true) :
    ∃ job ∈ run.jobs, ∃ before ∈ run.jobs, job.key = program ∧
      run.report.statusOf? job.key = some .skipped ∧
      before.id ∈ job.prerequisites.toList ∧ before.isModuleBuild = false ∧
      object ∈ before.originKeys := by
  obtain ⟨job, hjob, h⟩ := List.any_eq_true.1 h
  obtain ⟨before, hbefore, h⟩ := List.any_eq_true.1 h
  simp only [Bool.and_eq_true, beq_iff_eq, List.contains_iff_mem, Bool.not_eq_true'] at h
  obtain ⟨⟨⟨⟨hkey, hskipped⟩, hp⟩, hm⟩, hobject⟩ := h
  exact ⟨job, hjob, before, hbefore, hkey,
    (BuildRun.statusOf?_eq hjob).trans (congrArg some hskipped), hp, hm, hobject⟩

/-- The input is compiled with one command, whether a program is asked for or not. -/
theorem akin_compiling : (linking ⟨"1"⟩).Akin (compiling ⟨"2"⟩) :=
  ⟨rfl, rfl, rfl, rfl, rfl, rfl, by decide +kernel⟩

theorem akin_linking : (compiling ⟨"2"⟩).Akin (linking ⟨"2"⟩) :=
  ⟨rfl, rfl, rfl, rfl, rfl, rfl, by decide +kernel⟩

/-- **The program is kept when it has been left out of a build**, in which its input was
compiled again: it was linked before that, and when it is asked for again, nothing is known
of it but that it is there. -/
theorem exists_stale_program :
    ∃ (first second third : BuildRun SimulatedTools) (job before : Job),
      first.request = linking ⟨"1"⟩ ∧ second.request = compiling ⟨"2"⟩ ∧
      third.request = linking ⟨"2"⟩ ∧
      second.before = first.after ∧ first.Leads second ∧
      third.before = second.after ∧ second.Leads third ∧
      job ∈ third.jobs ∧ third.report.statusOf? job.key = some .skipped ∧
      first.Reports job.key .succeeded ∧ ¬ second.Reports job.key .succeeded ∧
      before ∈ third.jobs ∧ before.id ∈ job.prerequisites.toList ∧
      before.isModuleBuild = false ∧
      ∃ made ∈ before.originKeys, second.Reports made .succeeded := by
  obtain ⟨b, world, told, ended, hprep, hrun, h⟩ := (linking ⟨"1"⟩).exists_course_of_check none
    (SimulatedTools.ofFiles .empty) (fun b ended => endsWith b ended program .succeeded
      && BuildRun.checkNext (linking ⟨"1"⟩) (compiling ⟨"2"⟩) ended fun b ended =>
        b.plan.graph.jobs.all (fun job => !job.originKeys.contains program)
          && endsWith b ended object .succeeded
          && BuildRun.checkNext (compiling ⟨"2"⟩) (linking ⟨"2"⟩) ended keepsProgram)
    (by decide +kernel)
  rw [Bool.and_eq_true] at h
  obtain ⟨hlinked, h⟩ := h
  let first : BuildRun SimulatedTools := ⟨_, none, _, b, world, _, told, ended, hprep, hrun⟩
  obtain ⟨second, hsecond, hafter, hleads, h⟩ := first.exists_next rfl akin_compiling h
  simp only [Bool.and_eq_true] at h
  obtain ⟨⟨hnone, hcompiled⟩, h⟩ := h
  obtain ⟨third, hthird, hafter', hleads', h⟩ := second.exists_next hsecond akin_linking h
  obtain ⟨job, hjob, before, hbefore, hkey, hskipped, hp, hm, hobject⟩ :=
    exists_of_keepsProgram h
  refine ⟨first, second, third, job, before, rfl, hsecond, hthird, hafter, hleads, hafter',
    hleads', hjob, hskipped, hkey ▸ reports_of_endsWith hlinked, ?_, hbefore, hp, hm, object,
    hobject, reports_of_endsWith hcompiled⟩
  rintro ⟨other, hother, hprogram, -⟩
  have := List.all_eq_true.1 hnone other hother
  rw [hkey] at hprogram
  rw [List.contains_iff_mem.2 hprogram] at this
  cases this

theorem akin_self : (linking ⟨"1"⟩).Akin (linking ⟨"1"⟩) :=
  ⟨rfl, rfl, rfl, rfl, rfl, rfl, by decide +kernel⟩

/-- The program is linked, and kept in two builds that have nothing to do. The object that it
is linked from was not made again in them. -/
theorem not_succeeded_since_program :
    ∃ (builds : Nat → BuildRun SimulatedTools) (job before : Job),
      (∀ m, 0 < m → m < 2 → (builds m).Leads (builds (m + 1))) ∧
      job ∈ (builds 2).jobs ∧ (builds 2).report.statusOf? job.key = some .skipped ∧
      (builds 0).Reports job.key .succeeded ∧
      (∀ m, 0 < m → m < 2 → ¬ (builds m).Reports job.key .succeeded) ∧
      before ∈ (builds 2).jobs ∧ before.id ∈ job.prerequisites.toList ∧
      before.isModuleBuild = false ∧ object ∈ before.originKeys ∧
      (∀ m, 0 < m → m < 2 → ∃ other ∈ (builds m).jobs, job.key ∈ other.originKeys) ∧
      ∀ k, 0 < k → k ≤ 2 → ¬ (builds k).Reports object .succeeded := by
  obtain ⟨b, world, told, ended, hprep, hrun, h⟩ := (linking ⟨"1"⟩).exists_course_of_check none
    (SimulatedTools.ofFiles .empty) (fun b ended => endsWith b ended program .succeeded
      && BuildRun.checkNext (linking ⟨"1"⟩) (linking ⟨"1"⟩) ended fun b ended =>
        endsWith b ended program .skipped
          && BuildRun.checkNext (linking ⟨"1"⟩) (linking ⟨"1"⟩) ended keepsProgram)
    (by decide +kernel)
  rw [Bool.and_eq_true] at h
  obtain ⟨hlinked, h⟩ := h
  let first : BuildRun SimulatedTools := ⟨_, none, _, b, world, _, told, ended, hprep, hrun⟩
  obtain ⟨second, hsecond, -, -, h⟩ := first.exists_next rfl akin_self h
  rw [Bool.and_eq_true] at h
  obtain ⟨hkept, h⟩ := h
  obtain ⟨third, -, -, hleads, h⟩ := second.exists_next hsecond akin_self h
  obtain ⟨job, hjob, before, hbefore, hkey, hskipped, hp, hm, hobject⟩ :=
    exists_of_keepsProgram h
  obtain ⟨other, hother, hprogram, hstatus⟩ := exists_of_endsWith hkept
  let builds : Nat → BuildRun SimulatedTools
    | 0 => first
    | 1 => second
    | _ => third
  have hone {m : Nat} (h₀ : 0 < m) (h₂ : m < 2) : m = 1 := by omega
  have hplanned : ∀ m, 0 < m → m < 2 → ∃ other ∈ (builds m).jobs, job.key ∈ other.originKeys := by
    intro m h₀ h₂
    obtain rfl := hone h₀ h₂
    exact ⟨other, hother, hkey ▸ hprogram⟩
  have hleads : ∀ m, 0 < m → m < 2 → (builds m).Leads (builds (m + 1)) := by
    intro m h₀ h₂
    obtain rfl := hone h₀ h₂
    exact hleads
  have hlast : ∀ m, 0 < m → m < 2 → ¬ (builds m).Reports job.key .succeeded := by
    intro m h₀ h₂ hsucceeded
    obtain rfl := hone h₀ h₂
    have := (BuildRun.reports_iff hother (hkey ▸ hprogram)).1 hsucceeded
    cases hstatus.symm.trans this
  exact ⟨builds, job, before, hleads, hjob, hskipped, hkey ▸ reports_of_endsWith hlinked, hlast,
    hbefore, hp, hm, hobject, hplanned, fun k hik hkn => BuildRun.not_succeeded_since hleads hjob
      hskipped hlast hbefore hp hm hobject hik hkn fun m hkm =>
        hplanned m (Nat.lt_of_lt_of_le hik hkm)⟩

end LeftOut

end IncrementalBuild
