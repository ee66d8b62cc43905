import IncrementalBuild.Proofs.Plan.Regroup
import IncrementalBuild.Proofs.Records
import IncrementalBuild.Proofs.Stability
import IncrementalBuild.Proofs.Successive

/-!
# Batches and what is compiled

Putting compile jobs into batches changes the order in which inputs are compiled: the members of a
batch wait for the same modules, and one that comes late in the plan is drawn ahead of an input
that waits for less. A key that leaves one input and comes back in another is then gone for a
while, or is not, and what uses the key is compiled again in one case and kept in the other.

Otherwise batches do not matter, as long as no product takes the place of another one or of an
input. Two builds of one request that differ in the size of batches alone schedule the same inputs
and read the same records, and so the same inputs are due. Whatever is due is compiled, where no
key moves.
-/

namespace IncrementalBuild

/-! ## Plans that gather the same jobs -/

namespace BuildPlan

variable {p p' : BuildPlan} {place : JobId → JobId} {u : CompileUnit}

/-- Batching keeps the units. -/
theorem Regroups.mem_units (h : p.Regroups p' place) (hg : p.graph.WellFormed) :
    u ∈ p'.units ↔ u ∈ p.units := (h.units_perm hg).mem_iff

/-- The same inputs are scheduled. -/
theorem Regroups.schedules_iff (h : p.Regroups p' place) : p'.Schedules u ↔ p.Schedules u := by
  constructor
  · rintro ⟨job', hjob', hu, hs⟩
    obtain ⟨job, hjob, hplace, hu⟩ := (h.mem_units_iff hjob').1 hu
    exact ⟨job, hjob, hu, (h.scheduled job hjob).symm.trans (hplace ▸ hs)⟩
  · rintro ⟨job, hjob, hu, hs⟩
    obtain ⟨job', hjob', hplace⟩ := h.placed job hjob
    exact ⟨job', hjob', (h.mem_units_iff hjob').2 ⟨job, hjob, hplace, hu⟩,
      hplace ▸ (h.scheduled job hjob).trans hs⟩

/-- The products are as distinct. -/
theorem Regroups.distinctOutputs_iff (h : p.Regroups p' place) (hg : p.graph.WellFormed) :
    p'.DistinctOutputs ↔ p.DistinctOutputs :=
  (h.outputs_perm hg).pairwise_iff fun hab hba => hab (Std.OrientedCmp.eq_symm hba)

/-- Sparing sources, said of all outputs and all units of a plan. -/
theorem sparesSources_iff {plan : BuildPlan} : plan.SparesSources ↔
    ∀ a ∈ plan.graph.jobs.flatMap (·.outputs), ∀ u ∈ plan.units,
      compare a.path u.primary ≠ .eq := by
  simp only [List.mem_flatMap, forall_exists_index, and_imp]
  exact ⟨fun h a job hjob ha => h job hjob a ha, fun h job hjob a ha => h a job hjob ha⟩

/-- The inputs are left alone as they were. -/
theorem Regroups.sparesSources_iff (h : p.Regroups p' place) (hg : p.graph.WellFormed) :
    p'.SparesSources ↔ p.SparesSources := by
  rw [BuildPlan.sparesSources_iff, BuildPlan.sparesSources_iff]
  simp only [(h.outputs_perm hg).mem_iff, h.mem_units hg]

end BuildPlan

namespace BuildRun

/-! ## Builds that differ in the size of batches -/

section Run

variable {ω : Type} [FileSystem ω]

/-- **Whether a build has compiled an input.** -/
def Compiled (run : BuildRun ω) (p : Path) : Prop :=
  ∃ job ∈ run.jobs, job.Compiles p ∧ run.report.statusOf? job.key = some .succeeded

/-- **Whether two builds differ in the size of batches alone.** -/
structure Rebatches (run run' : BuildRun ω) : Prop where
  request : ∃ size, run'.request = { run.request with batchSize := size }
  scan : run'.scan = run.scan
  before : run'.before = run.before

variable {run run' : BuildRun ω}

/-- **Both plans gather the same jobs**, in the same world and with the same declarations. -/
theorem Rebatches.exists_regroups (h : run.Rebatches run') : ∃ (modules : Option ModuleGraph)
    (g : JobGraph) (p : BuildPlan) (place place' : JobId → JobId),
    run.request.scanModules run.scan run.before = (.ok modules, run.world) ∧
      run.request.plan modules = .ok g ∧ p.graph = g ∧
      p.Gathers run.planned.plan place ∧ p.Gathers run'.planned.plan place' ∧
      run'.world = run.world ∧ run'.planned.state.graph = run.planned.state.graph := by
  obtain ⟨size, hsize⟩ := h.request
  obtain ⟨modules, start, g, hscan, hb⟩ := run.exists_prepared
  obtain ⟨modules', start', g', hscan', hb'⟩ := run'.exists_prepared
  rw [hsize, h.scan, h.before] at hscan'
  rw [hsize, h.before] at hb'
  obtain ⟨hmodules, hworld⟩ := Prod.mk.inj (hscan'.symm.trans hscan)
  obtain rfl := Except.ok.inj hmodules
  obtain rfl : g' = g := Except.ok.inj (hb'.planned.symm.trans hb.planned)
  obtain rfl : start' = start := Except.ok.inj (hb'.started.symm.trans hb.started)
  obtain ⟨place, hgathers⟩ := hb.gathers
  obtain ⟨place', hgathers'⟩ := hb'.gathers
  rw [hworld] at hgathers'
  exact ⟨modules', g', _, place, place', hscan, hb.planned, rfl, hgathers, hgathers', hworld,
    by rw [hb.state, hb'.state]⟩

/-- What a build has compiled are the inputs of jobs that have succeeded. -/
theorem compiled_iff (hmode : run.request.mode = .perFile) {p : Path} : run.Compiled p ↔
    ∃ u, compare u.primary p = .eq ∧
      run.planned.plan.Compiled run.ended.core.scheduler u := by
  obtain ⟨modules, start, g, -, hb⟩ := run.exists_prepared
  have hsucceeded {job : Job} (hjob : job ∈ run.jobs) :
      run.report.statusOf? job.key = some .succeeded ↔
        run.ended.core.scheduler.stateOf? job.id = some .succeeded := by
    rw [statusOf?_eq hjob, Option.some_inj]
    refine Execution.statusOf_eq_succeeded_iff run.sound.scheduler ?_
    rw [run.sound.plan_eq]
    exact hb.serves.wellFormed.id_lt hjob
  constructor
  · rintro ⟨job, hjob, hp, hs⟩
    obtain ⟨u, hu, hup⟩ := hb.serves.exists_unit hmode hjob hp
    exact ⟨u, hup, job, hjob, hu, (hsucceeded hjob).1 hs⟩
  · rintro ⟨u, hup, job, hjob, hu, hs⟩
    exact ⟨job, hjob, (hb.serves.compiles_of_mem_units hjob hu).congr hup, (hsucceeded hjob).2 hs⟩

end Run

/-! ## Simulated tools -/

section Tools

variable {run run' : BuildRun SimulatedTools} {known : Option ModuleGraph} {g : JobGraph}

/-- What can be told of a build before its jobs run. -/
def forecast (run : BuildRun SimulatedTools) : Forecast :=
  run.world.forecast run.planned.state.graph

/-- What can be told of a build comes true. -/
theorem explains (henv : run.env = .ofProcesses SimulatedTools)
    (hspelled : ∀ job ∈ run.jobs, job.Spelled) (hdistinct : run.planned.plan.DistinctOutputs)
    (hsources : run.planned.plan.SparesSources) :
    run.forecast.Explains run.planned.plan run.ended.core.scheduler run.ended.observed := by
  obtain ⟨modules, start, g, -, hb⟩ := run.exists_prepared
  have hcourse := run.course
  rw [henv] at hcourse
  exact Forecast.explains_of_course (hb.begins (run.request.uniqueKeys_trusted run.before))
    (fun i hi => run.request.isSome_get?_fingerprints run.planned (List.mem_append_left _ hi))
    rfl hcourse (SimulatedTools.fulfilled_of_course hb.serves.wellFormed hspelled hdistinct
      hsources hcourse _)

/-- **What is due is compiled** by a build that succeeds, where no key moves. -/
theorem compiled_of_due (houtcome : run.report.outcome = .succeeded)
    (hmoves : ∀ key, ¬ run.planned.state.graph.Moves run.ended.observed.state.graph key)
    (h : run.forecast.Explains run.planned.plan run.ended.core.scheduler run.ended.observed)
    {u : CompileUnit} (hu : run.forecast.Due run.planned.plan u) :
    run.planned.plan.Compiled run.ended.core.scheduler u := by
  obtain ⟨modules, start, g, -, hb⟩ := run.exists_prepared
  have hbegins := hb.begins (run.request.uniqueKeys_trusted run.before)
  exact h.compiled_of_due hbegins rfl (hbegins.attends run.course) (fun job hjob =>
    Execution.clean_or_succeeded run.sound hb.serves.wellFormed houtcome hjob) hmoves hu

/-- **The size of batches does not matter where no key moves.** Two builds of one request that
differ in it alone, each of which succeeds, compile the same inputs, in whatever order their jobs
run and end. No key moves in the one of them, no word of a command is spelled like a flag of
single inputs, and every product has a place of its own. -/
theorem compiled_iff_of_rebatches (h : run.Rebatches run')
    (henv : run.env = .ofProcesses SimulatedTools) (henv' : run'.env = .ofProcesses SimulatedTools)
    (hmode : run.request.mode = .perFile)
    (hscan : (run.request.scanModules run.scan run.before).1 = .ok known)
    (hplan : run.request.plan known = .ok g) (hwords : run.request.PlainWords g)
    (hdistinct : run.planned.plan.DistinctOutputs) (hsources : run.planned.plan.SparesSources)
    (hmoves : ∀ key, ¬ run.planned.state.graph.Moves run.saved.graph key)
    (houtcome : run.report.outcome = .succeeded) (houtcome' : run'.report.outcome = .succeeded)
    (p : Path) : run'.Compiled p ↔ run.Compiled p := by
  obtain ⟨modules, g', q, place, place', hscan', hplan', rfl, hgathers, hgathers', hworld,
    hgraph⟩ := h.exists_regroups
  rw [hscan'] at hscan
  obtain rfl := Except.ok.inj hscan
  obtain rfl := Except.ok.inj (hplan.symm.trans hplan')
  obtain ⟨-, hwell, -⟩ := BuildRequest.of_plan hplan
  obtain ⟨-, order, -, hholds⟩ := BuildRequest.holds_of_plan hplan
  have hspelled : ∀ job ∈ q.graph.jobs, job.Spelled := fun job => hholds.spelled hwords
  have hregroups := hgathers.regroups hwell
  have hregroups' := hgathers'.regroups hwell
  -- Both builds are told the same beforehand, and have the same inputs due.
  have hforecast : run'.forecast = run.forecast := by
    unfold forecast
    rw [hworld, hgraph]
  have hexplains := explains henv (fun job => hgathers.spelled hspelled) hdistinct hsources
  have hexplains' := explains henv' (fun job => hgathers'.spelled hspelled)
    ((hregroups'.distinctOutputs_iff hwell).2 ((hregroups.distinctOutputs_iff hwell).1 hdistinct))
    ((hregroups'.sparesSources_iff hwell).2 ((hregroups.sparesSources_iff hwell).1 hsources))
  have hdue (u : CompileUnit) : run'.forecast.Due run'.planned.plan u ↔
      run.forecast.Due run.planned.plan u := by
    rw [hforecast]
    exact ⟨fun hu => hu.of_same
        (fun v hv => (hregroups.mem_units hwell).2 ((hregroups'.mem_units hwell).1 hv))
        fun v hv => hregroups.schedules_iff.2 (hregroups'.schedules_iff.1 hv),
      fun hu => hu.of_same
        (fun v hv => (hregroups'.mem_units hwell).2 ((hregroups.mem_units hwell).1 hv))
        fun v hv => hregroups'.schedules_iff.2 (hregroups.schedules_iff.1 hv)⟩
  have hsaved : run.saved.graph = run.ended.observed.state.graph :=
    (Tracker.finish_rest _ _).1
  rw [hsaved] at hmoves
  have hless (u : CompileUnit) (hu : run'.planned.plan.Compiled run'.ended.core.scheduler u) :
      run.planned.plan.Compiled run.ended.core.scheduler u :=
    compiled_of_due houtcome hmoves hexplains ((hdue u).1 (hexplains'.due_of_compiled hu))
  -- So no key moves in the other build either.
  have hmoves' : ∀ key,
      ¬ run'.planned.state.graph.Moves run'.ended.observed.state.graph key := by
    intro key hm
    rw [hgraph] at hm
    exact hmoves key (hexplains.follows.moves (hforecast ▸ hexplains'.follows) hless hm)
  have hmode' : run'.request.mode = .perFile := by
    obtain ⟨size, hsize⟩ := h.request
    rw [hsize]
    exact hmode
  rw [compiled_iff hmode, compiled_iff hmode']
  refine exists_congr fun u => and_congr_right fun _ => ⟨hless u, fun hu => ?_⟩
  exact compiled_of_due houtcome' hmoves' hexplains' ((hdue u).2 (hexplains.due_of_compiled hu))

end Tools

end BuildRun

instance (job : Job) (p : Path) : Decidable (job.Compiles p) :=
  inferInstanceAs (Decidable (_ ∧ ∃ q ∈ job.sourceInputs, _))

/-- **Whether a build runs one job at a time**, in the order in which jobs are handed out. -/
def BuildRun.InOrder {ω : Type} [FileSystem ω] [ProcessWorld ω] (run : BuildRun ω) : Prop :=
  run.request.concurrency = 1 ∧ run.ended = run.planned.plan.execute run.request.policy
    run.request.concurrency Tracker.observer run.world (run.request.tracker run.planned)

/-! ### A key that goes, and one that moves -/

namespace MovedKey

/-- Four inputs, of which the first three have other contents than when they were last compiled. -/
def request (size : Option Nat) : BuildRequest :=
  { BuildRequest.forObjects [⟨⟨"a"⟩, ⟨"2"⟩⟩, ⟨⟨"b"⟩, ⟨"2"⟩⟩, ⟨⟨"c"⟩, ⟨"2"⟩⟩, ⟨⟨"d"⟩, ⟨"1"⟩⟩] with
    explicitModules := true, batchSize := size }

/-- The first and the third input import a module. -/
def modules : ModuleGraph where
  modules := OrderedMap.ofList [("M", ⟨⟨"M.interface"⟩, ∅⟩)]
  imports := OrderedMap.ofList [(⟨"a"⟩, OrderedSet.ofList ["M"]), (⟨"c"⟩, OrderedSet.ofList ["M"])]

/-- The last input uses a key that the third one declares. -/
def declared : DependencyGraph :=
  ((DependencyGraph.empty.replace ⟨"c"⟩ [⟨"K", ⟨"0"⟩, [], []⟩]).1.replace ⟨"d"⟩
    [⟨"D", ⟨"0"⟩, [], ["K"]⟩]).1

/-- The state that an earlier build has saved, with other contents of the first three inputs. -/
def state : BuildState where
  graph := declared
  inputs := OrderedMap.ofList (["a", "b", "c", "d"].map fun p => (⟨p⟩, some ⟨"1"⟩))
  staleJobs := ∅
  options := some (request none).optionsFingerprint
  commands := ∅

/-- Of the inputs only the second one declares something now, if any. The products of the last
one are there. -/
def files (second : String) : MemoryFiles :=
  [("a", ""), ("b", second), ("c", ""), ("d", ""), ("out/d.o", ""), ("out/d.deps.json", "")].foldl
    (fun fs file => fs.addFile ⟨file.1⟩ file.2.toUTF8) .empty

/-- The inputs and products, with the saved state beside them. -/
def world (second : String) : SimulatedTools :=
  .ofFiles ((files second).addFile (request none).statePath
    (SavedState.ofState state).print.toUTF8)

/-- What the state and the inputs give to begin with: the first three inputs are dirty. -/
def start : DirtyInputs :=
  let inputs := (request none).trackedInputs
  let dirty := DirtyInputs.dirtied (DirtyInputs.reason? state ∅) inputs
  ⟨dirty, DirtyInputs.enterInputs dirty state inputs, []⟩

variable {second : String} {size : Option Nat}

/-- The saved state is loaded, with batches or without. -/
theorem priorState_eq : (request size).priorState (world second) = .loaded state := by
  have hgraph : SavedState.graphOf (SavedState.ofState state).declarations.entries .empty
      = .ok declared := rfl
  have hfiles : (world second).files = (files second).addFile (request size).statePath
      (SavedState.ofState state).print.toUTF8 := rfl
  exact BuildRequest.priorState_of_addFile hfiles hgraph rfl

/-- The start is what is computed from the saved state. -/
theorem compute_eq : DirtyInputs.compute ((request size).priorState (world second))
    (request size).trackedInputs = .ok start := by
  rw [priorState_eq]
  show DirtyInputs.compute (.loaded state) (request none).trackedInputs = _
  exact DirtyInputs.ofState_eq_ok_iff.2 ⟨by decide +kernel, rfl⟩

/-- What is checked of a build when it has been carried out. -/
def check (second : String) (size : Option Nat)
    (P : PlannedBuild → Execution SimulatedTools Tracker → Bool) : Bool :=
  ((request size).planFrom (world second) start (some modules)).toOption.any fun b =>
    P b (b.plan.execute (request size).policy (request size).concurrency Tracker.observer
      (world second) ((request size).tracker b))

/-- What is checked of a build holds of a run of it, in which the jobs run one at a time. -/
theorem exists_build (second : String) (size : Option Nat)
    (P : PlannedBuild → Execution SimulatedTools Tracker → Bool) (h : check second size P = true) :
    ∃ run : BuildRun SimulatedTools, run.request = request size ∧
      run.scan = some (.known modules) ∧ run.before = world second ∧
      run.env = .ofProcesses SimulatedTools ∧ run.InOrder ∧ P run.planned run.ended = true := by
  have hscan : (request size).scanModules (some (.known modules)) (world second)
      = (.ok (some modules), world second) := rfl
  have hprepare := BuildRequest.prepare_eq compute_eq hscan
  unfold check at h
  cases hb : (request size).planFrom (world second) start (some modules) with
  | error e =>
    rw [hb] at h
    cases h
  | ok b =>
    rw [hb] at h hprepare
    obtain ⟨known, start, g, -, hprepared⟩ := BuildRequest.prepared_of_prepare hprepare
    obtain ⟨told, hrun⟩ := hprepared.exists_course
    exact ⟨⟨request size, some (.known modules), world second, b, world second, _, told, _,
      hprepare, hrun⟩, rfl, rfl, rfl, rfl, ⟨rfl, rfl⟩, h⟩

/-- Whether the last input has been compiled. -/
def compilesLast (b : PlannedBuild) (ended : Execution SimulatedTools Tracker) : Bool :=
  decide (∃ job ∈ b.plan.graph.jobs, job.Compiles ⟨"d"⟩ ∧
    ended.report.statusOf? job.key = some .succeeded)

/-- Where the key goes for good, the last input is compiled with batches and without. -/
theorem compiled_iff_of_rebatches_lostKey : ∃ (run run' : BuildRun SimulatedTools) (g : JobGraph),
    run.Rebatches run' ∧ run.env = .ofProcesses SimulatedTools ∧
      run'.env = .ofProcesses SimulatedTools ∧ run.request.mode = .perFile ∧
      (run.request.scanModules run.scan run.before).1 = .ok (some modules) ∧
      run.request.plan (some modules) = .ok g ∧ run.request.PlainWords g ∧
      run.planned.plan.DistinctOutputs ∧ run.planned.plan.SparesSources ∧
      (∀ key, ¬ run.planned.state.graph.Moves run.saved.graph key) ∧
      run.report.outcome = .succeeded ∧ run'.report.outcome = .succeeded ∧
      run.Compiled ⟨"d"⟩ ∧ ∀ p, run'.Compiled p ↔ run.Compiled p := by
  -- Both builds are carried out, and what is asked of them is read off.
  have hplanned : ((request none).plan (some modules)).toOption.any
      ((request none).PlainWords ·) = true := by decide +kernel
  obtain ⟨run, hrequest, hscan, hbefore, henv, -, hrun⟩ := exists_build "" none
    (fun b ended => ended.report.outcome == .succeeded && decide b.plan.DistinctOutputs
      && decide b.plan.SparesSources && compilesLast b ended
      && (ended.observed.finish ended.report.jobs).graph.files.entries.all (·.2.isEmpty))
    (by decide +kernel)
  obtain ⟨run', hrequest', hscan', hbefore', henv', -, hrun'⟩ := exists_build "" (some 2)
    (fun b ended => ended.report.outcome == .succeeded) (by decide +kernel)
  simp only [Bool.and_eq_true, beq_iff_eq, compilesLast, decide_eq_true_eq] at hrun hrun'
  obtain ⟨⟨⟨⟨houtcome, hdistinct⟩, hsources⟩, hlast⟩, hnone⟩ := hrun
  have hrebatches : run.Rebatches run' := ⟨⟨some 2, by rw [hrequest, hrequest']; rfl⟩,
    hscan'.trans hscan.symm, hbefore'.trans hbefore.symm⟩
  have hmode : run.request.mode = .perFile := by rw [hrequest]; rfl
  have hmodules : (run.request.scanModules run.scan run.before).1 = .ok (some modules) := by
    rw [hrequest, hscan, hbefore]
    rfl
  -- Nothing declares anything in the end, so no key can have moved.
  have hmoves : ∀ key, ¬ run.planned.state.graph.Moves run.saved.graph key := by
    rintro key ⟨-, ⟨p, f, d, hd, -⟩, -⟩
    have hnil : run.saved.graph.declarationsOf p = [] :=
      DependencyGraph.declarationsOf_eq_nil_of_all_isEmpty hnone p
    rw [hnil] at hd
    cases hd
  cases hplan : (request none).plan (some modules) with
  | error e =>
    rw [hplan] at hplanned
    cases hplanned
  | ok g =>
  rw [hplan] at hplanned
  have hwords : run.request.PlainWords g := hrequest ▸ of_decide_eq_true hplanned
  have hplan : run.request.plan (some modules) = .ok g := hrequest ▸ hplan
  exact ⟨run, run', g, hrebatches, henv, henv', hmode, hmodules, hplan, hwords, hdistinct, hsources,
    hmoves, houtcome, hrun', hlast, BuildRun.compiled_iff_of_rebatches hrebatches henv henv' hmode
      hmodules hplan hwords hdistinct hsources hmoves houtcome hrun'⟩

/-- **Batches may change what is compiled.** One job at a time, without batches the second input
declares the key before the third gives it up, and the last input is kept. In batches of two the
third input is compiled together with the first, as both wait for the module, and before the
second. The key is gone then, and the last input is compiled again. -/
theorem exists_compiled_in_batches : ∃ run run' : BuildRun SimulatedTools,
    run.Rebatches run' ∧ run.request = request none ∧ run'.request = request (some 2) ∧
      run.before = world "decl K" ∧ run.env = .ofProcesses SimulatedTools ∧
      run'.env = .ofProcesses SimulatedTools ∧ run.InOrder ∧ run'.InOrder ∧
      run.report.outcome = .succeeded ∧ run'.report.outcome = .succeeded ∧
      ¬ run.Compiled ⟨"d"⟩ ∧ run'.Compiled ⟨"d"⟩ := by
  obtain ⟨run, hrequest, hscan, hbefore, henv, horder, hrun⟩ := exists_build "decl K" none
    (fun b ended => ended.report.outcome == .succeeded && !compilesLast b ended)
    (by decide +kernel)
  obtain ⟨run', hrequest', hscan', hbefore', henv', horder', hrun'⟩ := exists_build "decl K"
    (some 2) (fun b ended => ended.report.outcome == .succeeded && compilesLast b ended)
    (by decide +kernel)
  simp only [Bool.and_eq_true, beq_iff_eq, Bool.not_eq_true', compilesLast, decide_eq_true_eq,
    decide_eq_false_iff_not] at hrun hrun'
  exact ⟨run, run', ⟨⟨some 2, by rw [hrequest, hrequest']; rfl⟩, hscan'.trans hscan.symm,
    hbefore'.trans hbefore.symm⟩, hrequest, hrequest', hbefore, henv, henv', horder, horder',
    hrun.1, hrun'.1, hrun.2, hrun'.2⟩

end MovedKey

end IncrementalBuild
