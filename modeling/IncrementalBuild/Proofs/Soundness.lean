import IncrementalBuild.Proofs.Reload
import IncrementalBuild.Proofs.SimulatedTools

/-!
# What a build leaves is sound

However the jobs of a build are run, an input that was skipped sees no difference between
the declarations that were trusted and those that are saved, and an input is saved with the
fingerprint of its content exactly if it was skipped, or compiled to the end with a record
of it.
-/

namespace IncrementalBuild

section Run

variable {ω : Type} [FileSystem ω] {env : Environment ω} {r : BuildRequest}
  {scan : Option (Scanner ω)} {world world' : ω} {b : PlannedBuild} {told : List (Told ω)}
  {ended : Execution ω Tracker}

/-- The scheduler of a course keeps the plan of the build. -/
theorem BuildRequest.sound_of_course {prior : StateLoad} {modules : Option ModuleGraph}
    {start : DirtyInputs} {g : JobGraph} (hb : b.Prepared r prior modules world' start g)
    (hrun : Course env Tracker.observer (r.begin b world') told ended) : ended.Sound b.plan :=
  hrun.sound hb.serves.wellFormed

/-- Carrying a prepared build out is one of its courses. -/
theorem PlannedBuild.Prepared.exists_course [ProcessWorld ω] {prior : StateLoad}
    {modules : Option ModuleGraph} {start : DirtyInputs} {g : JobGraph}
    (hb : b.Prepared r prior modules world start g) :
    ∃ told, Course (.ofProcesses ω) Tracker.observer (r.begin b world) told
      (b.plan.execute r.policy r.concurrency Tracker.observer world (r.tracker b)) :=
  BuildPlan.execute_course hb.serves.wellFormed

/-- A build of which something is checked when it has been carried out has a course. -/
theorem BuildRequest.exists_course_of_check [ProcessWorld ω] (r : BuildRequest)
    (scan : Option (Scanner ω)) (world : ω) (P : PlannedBuild → Execution ω Tracker → Bool)
    (h : (match r.prepare scan world with
      | (.ok b, world') =>
        P b (b.plan.execute r.policy r.concurrency Tracker.observer world' (r.tracker b))
      | (.error _, _) => false) = true) :
    ∃ b world' told ended, r.prepare scan world = (.ok b, world') ∧
      Course (.ofProcesses ω) Tracker.observer (r.begin b world') told ended ∧
      P b ended = true := by
  split at h
  · rename_i b world' hprep
    obtain ⟨modules, start, g, -, hb⟩ := prepared_of_prepare hprep
    obtain ⟨told, hrun⟩ := hb.exists_course
    exact ⟨b, world', told, _, hprep, hrun, h⟩
  · cases h

/-- **A skipped input sees no difference** between the declarations of the state that a build
started from and those of the state that it leaves: the keys that its interfaces are built
on are declared by the same other files with the same fingerprints, and the keys that it
uses are still declared. This holds wherever the build stands, and so at its end, in
whatever order the jobs came to an end. -/
theorem BuildRequest.agreesFor_of_skipped {prior saved : BuildState} {i : InputFile} {job : Job}
    (hmode : r.mode = .perFile) (hprior : r.priorState world = .loaded prior)
    (hprep : r.prepare scan world = (.ok b, world'))
    (hrun : Course env Tracker.observer (r.begin b world') told ended)
    (hsaved : (r.conclude ended).report.state = some saved) (hi : i ∈ r.inputs)
    (hjob : job ∈ b.plan.graph.jobs) (hp : job.Compiles i.path)
    (hskipped : (r.conclude ended).report.statusOf? job.key = some .skipped) :
    prior.graph.AgreesFor saved.graph i.path := by
  have hunique := r.uniqueKeys_trusted world
  obtain ⟨modules, start, g, -, hb⟩ := prepared_of_prepare hprep
  rw [hprior] at hb hunique
  have hbegins := hb.begins hunique
  have hsound := sound_of_course hb hrun
  have hattends := hbegins.attends hrun
  -- A job that is reported as skipped is clean at the end.
  have hclean : ended.core.scheduler.isClean job.id := by
    have hlt : job.id < ended.core.scheduler.plan.graph.size := by
      rw [hsound.plan_eq]
      exact hb.serves.wellFormed.id_lt hjob
    refine (Execution.statusOf_eq_skipped_iff hsound.scheduler hlt).1 ?_
    have hstatus : ended.report.statusOf? job.key = some (ended.statusOf job.id) :=
      ended.statusOf?_report (hsound.plan_eq ▸ hb.serves.wellFormed) (hsound.plan_eq ▸ hjob)
    exact Option.some.inj (hstatus.symm.trans hskipped)
  -- It was left alone at the start since its input agreed with the state that was loaded, and
  -- the jobs that have ended since have not changed that.
  have hstart : prior.graph.AgreesFor start.state.graph i.path := by
    refine hb.starts.agrees hunique i (List.mem_append_left _ hi) ?_
    rw [← hb.dirty]
    exact hbegins.not_dirty hjob hp (hattends.leftOut job hjob hclean)
  have hmeanwhile := hattends.agrees hmode i hi job hjob hp hclean
  have hfirst : (r.tracker b).state.graph = start.state.graph := by
    show b.state.graph = _
    rw [hb.state]
  obtain rfl := Option.some.inj hsaved
  rw [hfirst] at hmeanwhile
  refine hstart.trans ?_
  show start.state.graph.AgreesFor (ended.observed.finish _).graph i.path
  rw [(Tracker.finish_rest _ _).1]
  exact hmeanwhile

end Run

/-- **A saved state is trusted** by a request with the same choices, as far as its declarations
can be read. -/
theorem BuildRequest.priorState_of_addFile {r : BuildRequest} {world : SimulatedTools}
    {fs : MemoryFiles} {s : BuildState} {g : DependencyGraph}
    (hfiles : world.files = fs.addFile r.statePath (SavedState.ofState s).print.toUTF8)
    (hgraph : SavedState.graphOf (SavedState.ofState s).declarations.entries .empty = .ok g)
    (hoptions : s.options = some r.optionsFingerprint) :
    r.priorState world = .loaded { s with graph := g } := by
  refine priorState_eq_loaded_iff.2 ⟨?_, hoptions⟩
  rw [world.ofFile_files, hfiles, fs.ofFile_addFile, StateLoad.ofText_print_of_graphOf hgraph]

/-! ### Two inputs, the second of them skipped -/

/-- A request for the object of each of some inputs, with nothing else chosen. -/
def BuildRequest.forObjects (inputs : List InputFile) : BuildRequest where
  moduleName := "App"
  inputs
  outputs := OrderedSet.ofList [.object]
  mode := .perFile
  concurrency := 1
  batchSize := none
  policy := .continueOnFailure
  libraries := []
  header := none
  explicitModules := false
  compilerArgs := []
  outputDir := ⟨"out"⟩
  statePath := ⟨"state"⟩
  tools := ⟨"cc", none, none⟩

namespace TwoInputs

/-- The first input has another content than when it was last compiled. -/
def request : BuildRequest := .forObjects [⟨⟨"a"⟩, ⟨"2"⟩⟩, ⟨⟨"b"⟩, ⟨"1"⟩⟩]

/-- The interface of the second input is built on that of the first. -/
def declared : DependencyGraph :=
  ((DependencyGraph.empty.replace ⟨"a"⟩ [⟨"A", ⟨"0"⟩, [], []⟩]).1.replace ⟨"b"⟩
    [⟨"B", ⟨"0"⟩, ["A"], []⟩]).1

def state : BuildState where
  graph := declared
  inputs := OrderedMap.ofList [(⟨"a"⟩, some ⟨"1"⟩), (⟨"b"⟩, some ⟨"1"⟩)]
  staleJobs := ∅
  options := some request.optionsFingerprint
  commands := ∅

def products : MemoryFiles :=
  ["out/a.o", "out/a.deps.json", "out/b.o", "out/b.deps.json"].foldl
    (fun fs p => fs.addFile ⟨p⟩ .empty) .empty

/-- All products are there, and compiling the first input reports what it declared. -/
def world : SimulatedTools :=
  let record : DependencyRecord := ⟨⟨"a"⟩, [⟨"A", ⟨"0"⟩, [], []⟩]⟩
  { files := products.addFile request.statePath (SavedState.ofState state).print.toUTF8
    script := { ToolScript.empty with
      records := OrderedMap.ofList [(⟨"a"⟩, record.print.toUTF8)] }
    invocations := [] }

def start : DirtyInputs :=
  let dirty := DirtyInputs.dirtied (DirtyInputs.reason? state ∅) request.trackedInputs
  ⟨dirty, DirtyInputs.enterInputs dirty state request.trackedInputs, []⟩

theorem priorState_eq : request.priorState world = .loaded state := by
  have hgraph : SavedState.graphOf (SavedState.ofState state).declarations.entries .empty
      = .ok declared := rfl
  have hfiles : world.files
      = products.addFile request.statePath (SavedState.ofState state).print.toUTF8 := rfl
  exact BuildRequest.priorState_of_addFile hfiles hgraph rfl

theorem compute_eq : DirtyInputs.compute (.loaded state) request.trackedInputs = .ok start :=
  DirtyInputs.ofState_eq_ok_iff.2 ⟨by decide +kernel, rfl⟩

end TwoInputs

open TwoInputs in
/-- The first input is compiled again, and the second one is skipped and sees no
difference. -/
theorem BuildRequest.agreesFor_of_skipped_twoInputs :
    ∃ (b : PlannedBuild) (told : List (Told SimulatedTools))
      (ended : Execution SimulatedTools Tracker) (saved : BuildState) (job : Job),
      request.mode = .perFile ∧ request.priorState world = .loaded state ∧
      request.prepare none world = (.ok b, world) ∧
      Course (.ofProcesses SimulatedTools) Tracker.observer (request.begin b world) told ended ∧
      (request.conclude ended).report.state = some saved ∧
      job ∈ b.plan.graph.jobs ∧ job.Compiles ⟨"b"⟩ ∧
      (request.conclude ended).report.statusOf? job.key = some .skipped ∧
      state.graph.AgreesFor saved.graph ⟨"b"⟩ := by
  have hprep : request.prepare none world = (request.planFrom world start none, world) :=
    prepare_eq (by rw [priorState_eq, compute_eq]) rfl
  have hskipped : (request.planFrom world start none).toOption.any (fun b =>
      b.plan.graph.jobs.any fun job => job.isCompile
        && job.sourceInputs.any (fun q => compare q ⟨"b"⟩ == .eq)
        && (request.carryOut b world).report.statusOf? job.key == some .skipped) = true := by
    decide +kernel
  cases hb : request.planFrom world start none with
  | error e =>
    rw [hb] at hskipped
    cases hskipped
  | ok b =>
    rw [hb] at hprep hskipped
    obtain ⟨job, hjob, hskipped⟩ := List.any_eq_true.1 hskipped
    simp only [Bool.and_eq_true, List.any_eq_true, beq_iff_eq] at hskipped
    obtain ⟨⟨hc, q, hq, hqb⟩, hstatus⟩ := hskipped
    obtain ⟨modules, start, g, -, hprepared⟩ := prepared_of_prepare hprep
    obtain ⟨told, hrun⟩ := hprepared.exists_course
    exact ⟨b, told, _, _, job, rfl, priorState_eq, hprep, hrun, rfl, hjob, ⟨hc, q, hq, hqb⟩,
      hstatus, agreesFor_of_skipped (i := ⟨⟨"b"⟩, ⟨"1"⟩⟩) rfl priorState_eq hprep hrun rfl
        (List.mem_cons_of_mem _ List.mem_cons_self) hjob ⟨hc, q, hq, hqb⟩ hstatus⟩

section Run

variable {ω : Type} [FileSystem ω] {env : Environment ω} {r : BuildRequest}
  {scan : Option (Scanner ω)} {world world' : ω} {b : PlannedBuild} {told : List (Told ω)}
  {ended : Execution ω Tracker}

/-- **A saved fingerprint is right**: every input is compiled by one job and is saved, and it
is saved with a fingerprint exactly if that is the one of its content and the job was
skipped, or has succeeded and vouches for the input. -/
theorem BuildRequest.saved_fingerprint_iff {saved : BuildState} {i : InputFile}
    (hsep : ∀ i ∈ r.inputs, ∀ header, r.header = some header → compare header.path i.path ≠ .eq)
    (hprep : r.prepare scan world = (.ok b, world'))
    (hrun : Course env Tracker.observer (r.begin b world') told ended)
    (hsaved : (r.conclude ended).report.state = some saved) (hi : i ∈ r.inputs) :
    ∃ job ∈ b.plan.graph.jobs, job.Compiles i.path ∧
      (∀ other ∈ b.plan.graph.jobs, other.Compiles i.path → other = job) ∧
      ∃ status, (r.conclude ended).report.statusOf? job.key = some status ∧
      ∃ entry, saved.inputs.get? i.path = some entry ∧ ∀ f, entry = some f ↔
        f = i.fingerprint ∧ (status = .skipped ∨
          status = .succeeded ∧ Tracker.Vouched r told job i.path) := by
  have hunique := r.uniqueKeys_trusted world
  obtain ⟨modules, start, g, -, hb⟩ := prepared_of_prepare hprep
  have hbegins := hb.begins hunique
  have hsound := sound_of_course hb hrun
  have hgraph := hb.serves.wellFormed
  have hattends := hbegins.attends hrun
  have hsame := consistent_of_separate (of_plan hb.planned).1 hsep
  have haccounts := hbegins.accounts (fun i hi => hsame.get?_fingerprints b hi) hrun
  obtain ⟨job, hjob, hp⟩ := hb.serves.compiled i hi
  have hlt : job.id < ended.core.scheduler.plan.graph.size := by
    rw [hsound.plan_eq]
    exact hgraph.id_lt hjob
  refine ⟨job, hjob, hp, fun other hother hp' => hb.serves.once other hother job hjob _ hp' hp,
    ended.statusOf job.id, ended.statusOf?_report (hsound.plan_eq ▸ hgraph)
      (hsound.plan_eq ▸ hjob), ?_⟩
  have hskipped := Execution.statusOf_eq_skipped_iff hsound.scheduler hlt
  have hsucceeded := Execution.statusOf_eq_succeeded_iff hsound.scheduler hlt
  obtain rfl := Option.some.inj hsaved
  have hget := Tracker.get?_finish ended.observed ended.report.jobs i.path
  have hplan : ended.observed.plan = b.plan := hattends.plan
  -- The reports spoil the input exactly if the job that compiles it did not succeed.
  have hspoils : (∃ report ∈ ended.report.jobs,
      Tracker.Spoils ended.observed.plan.graph report i.path) ↔
        (ended.statusOf job.id).isSuccess = false := by
    rw [hplan]
    constructor
    · rintro ⟨report, hreport, hno, other, hother, hp'⟩
      obtain ⟨hmem, hid⟩ := hgraph.job?_eq_some_iff.1 hother
      obtain rfl := hb.serves.once other hmem job hjob i.path hp' hp
      obtain ⟨j, -, rfl⟩ := Execution.mem_report_jobs.1 hreport
      rw [hid]
      exact hno
    · intro hno
      exact ⟨_, Execution.mem_report_jobs.2 ⟨job, hsound.plan_eq ▸ hjob, rfl⟩, hno, job,
        hgraph.job?_id hjob, hp⟩
  cases hstatus : ended.statusOf job.id with
  | skipped =>
    rw [if_neg fun h => by rw [hspoils, hstatus] at h; cases h] at hget
    refine ⟨_, hget.trans (haccounts.clean i hi job hjob hp (hskipped.1 hstatus)), fun f => ?_⟩
    simp [eq_comm]
  | succeeded =>
    rw [if_neg fun h => by rw [hspoils, hstatus] at h; cases h] at hget
    by_cases hv : Tracker.Vouched r told job i.path
    · refine ⟨_, hget.trans (haccounts.vouched i hi job hjob hp (hsucceeded.1 hstatus) hv),
        fun f => ?_⟩
      simp [hv, eq_comm]
    · refine ⟨none, hget.trans (haccounts.unvouched i hi (hsep i hi) job hjob hp
        (hsucceeded.1 hstatus) hv), fun f => ?_⟩
      simp [hv]
  | failed | blocked | cancelled =>
    rw [if_pos (hspoils.2 (by rw [hstatus]; rfl))] at hget
    exact ⟨none, hget, fun f => by simp⟩

end Run

/-- One input is compiled in a world without files, and its fingerprint is saved. -/
theorem BuildRequest.saved_fingerprint_iff_oneInput :
    let i : InputFile := ⟨⟨"a"⟩, ⟨"1"⟩⟩
    let r := forObjects [i]
    ∃ (b : PlannedBuild) (world' : SimulatedTools) (told : List (Told SimulatedTools))
      (ended : Execution SimulatedTools Tracker) (saved : BuildState),
      (∀ i ∈ r.inputs, ∀ header, r.header = some header → compare header.path i.path ≠ .eq) ∧
      r.prepare none (SimulatedTools.ofFiles .empty) = (.ok b, world') ∧
      Course (.ofProcesses SimulatedTools) Tracker.observer (r.begin b world') told ended ∧
      (r.conclude ended).report.state = some saved ∧ i ∈ r.inputs ∧
      ∃ job ∈ b.plan.graph.jobs, job.Compiles i.path ∧
        (∀ other ∈ b.plan.graph.jobs, other.Compiles i.path → other = job) ∧
        ∃ status, (r.conclude ended).report.statusOf? job.key = some status ∧
        ∃ entry, saved.inputs.get? i.path = some entry ∧ ∀ f, entry = some f ↔
          f = i.fingerprint ∧ (status = .skipped ∨
            status = .succeeded ∧ Tracker.Vouched r told job i.path) := by
  intro i r
  have hsep : ∀ i ∈ r.inputs, ∀ header, r.header = some header →
      compare header.path i.path ≠ .eq := fun i _ header h => by cases h
  have hi : i ∈ r.inputs := List.mem_cons_self
  obtain ⟨b, world', told, ended, hprep, hrun, -⟩ := r.exists_course_of_check none
    (SimulatedTools.ofFiles .empty) (fun _ _ => true) (by decide +kernel)
  exact ⟨b, world', told, ended, _, hsep, hprep, hrun, rfl, hi,
    saved_fingerprint_iff hsep hprep hrun rfl hi⟩

end IncrementalBuild
