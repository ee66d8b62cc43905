import IncrementalBuild.Proofs.Delivery
import IncrementalBuild.Proofs.InterfaceCircles
import IncrementalBuild.Proofs.Reload
import IncrementalBuild.Proofs.Unfinished

/-!
# A build that has succeeded leaves nothing to do

A state is settled for a request if it has the fingerprint of every tracked file, knows of
no other file, and remembers neither another command nor an unfinished job. A build that
finds such a state, and all products in place, schedules nothing but the building of
modules. With well-mannered tools every build that succeeds saves a settled state.
-/

namespace IncrementalBuild

/-- **Whether a state says that all jobs of a request are done.** -/
structure BuildState.Settled (s : BuildState) (r : BuildRequest) (g : JobGraph) : Prop where
  options : s.options = some r.optionsFingerprint
  commands : s.commands = r.commandFingerprints g
  entry : ∀ i ∈ r.trackedInputs, s.inputs.get? i.path = some (some i.fingerprint)
  within : s.Within r.trackedInputs
  uniqueKeys : s.graph.UniqueKeys
  done : ∀ job ∈ g.jobs, s.staleJobs.contains job.key = false

/-! ## Finding a settled state -/

namespace DirtyInputs

theorem dirtied_eq_empty {reason : InputFile → Option DirtyReason} {inputs : List InputFile}
    (h : ∀ i ∈ inputs, reason i = none) : dirtied reason inputs = ∅ := by
  unfold dirtied
  induction inputs with
  | nil => rfl
  | cons i rest ih =>
    rw [List.foldl_cons, h i List.mem_cons_self]
    exact ih fun i hi => h i (List.mem_cons_of_mem _ hi)

/-- **A settled state makes nothing dirty.** -/
theorem ofState_of_settled {s : BuildState} {r : BuildRequest} {g : JobGraph}
    (hs : s.Settled r g) (hcycle : s.graph.interfaceCycle? = none) :
    ofState s r.trackedInputs = .ok ⟨∅, enterInputs ∅ s r.trackedInputs, []⟩ := by
  have hremoved : removedFiles s r.trackedInputs = [] := by
    refine List.eq_nil_iff_forall_not_mem.2 fun p hp => ?_
    obtain ⟨hknown, hout⟩ := exists_mem_removedFiles_iff.1 ⟨p, hp, Std.ReflOrd.compare_self⟩
    obtain ⟨i, hi, hip⟩ := hknown.elim (hs.within.inputs p) (hs.within.graph p)
    exact hout i hi hip
  have hreason : ∀ i ∈ r.trackedInputs, reason? s ∅ i = none := fun i hi => by
    unfold reason?
    rw [hs.entry i hi]
    simp
  rw [ofState_eq_ok_iff, hremoved]
  refine ⟨hcycle, ?_⟩
  show _ = DirtyInputs.mk (dirtied (reason? s ∅) r.trackedInputs)
    (enterInputs (dirtied (reason? s ∅) r.trackedInputs) s r.trackedInputs) []
  rw [dirtied_eq_empty hreason]

end DirtyInputs

/-- A plan of which no job can be batched is left as it is. -/
theorem BuildPlan.partition_eq_self {p : BuildPlan}
    (h : ∀ job ∈ p.graph.jobs, p.isCandidate job = false) (size : Option Nat) :
    p.partition size = .ok p := by
  have hnone (n : Nat) : p.batches n = [] := by
    have hcandidates : p.graph.jobs.filter p.isCandidate = [] :=
      List.filter_eq_nil_iff.2 fun job hjob => Bool.not_eq_true _ ▸ h job hjob
    unfold batches
    rw [hcandidates]
    rfl
  cases size with
  | none => rfl
  | some n =>
    have hbatches : (if n > 1 then p.batches n else []) = [] := by rw [hnone, ite_self]
    unfold partition
    refine if_pos ?_
    show (if n > 1 then p.batches n else []).isEmpty = true
    rw [hbatches]
    rfl

namespace BuildRequest

/-- No command differs from itself. -/
theorem contains_changedCommands_self (c : OrderedMap JobKey Fingerprint) (key : JobKey) :
    (changedCommands c c).contains key = false := by
  unfold changedCommands
  rw [OrderedMap.contains_mapValues, ← Bool.not_eq_true, OrderedMap.contains_iff]
  rintro ⟨e, he, -⟩
  obtain ⟨hmem, hchanged⟩ := List.mem_filter.1 he
  dsimp only at hchanged
  rw [OrderedMap.get?_of_mem hmem] at hchanged
  simp at hchanged

variable {ω : Type} [FileSystem ω] {r : BuildRequest} {scan : Option (Scanner ω)} {world : ω}
  {known : Option ModuleGraph} {s : BuildState} {g : JobGraph}

/-- A saved state that is settled is loaded as one that is. -/
theorem exists_priorState_of_settled (hs : s.Settled r g) (hlayered : s.graph.Layered)
    (hread : StateLoad.ofFile world r.statePath = .ofText (SavedState.ofState s).print) :
    ∃ state, r.priorState world = .loaded state ∧ state.Settled r g ∧
      state.graph.interfaceCycle? = none := by
  obtain ⟨graph, hgraph, hdeclared, hfiles⟩ :=
    SavedState.exists_graphOf_ofState hs.within.keys
  refine ⟨{ s with graph }, priorState_eq_loaded_iff.2 ⟨?_, hs.options⟩,
    ⟨hs.options, hs.commands, hs.entry, ⟨hs.within.inputs, fun q hq => ?_, fun q => ?_⟩,
      graph.uniqueKeys, hs.done⟩, ?_⟩
  · exact hread.trans (StateLoad.ofText_print_of_graphOf hgraph)
  · exact hs.within.graph q (hfiles q hq)
  · exact hdeclared q ▸ hs.within.keys q
  · refine DependencyGraph.interfaceCycle?_eq_none_iff.2 fun key hkey => hlayered key ?_
    refine Relation.TransGen.mono (fun base key hbuilt => ?_) key key hkey
    obtain ⟨p, d, hd, h⟩ := hbuilt
    exact ⟨p, d, hdeclared p ▸ hd, h⟩

/-- **A build that finds a settled state has nothing to do.** -/
theorem prepare_of_settled (hplan : r.plan known = .ok g) (hs : s.Settled r g)
    (hlayered : s.graph.Layered)
    (hread : StateLoad.ofFile world r.statePath = .ofText (SavedState.ofState s).print)
    (hscan : r.scanModules scan world = (.ok known, world))
    (houtputs : ∀ job ∈ g.jobs, ∀ a ∈ job.outputs, FileSystem.pathExists world a.path = true) :
    ∃ b, r.prepare scan world = (.ok b, world) ∧ b.dirty = ∅ ∧ b.removed = [] ∧
      ∀ job ∈ b.plan.graph.jobs, (b.plan.disposition job.id).isScheduled = true →
        job.isModuleBuild = true := by
  obtain ⟨state, hload, hstate, hcycle⟩ :=
    r.exists_priorState_of_settled hs hlayered hread
  obtain ⟨-, order, -, hholds⟩ := holds_of_plan hplan
  have hstart := DirtyInputs.ofState_of_settled hstate hcycle
  obtain ⟨-, hstale, hcommands⟩ := DirtyInputs.enterInputs_rest ∅ state r.trackedInputs
  let start : DirtyInputs := ⟨∅, DirtyInputs.enterInputs ∅ state r.trackedInputs, []⟩
  -- Each of the reasons for which a job that builds no module would be scheduled is gone:
  -- nothing is dirty, the commands are those that were recorded, nothing is stale, and the
  -- outputs are there.
  have hmodules : ∀ job ∈ g.jobs,
      ((g.prune (r.changesFor g start) world).disposition job.id).isScheduled = true →
        job.isModuleBuild = true := by
    refine fun job hjob => JobGraph.isModuleBuild_of_isScheduled hholds.wellFormed
      (fun job hjob hreason => ?_) hjob
    rcases (Changes.isSome_reason?_iff _ world).1 hreason with
      h | ⟨a, -, h⟩ | h | ⟨key, hkey, h⟩ | ⟨a, ha, h⟩
    · exact h
    · cases h
    · have h : (changedCommands (r.commandFingerprints g)
          (DirtyInputs.enterInputs ∅ state r.trackedInputs).commands).contains job.key = true := h
      rw [hcommands, hstate.commands, contains_changedCommands_self] at h
      cases h
    · have h : (DirtyInputs.enterInputs ∅ state r.trackedInputs).staleJobs.contains key = true := h
      rw [hholds.originKeys_eq job hjob, List.mem_singleton] at hkey
      rw [hstale, hkey, hstate.done job hjob] at h
      cases h
    · rw [houtputs job hjob a ha] at h
      cases h
  -- So there is nothing to batch.
  have hpartition : (g.prune (r.changesFor g start) world).partition r.batchSize
      = .ok (g.prune (r.changesFor g start) world) := by
    refine BuildPlan.partition_eq_self (fun job hjob => ?_) _
    rw [← Bool.not_eq_true, BuildPlan.isCandidate_iff]
    rintro ⟨hscheduled, u, hu⟩
    have := hmodules job hjob hscheduled
    unfold Job.isModuleBuild at this
    rw [hu] at this
    cases this
  -- What is left is to read `prepare` along these facts.
  refine ⟨⟨g.prune (r.changesFor g start) world, ∅, { start.state with
    options := some r.optionsFingerprint, commands := r.commandFingerprints g }, []⟩, ?_,
    rfl, rfl, hmodules⟩
  have hprepare : r.prepare scan world = (r.planFrom world start known, world) :=
    prepare_eq (hload ▸ hstart) hscan
  rw [hprepare]
  unfold planFrom
  rw [hplan]
  show (((g.prune (r.changesFor g start) world).partition r.batchSize).map fun plan =>
    (⟨plan, _, _, _⟩ : PlannedBuild), world) = _
  rw [hpartition]
  rfl

end BuildRequest

/-! ## Leaving a settled state -/

/-- A build succeeds only where every report tells of a success. -/
theorem Execution.isSuccess_of_mem_report {ω σ : Type} {e : Execution ω σ}
    (h : e.report.outcome = .succeeded) {report : JobReport} (hreport : report ∈ e.report.jobs) :
    report.status.isSuccess = true := by
  have h : (if e.cancelRequested then RunOutcome.cancelled
    else if e.report.jobs.all (·.status.isSuccess) then .succeeded else .failed)
      = .succeeded := h
  split at h
  · cases h
  · split at h
    · rename_i hall
      exact List.all_eq_true.1 hall _ hreport
    · cases h

/-- A build succeeds only where every job does. -/
theorem Execution.clean_or_succeeded {ω σ : Type} {e : Execution ω σ} {plan : BuildPlan}
    (hs : e.Sound plan) (hg : plan.graph.WellFormed) (h : e.report.outcome = .succeeded)
    {job : Job} (hjob : job ∈ plan.graph.jobs) :
    e.core.scheduler.isClean job.id ∨ e.core.scheduler.stateOf? job.id = some .succeeded := by
  have hstatus : (e.statusOf job.id).isSuccess = true :=
    isSuccess_of_mem_report h (mem_report_jobs.2 ⟨job, hs.plan_eq ▸ hjob, rfl⟩)
  have hid : job.id < e.core.scheduler.plan.graph.size := by
    rw [hs.plan_eq]
    exact hg.id_lt hjob
  cases he : e.statusOf job.id with
  | skipped => exact .inl ((statusOf_eq_skipped_iff hs.scheduler hid).1 he)
  | succeeded => exact .inr ((statusOf_eq_succeeded_iff hs.scheduler hid).1 he)
  | failed | blocked | cancelled =>
    rw [he] at hstatus
    cases hstatus

section Run

variable {ω : Type} [FileSystem ω] {env : Environment ω} {r : BuildRequest} {world : ω}
  {b : PlannedBuild} {told : List (Told ω)} {ended : Execution ω Tracker} {prior : StateLoad}
  {known : Option ModuleGraph} {start : DirtyInputs} {g : JobGraph}

/-- After a success a tracked file has the fingerprint that was taken of it, since what compiled
it was left out or vouches for it. -/
theorem PlannedBuild.Prepared.get?_inputs_of_succeeded (hb : b.Prepared r prior known world start g)
    (hprior : (DirtyInputs.trusted prior).graph.UniqueKeys) (hsame : r.Consistent)
    (hrun : Course env Tracker.observer (r.begin b world) told ended)
    (houtcome : ended.report.outcome = .succeeded)
    (hvouched : ∀ job ∈ b.plan.graph.jobs, ∀ p, job.Compiles p →
      ended.core.scheduler.stateOf? job.id = some .succeeded → Tracker.Vouched r told job p)
    {i : InputFile} (hi : i ∈ r.trackedInputs) :
    ended.observed.state.inputs.get? i.path = some (some i.fingerprint) := by
  have haccounts := (hb.begins hprior).accounts (fun i hi => hsame.get?_fingerprints b hi) hrun
  have hstands {job : Job} (hjob : job ∈ b.plan.graph.jobs) :=
    Execution.clean_or_succeeded (hrun.sound hb.serves.wellFormed) hb.serves.wellFormed houtcome
      hjob
  have hinput {i : InputFile} (hi : i ∈ r.inputs) :
      ended.observed.state.inputs.get? i.path = some (some i.fingerprint) := by
    obtain ⟨job, hjob, hp⟩ := hb.serves.compiled i hi
    rcases hstands hjob with h | h
    · exact haccounts.clean i hi job hjob hp h
    · exact haccounts.vouched i hi job hjob hp h (hvouched job hjob _ hp h)
  rcases List.mem_append.1 hi with hi | hi
  · exact hinput hi
  -- A header that is an input too has the fingerprint of the input.
  by_cases hone : ∃ j ∈ r.inputs, compare j.path i.path = .eq
  · obtain ⟨j, hj, hji⟩ := hone
    rw [← OrderedMap.get?_congr _ hji, hinput hj,
      hsame j (List.mem_append_left _ hj) i (List.mem_append_right _ hi) hji]
  · have hheader := Option.mem_toList.1 hi
    obtain ⟨job, hjob, hk⟩ := hb.serves.headed i hheader
    exact haccounts.header i hheader (fun j hj he => hone ⟨j, hj, he⟩) job hjob hk (hstands hjob)

/-- After a success nothing is remembered as unfinished: a job that was stale has been scheduled,
and so has succeeded. -/
theorem PlannedBuild.Prepared.not_contains_staleJobs_finish
    (hb : b.Prepared r prior known world start g)
    (hprior : (DirtyInputs.trusted prior).graph.UniqueKeys)
    (hrun : Course env Tracker.observer (r.begin b world) told ended)
    (houtcome : ended.report.outcome = .succeeded) {m : Job} (hm : m ∈ g.jobs) :
    (ended.observed.finish ended.report.jobs).staleJobs.contains m.key = false := by
  obtain ⟨place, hgathers⟩ := hb.gathers
  obtain ⟨-, order, -, hholds⟩ := BuildRequest.holds_of_plan hb.planned
  have hattends := (hb.begins hprior).attends hrun
  have hsound : ended.Sound b.plan := hrun.sound hb.serves.wellFormed
  have hplan : ended.observed.plan = b.plan := hattends.plan
  rw [← Bool.not_eq_true, Tracker.contains_finish, not_and_or, Bool.not_eq_true]
  left
  obtain ⟨job, hjob, hkey, hscheduled⟩ := hgathers.exists_gathering hholds.originKeys_eq hm
  refine Tracker.not_contains_foldl_noteStatus (fun report hreport hno => ?_) _ ?_
  · cases hno.symm.trans (Execution.isSuccess_of_mem_report houtcome hreport)
  rcases Execution.clean_or_succeeded hsound hb.serves.wellFormed houtcome hjob with h | h
  · right
    have hout := hattends.leftOut job hjob h
    rw [show (r.tracker b).plan = b.plan from rfl, hscheduled] at hout
    have hnot := mt (hb.isScheduled_of_stale hm) (Bool.not_eq_true _ ▸ hout)
    rw [not_or] at hnot
    cases prior with
    | loaded state =>
      rw [hattends.staleJobs]
      show b.state.staleJobs.contains m.key = false
      rw [hb.state]
      show start.state.staleJobs.contains m.key = false
      rw [hb.starts.staleJobs, ← Bool.not_eq_true]
      exact fun hstale => hnot.1 ⟨state, rfl, hstale⟩
    | missing => exact absurd (fun state h => by cases h) hnot.2
    | corrupt fault => exact absurd (fun state h => by cases h) hnot.2
  · left
    have hid : job.id < ended.core.scheduler.plan.graph.size := by
      rw [hsound.plan_eq]
      exact hb.serves.wellFormed.id_lt hjob
    exact ⟨_, Execution.mem_report_jobs.2 ⟨job, hsound.plan_eq ▸ hjob, rfl⟩,
      (Execution.statusOf_eq_succeeded_iff hsound.scheduler hid).2 h, job,
      hplan ▸ hb.serves.wellFormed.job?_id hjob, hkey⟩

/-- **A build that has succeeded leaves a settled state**, where every success vouches for
what was compiled and no record declares an empty key. -/
theorem PlannedBuild.Prepared.settled (hb : b.Prepared r prior known world start g)
    (hprior : (DirtyInputs.trusted prior).graph.UniqueKeys)
    (hpriorKeys : ∀ q, ∀ d ∈ (DirtyInputs.trusted prior).graph.declarationsOf q, d.key ≠ "")
    (hsame : r.Consistent)
    (hrun : Course env Tracker.observer (r.begin b world) told ended)
    (houtcome : ended.report.outcome = .succeeded)
    (hvouched : ∀ job ∈ b.plan.graph.jobs, ∀ p, job.Compiles p →
      ended.core.scheduler.stateOf? job.id = some .succeeded → Tracker.Vouched r told job p)
    (hkeyed : ∀ x ∈ told, ∀ id job, x.event = .jobFinished id .succeeded →
      b.plan.graph.job? id = some job → Tracker.KeyedRecords x.world job) :
    (ended.observed.finish ended.report.jobs).Settled r g := by
  have hbegins := hb.begins hprior
  have hattends := hbegins.attends hrun
  obtain ⟨hgraph, -, hcommands⟩ := Tracker.finish_rest ended.observed ended.report.jobs
  refine ⟨hb.options_finish hprior hrun, ?_, fun i hi => ?_, ?_, hgraph ▸ hattends.uniqueKeys,
    fun m hm => hb.not_contains_staleJobs_finish hprior hrun houtcome hm⟩
  · rw [hcommands, hattends.commands]
    show b.state.commands = _
    rw [hb.state]
  · rw [Tracker.get?_finish, if_neg]
    · exact hb.get?_inputs_of_succeeded hprior hsame hrun houtcome hvouched hi
    · rintro ⟨report, hreport, hno, -⟩
      cases hno.symm.trans (Execution.isSuccess_of_mem_report houtcome hreport)
  · exact Tracker.within_finish hbegins.serves hattends.plan
      (hbegins.within (hb.within hpriorKeys) hrun hkeyed) _

end Run

/-! ## Well-mannered tools -/

section Tools

variable {r : BuildRequest} {world : SimulatedTools} {b : PlannedBuild}
  {told : List (Told SimulatedTools)} {ended : Execution SimulatedTools Tracker}
  {known : Option ModuleGraph} {g : JobGraph}

/-- A success vouches for what it compiled, if everything that it writes was there. -/
theorem SimulatedTools.Delivers.reported {t : SimulatedTools} {job : Job} (h : t.Delivers job)
    {u : CompileUnit} (hu : u ∈ job.units) : Tracker.Reported t u := by
  obtain ⟨text, hrecord⟩ := (h.records u hu).recordOf?_eq
  exact ⟨_, hrecord, Path.beq_iff_compare.2 Std.ReflOrd.compare_self⟩

/-- **A request is consistent if its fingerprints are those of files**, whatever has become
of the files since. -/
theorem BuildRequest.consistent_of_read {files : MemoryFiles}
    (h : ∀ i ∈ r.trackedInputs, InputFile.ofPath files i.path = .ok i) : r.Consistent := by
  have hcontent {i : InputFile} (hi : i ∈ r.trackedInputs) : ∃ content,
      files.entries.get? i.path = some (.file content) ∧
        i.fingerprint = Fingerprint.ofBytes content := by
    have hread : (Fingerprint.ofFile files i.path).map (InputFile.mk i.path) = .ok i := h i hi
    have hopen : FileSystem.openFile files i.path = (files.bytes i.path).map .ok := rfl
    unfold Fingerprint.ofFile at hread
    rw [hopen] at hread
    unfold MemoryFiles.bytes at hread
    cases hget : files.entries.get? i.path with
    | none =>
      rw [hget] at hread
      cases hread
    | some entry =>
      rw [hget] at hread
      cases entry with
      | directory => cases hread
      | file content => exact ⟨content, rfl, by rw [← Except.ok.inj hread]⟩
  intro i hi j hj hij
  obtain ⟨content, hget, hf⟩ := hcontent hi
  obtain ⟨content', hget', hf'⟩ := hcontent hj
  rw [OrderedMap.get?_congr _ hij, hget'] at hget
  rw [hf, hf', MemoryEntry.file.inj (Option.some.inj hget)]

/-- Saving a state leaves every other file in place. -/
theorem BuildRequest.conclude_world (r : BuildRequest) (ended : Execution SimulatedTools Tracker) :
    let next := (r.conclude ended).world
    (∀ p, FileSystem.pathExists ended.world p = true → FileSystem.pathExists next p = true) ∧
      StateLoad.ofFile next r.statePath
        = .ofText (SavedState.ofState (ended.observed.finish ended.report.jobs)).print :=
  ⟨(ended.world.files.grown_addFile r.statePath _).stays,
    ended.world.files.ofFile_addFile r.statePath (ended.observed.finish ended.report.jobs)⟩

namespace SharedHeader

def files : MemoryFiles := MemoryFiles.empty.addFile ⟨"a"⟩ .empty

def input : InputFile := ⟨⟨"a"⟩, .ofBytes .empty⟩

/-- The input has the fingerprint of its file, and the header a given one. -/
def request (f : Fingerprint) : BuildRequest :=
  { OneModule.request with inputs := [input], header := some ⟨⟨"a"⟩, f⟩ }

/-- The request can be planned, and no word of a command is spelled like a flag of single
inputs. -/
def planned (f : Fingerprint) : Bool :=
  ((request f).plan (some OneModule.modules)).toOption.any ((request f).PlainWords ·)

/-- Whether no product is written in the place of the input or of the state. -/
def SparesFiles (f : Fingerprint) (plan : BuildPlan) : Prop :=
  ∀ job ∈ plan.graph.jobs, ∀ a ∈ job.outputs, ∀ p ∈ [input.path, (request f).statePath],
    compare a.path p ≠ .eq

instance (f : Fingerprint) (plan : BuildPlan) : Decidable (SparesFiles f plan) :=
  inferInstanceAs (Decidable (∀ job ∈ plan.graph.jobs, ∀ a ∈ job.outputs, ∀ p ∈ _, _))

/-- What is checked of a build when it has been carried out: the products differ and spare what is
there, the build has succeeded, and nothing is declared. -/
def wentWell (f : Fingerprint) (b : PlannedBuild) (ended : Execution SimulatedTools Tracker) :
    Bool :=
  decide b.plan.DistinctOutputs && decide (SparesFiles f b.plan)
    && ((request f).conclude ended).report.outcome == .succeeded
    && (ended.observed.finish ended.report.jobs).graph.files.entries.all (·.2.isEmpty)

/-- A build of the request that succeeds under the conditions of the theorem, but for the
fingerprint of the header. -/
structure Succeeds (f : Fingerprint) (b : PlannedBuild) (g : JobGraph) (world' : SimulatedTools)
    (told : List (Told SimulatedTools)) (ended : Execution SimulatedTools Tracker)
    (saved : BuildState) : Prop where
  planned : (request f).plan (some OneModule.modules) = .ok g
  plain : (request f).PlainWords g
  prepared : (request f).prepare (some (.known OneModule.modules)) (.ofFiles files)
    = (.ok b, world')
  distinct : b.plan.DistinctOutputs
  spares : SparesFiles f b.plan
  course : Course (.ofProcesses SimulatedTools) Tracker.observer ((request f).begin b world') told
    ended
  succeeded : ((request f).conclude ended).report.outcome = .succeeded
  kept : ((request f).conclude ended).report.state = some saved
  layered : saved.graph.Layered

theorem exists_succeeds {f : Fingerprint} {b : PlannedBuild} {world' : SimulatedTools}
    {told : List (Told SimulatedTools)} {ended : Execution SimulatedTools Tracker}
    (hplanned : planned f = true)
    (hprep : (request f).prepare (some (.known OneModule.modules)) (.ofFiles files)
      = (.ok b, world'))
    (hrun : Course (.ofProcesses SimulatedTools) Tracker.observer ((request f).begin b world') told
      ended) (hchecked : wentWell f b ended = true) :
    ∃ g saved, Succeeds f b g world' told ended saved := by
  unfold wentWell at hchecked
  simp only [Bool.and_eq_true, decide_eq_true_eq, beq_iff_eq] at hchecked
  obtain ⟨⟨⟨hdistinct, hspares⟩, houtcome⟩, hnone⟩ := hchecked
  unfold planned at hplanned
  cases hg : (request f).plan (some OneModule.modules) with
  | error e =>
    rw [hg] at hplanned
    cases hplanned
  | ok g =>
    rw [hg] at hplanned
    exact ⟨g, _, hg, of_decide_eq_true hplanned, hprep, hdistinct, hspares, hrun, houtcome, rfl,
      DependencyGraph.layered_of_all_isEmpty hnone⟩

end SharedHeader

end Tools

end IncrementalBuild
