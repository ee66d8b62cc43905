import IncrementalBuild.Build
import IncrementalBuild.Proofs.Plan.Batch
import IncrementalBuild.Proofs.Plan.Jobs
import IncrementalBuild.Proofs.Plan.Prune
import IncrementalBuild.Proofs.Plan.Stages
import IncrementalBuild.Proofs.Start
import IncrementalBuild.Proofs.Tracking

/-!
# What a prepared build is like

A build that has been prepared comes from a start, a job graph and what was pruned from
it, gathered in batches. Everything that its execution relies on follows from these: its
plan serves the request, and the tracker begins with an input dirty exactly if its compile
job has to run for it.
-/

namespace IncrementalBuild

/-! ## States that are loaded -/

/-- The declarations of a file are put in once their keys have been checked. -/
theorem SavedState.graphOf_cons_eq_ok {p : Path} {ds : List Declaration}
    {rest : List (Path × List Declaration)} {g g' : DependencyGraph} :
    graphOf ((p, ds) :: rest) g = .ok g' ↔
      checkKeys p [] ds = .ok () ∧ graphOf rest (g.replace p ds).1 = .ok g' := by
  conv_lhs => unfold graphOf
  cases hc : checkKeys p [] ds with
  | error fault => exact iff_of_false (fun h => by cases h) fun h => by cases h.1
  | ok u => exact (and_iff_right rfl).symm

/-- **What holds of the empty graph**, and is kept when the declarations of a file are put
in that have been checked, holds of every loaded state. -/
theorem StateLoad.graph_of_ofFile {φ : Type} [FileSystem φ] {fs : φ} {p : Path}
    {state : BuildState} {P : DependencyGraph → Prop} (hempty : P .empty)
    (hstep : ∀ g q ds, SavedState.checkKeys q [] ds = .ok () → P g → P (g.replace q ds).1)
    (h : StateLoad.ofFile fs p = .loaded state) : P state.graph := by
  -- File by file, each with declarations that were checked.
  have hgraph (entries : List (Path × List Declaration)) {g g' : DependencyGraph}
      (hg : P g) (h : SavedState.graphOf entries g = .ok g') : P g' := by
    induction entries generalizing g with
    | nil =>
      obtain rfl : g = g' := Except.ok.inj h
      exact hg
    | cons entry rest ih =>
      obtain ⟨q, ds⟩ := entry
      obtain ⟨hc, h⟩ := SavedState.graphOf_cons_eq_ok.1 h
      exact ih (hstep g q ds hc hg) h
  have htext {text : String} (h : StateLoad.ofText text = .loaded state) : P state.graph := by
    unfold StateLoad.ofText at h
    split at h
    · cases h
    rename_i saved hsaved
    split at h
    · rename_i loaded hload
      obtain rfl := StateLoad.loaded.inj h
      unfold SavedState.toState at hload
      split at hload
      · cases hload
      cases hg : SavedState.graphOf saved.declarations.entries .empty with
      | error fault =>
        rw [hg] at hload
        cases hload
      | ok g =>
        rw [hg] at hload
        obtain rfl := Except.ok.inj hload
        exact hgraph _ hempty hg
    · cases h
  unfold StateLoad.ofFile at h
  split at h
  · split at h
    · cases h
    · exact htext h
  · cases h

/-- Declarations that have been checked have keys. -/
theorem SavedState.key_ne_empty_of_checkKeys {p : Path} {before : List String}
    {ds : List Declaration} (h : checkKeys p before ds = .ok ()) : ∀ d ∈ ds, d.key ≠ "" := by
  induction ds generalizing before with
  | nil => exact fun d hd => absurd hd List.not_mem_nil
  | cons d rest ih =>
    unfold checkKeys at h
    split at h
    · cases h
    rename_i hkey
    split at h
    · cases h
    · exact List.forall_mem_cons.2 ⟨hkey, ih h⟩

namespace BuildRequest

variable {ω : Type} [FileSystem ω] {r : BuildRequest} {world : ω}

/-- A state is trusted only if it was made with the same choices. -/
theorem priorState_eq_loaded_iff {state : BuildState} :
    r.priorState world = .loaded state ↔
      StateLoad.ofFile world r.statePath = .loaded state ∧
        state.options = some r.optionsFingerprint := by
  unfold priorState
  split
  · rename_i found hfound
    rw [hfound]
    split
    · rename_i hoptions
      constructor
      · intro h
        obtain rfl := StateLoad.loaded.inj h
        exact ⟨rfl, hoptions⟩
      · exact And.left
    · rename_i hoptions
      refine iff_of_false (fun h => by cases h) fun h => hoptions ?_
      rw [StateLoad.loaded.inj h.1]
      exact h.2
  · rename_i hno
    exact ⟨fun h => (hno state h).elim, fun h => (hno state h.1).elim⟩

/-- What holds of every loaded graph and of the empty one holds of what is trusted of the
last build. -/
theorem graph_trusted {P : DependencyGraph → Prop} (r : BuildRequest) (world : ω)
    (hempty : P .empty)
    (hstep : ∀ g q ds, SavedState.checkKeys q [] ds = .ok () → P g → P (g.replace q ds).1) :
    P (DirtyInputs.trusted (r.priorState world)).graph := by
  cases h : r.priorState world with
  | loaded state => exact StateLoad.graph_of_ofFile hempty hstep (priorState_eq_loaded_iff.1 h).1
  | missing => exact hempty
  | corrupt fault => exact hempty

/-- What is trusted of the last build declares no key twice in a file. -/
theorem uniqueKeys_trusted (r : BuildRequest) (world : ω) :
    (DirtyInputs.trusted (r.priorState world)).graph.UniqueKeys :=
  (DirtyInputs.trusted (r.priorState world)).graph.uniqueKeys

/-- What is trusted of the last build has a key for every declaration. -/
theorem key_ne_empty_trusted (r : BuildRequest) (world : ω) (q : Path) :
    ∀ d ∈ (DirtyInputs.trusted (r.priorState world)).graph.declarationsOf q, d.key ≠ "" :=
  r.graph_trusted world DependencyGraph.keyed_empty
    (fun _ p _ hds h => h.replace p (SavedState.key_ne_empty_of_checkKeys hds)) q

/-- What a build knows about the jobs of a graph. -/
def changesFor (r : BuildRequest) (g : JobGraph) (start : DirtyInputs) : Changes where
  dirty := start.dirty
  stale := staleKeys g start.state start.removed
  commands := changedCommands (r.commandFingerprints g) start.state.commands

end BuildRequest

/-- **What a build was prepared from**: its start, the jobs of the request, and the world in
which they were pruned. -/
structure PlannedBuild.Prepared {ω : Type} [FileSystem ω] (b : PlannedBuild) (r : BuildRequest)
    (prior : StateLoad) (modules : Option ModuleGraph) (world : ω) (start : DirtyInputs)
    (g : JobGraph) : Prop where
  started : DirtyInputs.compute prior r.trackedInputs = .ok start
  planned : r.plan modules = .ok g
  gathers : ∃ place, (g.prune (r.changesFor g start) world).Gathers b.plan place
  dirty : b.dirty = start.dirty
  state : b.state = { start.state with
    options := some r.optionsFingerprint, commands := r.commandFingerprints g }
  removed : b.removed = start.removed

namespace BuildRequest

variable {ω : Type} [FileSystem ω] {r : BuildRequest}

/-- Preparing a build is to plan it from its start, once the modules are known. -/
theorem prepare_eq {scan : Option (Scanner ω)} {world world' : ω} {start : DirtyInputs}
    {modules : Option ModuleGraph}
    (hstart : DirtyInputs.compute (r.priorState world) r.trackedInputs = .ok start)
    (hscan : r.scanModules scan world = (.ok modules, world')) :
    r.prepare scan world = (r.planFrom world' start modules, world') := by
  unfold prepare
  rw [hstart]
  dsimp only
  rw [hscan]

theorem planFrom_eq_error {world : ω} {start : DirtyInputs} {modules : Option ModuleGraph}
    {e : PlanningError} (h : r.plan modules = .error e) :
    r.planFrom world start modules = .error e := by
  unfold planFrom
  rw [h]
  rfl

/-- To plan a build is to prune the jobs of the request and to gather them in batches. -/
theorem planFrom_eq {world : ω} {start : DirtyInputs} {modules : Option ModuleGraph}
    {g : JobGraph} (hg : r.plan modules = .ok g) :
    r.planFrom world start modules
      = ((g.prune (r.changesFor g start) world).partition r.batchSize).map fun plan =>
        ⟨plan, start.dirty, { start.state with
          options := some r.optionsFingerprint
          commands := r.commandFingerprints g }, start.removed⟩ := by
  unfold planFrom
  rw [hg]
  rfl

/-- **Preparing a build.** -/
theorem prepared_of_prepare {scan : Option (Scanner ω)} {world world' : ω} {b : PlannedBuild}
    (h : r.prepare scan world = (.ok b, world')) :
    ∃ modules start g, r.scanModules scan world = (.ok modules, world') ∧
      b.Prepared r (r.priorState world) modules world' start g := by
  unfold prepare at h
  split at h
  · cases h
  rename_i start hstart
  split at h
  · cases h
  rename_i modules after hscan
  obtain ⟨hplan, rfl⟩ := Prod.mk.inj h
  cases hg : r.plan modules with
  | error e =>
    rw [planFrom_eq_error hg] at hplan
    cases hplan
  | ok g =>
    rw [planFrom_eq hg] at hplan
    cases hpart : (g.prune (r.changesFor g start) after).partition r.batchSize with
    | error e =>
      rw [hpart] at hplan
      cases hplan
    | ok plan =>
      rw [hpart] at hplan
      obtain rfl := Except.ok.inj hplan
      obtain ⟨-, hwell, -⟩ := of_plan hg
      exact ⟨modules, start, g, hscan, hstart, hg,
        BuildPlan.exists_gathers_of_partition (p := g.prune (r.changesFor g start) after) hwell
          hpart, rfl, rfl, rfl⟩

end BuildRequest

namespace PlannedBuild.Prepared

variable {ω : Type} [FileSystem ω] {b : PlannedBuild} {r : BuildRequest} {prior : StateLoad}
  {modules : Option ModuleGraph} {world : ω} {start : DirtyInputs} {g : JobGraph}

theorem starts (h : b.Prepared r prior modules world start g) :
    start.Starts prior r.trackedInputs :=
  DirtyInputs.starts_of_compute h.started

/-- **The plan of a prepared build serves its request.** -/
theorem serves (h : b.Prepared r prior modules world start g) : b.plan.Serves r := by
  obtain ⟨place, hgathers⟩ := h.gathers
  obtain ⟨-, order, -, hholds⟩ := BuildRequest.holds_of_plan h.planned
  exact hgathers.serves (hholds.serves rfl)

/-- **The jobs of a prepared build wait as their stages say.** -/
theorem layered (h : b.Prepared r prior modules world start g) :
    b.plan.graph.Layered r.mode := by
  obtain ⟨place, hgathers⟩ := h.gathers
  obtain ⟨-, order, -, hholds⟩ := BuildRequest.holds_of_plan h.planned
  exact hgathers.layered hholds.wellFormed hholds.layered

/-- **What waits for a scheduled job of a prepared build is scheduled.** -/
theorem closed (h : b.Prepared r prior modules world start g) : b.plan.Closed := by
  obtain ⟨place, hgathers⟩ := h.gathers
  obtain ⟨-, hwell, -⟩ := BuildRequest.of_plan h.planned
  exact hgathers.closed hwell (JobGraph.closed_prune hwell (r.changesFor g start) world)

/-- **The keys of a prepared build tell the stages of its jobs.** -/
theorem labelled (h : b.Prepared r prior modules world start g) {job : Job}
    (hjob : job ∈ b.plan.graph.jobs) : job.Labelled := by
  obtain ⟨place, hgathers⟩ := h.gathers
  obtain ⟨-, order, -, hholds⟩ := BuildRequest.holds_of_plan h.planned
  exact hgathers.labelled (fun m hm => hholds.labelled hm) hjob

/-- No two jobs of a prepared build were planned as the same. -/
theorem eq_of_mem_originKeys (h : b.Prepared r prior modules world start g) {job other : Job}
    (hjob : job ∈ b.plan.graph.jobs) (hother : other ∈ b.plan.graph.jobs) {key : JobKey}
    (hkey : key ∈ job.originKeys) (hkey' : key ∈ other.originKeys) : job = other := by
  obtain ⟨place, hgathers⟩ := h.gathers
  obtain ⟨-, order, -, hholds⟩ := BuildRequest.holds_of_plan h.planned
  exact hgathers.eq_of_mem_originKeys hholds.originKeys_eq hholds.wellFormed hjob hother hkey hkey'

/-- A job of a prepared build that is not scheduled is known by its own key. -/
theorem originKeys_eq (h : b.Prepared r prior modules world start g) {job : Job}
    (hjob : job ∈ b.plan.graph.jobs) (hs : (b.plan.disposition job.id).isScheduled = false) :
    job.originKeys = [job.key] := by
  obtain ⟨place, hgathers⟩ := h.gathers
  obtain ⟨-, order, -, hholds⟩ := BuildRequest.holds_of_plan h.planned
  exact hgathers.originKeys_eq hholds.originKeys_eq hjob hs

/-- **A job that reads something dirty is scheduled.** -/
theorem isScheduled_of_dirty (h : b.Prepared r prior modules world start g) {job : Job}
    (hjob : job ∈ b.plan.graph.jobs) {a : Artifact} (ha : a ∈ job.inputs)
    (hdirty : start.dirty.contains a.path = true) :
    (b.plan.disposition job.id).isScheduled = true := by
  obtain ⟨place, hgathers⟩ := h.gathers
  obtain ⟨-, hwell, -⟩ := BuildRequest.of_plan h.planned
  obtain ⟨first, rest, hgathered⟩ := hgathers.gathered job hjob
  obtain ⟨m, hm, a', ha', hdirty'⟩ := (hgathered.exists_mem_inputs_iff
    (P := fun a => start.dirty.contains a.path = true) fun a b hab h => by
      rw [← OrderedMap.contains_congr _ (Artifact.beq_iff.1 hab).1]
      exact h).1 ⟨a, ha, hdirty⟩
  rw [hgathered.isScheduled_eq hm]
  refine (JobGraph.isScheduled_prune_iff hwell _ world ((hgathered.mem_iff m).1 hm).1).2 (.inl ?_)
  exact (Changes.isSome_reason?_iff _ world).2 (.inr (.inl ⟨a', ha', hdirty'⟩))

/-- **The tracker of a prepared build begins as it has to.** -/
theorem begins (h : b.Prepared r prior modules world start g)
    (hprior : (DirtyInputs.trusted prior).graph.UniqueKeys) : (r.tracker b).Begins r where
  serves := h.serves
  uniqueKeys := by
    show b.state.graph.UniqueKeys
    rw [h.state]
    exact h.starts.uniqueKeys hprior
  clean job hjob hout a ha := by
    show b.dirty.contains a.path = false
    rw [h.dirty, ← Bool.not_eq_true]
    intro hd
    exact Bool.false_ne_true (hout.symm.trans (h.isScheduled_of_dirty hjob ha hd))
  entry i hi := by
    show b.state.inputs.get? i.path = some (if b.dirty.contains i.path then _ else _)
    rw [h.state, h.dirty]
    exact h.starts.entry i hi

end PlannedBuild.Prepared

/-- **Whether one file has one content**: where a file is tracked twice, as an input and as
the header, it is tracked with the same fingerprint. -/
def BuildRequest.Consistent (r : BuildRequest) : Prop :=
  ∀ i ∈ r.trackedInputs, ∀ j ∈ r.trackedInputs, compare i.path j.path = .eq →
    i.fingerprint = j.fingerprint

namespace BuildRequest

variable {r : BuildRequest}

/-- A request is consistent if its header is not an input too. -/
theorem consistent_of_separate {modules : Option ModuleGraph} (h : r.Accepted modules)
    (hsep : ∀ i ∈ r.inputs, ∀ header, r.header = some header →
      compare header.path i.path ≠ .eq) : r.Consistent := by
  intro i hi j hj hij
  rcases List.mem_append.1 hi with hi | hi <;> rcases List.mem_append.1 hj with hj | hj
  · rw [eq_of_pairwise_compare (f := InputFile.path) (List.pairwise_map.1 h.distinct) hi hj hij]
  · exact absurd (Std.OrientedCmp.eq_symm hij) (hsep i hi j (Option.mem_toList.1 hj))
  · exact absurd hij (hsep j hj i (Option.mem_toList.1 hi))
  · rw [Option.some.inj ((Option.mem_toList.1 hi).symm.trans (Option.mem_toList.1 hj))]

/-- **Only a consistent request can have nothing to do**: a state knows one fingerprint of a file,
so a file that is tracked with two is dirty whatever was built before. -/
theorem consistent_of_clean {ω : Type} [FileSystem ω] {scan : Option (Scanner ω)} {world world' : ω}
    {b : PlannedBuild} (h : r.prepare scan world = (.ok b, world')) (hclean : b.dirty = ∅) :
    r.Consistent := by
  obtain ⟨modules, start, g, -, hb⟩ := prepared_of_prepare h
  have hentry {i : InputFile} (hi : i ∈ r.trackedInputs) :
      start.state.inputs.get? i.path = some (some i.fingerprint) := by
    rw [hb.starts.entry i hi, ← hb.dirty, hclean]
    rfl
  intro i hi j hj hij
  have hsame := hentry hi
  rw [OrderedMap.get?_congr _ hij, hentry hj] at hsame
  exact (Option.some.inj (Option.some.inj hsame)).symm

/-- Every tracked file has a fingerprint. -/
theorem isSome_get?_fingerprints (r : BuildRequest) (b : PlannedBuild)
    {i : InputFile} (hi : i ∈ r.trackedInputs) :
    ((r.tracker b).fingerprints.get? i.path).isSome = true := by
  show ((OrderedMap.ofLastEntries _).get? i.path).isSome = true
  rw [OrderedMap.get?_ofLastEntries, Option.isSome_map, List.find?_isSome]
  exact ⟨(i.path, i.fingerprint), List.mem_reverse.2 (List.mem_map.2 ⟨i, hi, rfl⟩),
    beq_iff_eq.2 Std.ReflOrd.compare_self⟩

/-- **The tracker has the fingerprint of every tracked file at hand.** -/
theorem Consistent.get?_fingerprints (h : r.Consistent) (b : PlannedBuild) {i : InputFile}
    (hi : i ∈ r.trackedInputs) :
    (r.tracker b).fingerprints.get? i.path = some i.fingerprint := by
  show (OrderedMap.ofLastEntries _).get? i.path = _
  rw [OrderedMap.get?_ofLastEntries]
  cases hfind : (r.trackedInputs.map fun i => (i.path, i.fingerprint)).reverse.find?
      (fun e => compare e.1 i.path == .eq) with
  | none =>
    have := List.find?_eq_none.1 hfind (i.path, i.fingerprint)
      (List.mem_reverse.2 (List.mem_map.2 ⟨i, hi, rfl⟩))
    exact absurd (beq_iff_eq.2 Std.ReflOrd.compare_self) this
  | some e =>
    obtain ⟨j, hj, rfl⟩ := List.mem_map.1 (List.mem_reverse.1 (List.mem_of_find?_eq_some hfind))
    have hji : compare j.path i.path = .eq := by
      have := List.find?_some hfind
      simpa using this
    rw [Option.map_some, h j hj i hi hji]

end BuildRequest

end IncrementalBuild
