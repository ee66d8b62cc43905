import IncrementalBuild.Proofs.Course
import IncrementalBuild.Proofs.Tracker

/-!
# The tracker along an execution

What the tracker knows is tied to where the jobs stand. As long as the compile job of
an input is clean, the input is not dirty, sees no difference in the declarations and
keeps its fingerprint; once a job that was left out is revived, its input is dirty; and
when the job has succeeded, the fingerprint says whether the compiler's report could be
used. Each of this holds at the beginning and is kept by every event, so it holds along
every course.
-/

namespace IncrementalBuild

namespace Tracker

/-- What a tracker has to know at the beginning of a build. -/
structure Begins (r : BuildRequest) (first : Tracker) : Prop where
  serves : first.plan.Serves r
  uniqueKeys : first.state.graph.UniqueKeys
  /-- What a job reads that is left out is not dirty. -/
  clean : ∀ job ∈ first.plan.graph.jobs, (first.plan.disposition job.id).isScheduled = false →
    ∀ a ∈ job.inputs, first.dirty.contains a.path = false
  entry : ∀ i ∈ r.trackedInputs, first.state.inputs.get? i.path
    = some (if first.dirty.contains i.path then none else some i.fingerprint)

/-- An input whose compile job is left out is not dirty. -/
theorem Begins.not_dirty {r : BuildRequest} {first : Tracker} (h : first.Begins r) {job : Job}
    (hjob : job ∈ first.plan.graph.jobs) {p : Path} (hp : job.Compiles p)
    (hout : (first.plan.disposition job.id).isScheduled = false) :
    first.dirty.contains p = false := by
  obtain ⟨-, q, hq, hqp⟩ := hp
  obtain ⟨a, ha, -, rfl⟩ := Job.mem_sourceInputs.1 hq
  rw [← OrderedMap.contains_congr _ hqp]
  exact h.clean job hjob hout a ha

/-- **What ties the tracker to where the jobs stand.** -/
structure Attends (r : BuildRequest) (first : Tracker) (s : Scheduler) (t : Tracker) :
    Prop where
  plan : t.plan = first.plan
  fingerprints : t.fingerprints = first.fingerprints
  staleJobs : t.state.staleJobs = first.state.staleJobs
  options : t.state.options = first.state.options
  commands : t.state.commands = first.state.commands
  uniqueKeys : t.state.graph.UniqueKeys
  leftOut : ∀ job ∈ first.plan.graph.jobs, s.isClean job.id →
    (first.plan.disposition job.id).isScheduled = false
  clean : ∀ i ∈ r.inputs, ∀ job ∈ first.plan.graph.jobs, job.Compiles i.path →
    s.isClean job.id → t.dirty.contains i.path = false
  revived : ∀ i ∈ r.inputs, ∀ job ∈ first.plan.graph.jobs, job.Compiles i.path →
    (first.plan.disposition job.id).isScheduled = false → ¬ s.isClean job.id →
    t.dirty.contains i.path = true
  agrees : r.mode = .perFile → ∀ i ∈ r.inputs, ∀ job ∈ first.plan.graph.jobs,
    job.Compiles i.path → s.isClean job.id → first.state.graph.AgreesFor t.state.graph i.path

section Compiling

variable {r : BuildRequest} {first t : Tracker}

/-- The job that the tracker takes to compile an input does so. -/
theorem compiles_of_compileOf? (h : first.plan.Serves r) (ht : t.plan = first.plan) {p : Path}
    {id : JobId} (hp : t.compileOf? p = some id) :
    r.mode = .perFile ∧ ∃ job ∈ first.plan.graph.jobs, job.id = id ∧ job.Compiles p := by
  unfold compileOf? at hp
  obtain ⟨job, hfind, rfl⟩ := Option.map_eq_some_iff.1 hp
  have hmem : job ∈ first.plan.graph.jobs := by
    rw [← ht]
    exact List.mem_reverse.1 (List.mem_of_find?_eq_some hfind)
  have hcontains : job.primaries.contains p = true := by
    simpa using List.find?_some hfind
  obtain ⟨q, hq, hpq⟩ := List.contains_iff_exists_mem_beq.1 hcontains
  obtain ⟨u, hu, rfl⟩ := List.mem_map.1 hq
  exact ⟨(h.oneByOne_of_mem_units hmem hu).1, job, hmem, rfl,
    (h.compiles_of_mem_units hmem hu).congr
      (Std.OrientedCmp.eq_symm (Path.beq_iff_compare.1 hpq))⟩

/-- Where inputs are compiled one by one, the tracker finds the job that compiles an
input. -/
theorem compileOf?_of_compiles (h : first.plan.Serves r) (ht : t.plan = first.plan)
    (hmode : r.mode = .perFile) {job : Job} (hjob : job ∈ first.plan.graph.jobs) {p : Path}
    (hp : job.Compiles p) : t.compileOf? p = some job.id := by
  cases hfound : t.compileOf? p with
  | some id =>
    obtain ⟨-, job', hmem, rfl, hcompiles⟩ := compiles_of_compileOf? h ht hfound
    rw [h.once job hjob job' hmem p hp hcompiles]
  | none =>
    obtain ⟨u, hu, hup⟩ := h.exists_unit hmode hjob hp
    unfold compileOf? at hfound
    have hnone := List.find?_eq_none.1 (Option.map_eq_none_iff.1 hfound) job
      (List.mem_reverse.2 (by rw [ht]; exact hjob))
    exact absurd (List.contains_iff_exists_mem_beq.2 ⟨u.primary, List.mem_map_of_mem hu,
      Path.beq_iff_compare.2 (Std.OrientedCmp.eq_symm hup)⟩) hnone

/-- A job that was left out compiles one input alone. -/
theorem compare_of_leftOut (h : first.plan.Serves r) {job : Job}
    (hjob : job ∈ first.plan.graph.jobs) (hmode : r.mode = .perFile)
    (hout : (first.plan.disposition job.id).isScheduled = false) {p q : Path}
    (hp : job.Compiles p) (hq : job.Compiles q) : compare p q = .eq := by
  obtain ⟨units, hunits, -, hone⟩ := h.oneByOne hmode job hjob hp.1
  obtain ⟨u, rfl⟩ := hone hout
  obtain ⟨v, hv, hvp⟩ := (hunits.compiles_iff p).1 hp
  obtain ⟨w, hw, hwq⟩ := (hunits.compiles_iff q).1 hq
  rw [List.mem_singleton] at hv hw
  subst hv hw
  rw [← Std.TransCmp.congr_left hvp]
  exact hwq

end Compiling

section Keeping

variable {r : BuildRequest} {first t t' : Tracker} {s s' : Scheduler} {job : Job}
  {roots dispatched : List JobId}

/-- The roots that a tracker answers with are compile jobs that were left out, and their
inputs are dirty then. -/
theorem Answered.of_root (ha : Answered job t t' roots) (h : first.plan.Serves r)
    (ht : t.plan = first.plan) {id : JobId} (hid : id ∈ roots) :
    r.mode = .perFile ∧ ∃ j ∈ first.plan.graph.jobs, j.id = id ∧
      (first.plan.disposition id).isScheduled = false ∧
      ∃ p, j.Compiles p ∧ t'.dirty.contains p = true := by
  obtain ⟨p, hleft, hdirty⟩ := ha.origin id hid
  obtain ⟨hmode, j, hj, hjid, hp⟩ := compiles_of_compileOf? h ht hleft.1
  exact ⟨hmode, j, hj, hjid, ht ▸ hleft.2, p, hp, hdirty⟩

/-- **Where a compile job stays clean, its input stays clean.** -/
theorem Answered.dirty_eq (ha : Answered job t t' roots) (h : first.plan.Serves r)
    (ht : t.plan = first.plan) {j : Job} (hj : j ∈ first.plan.graph.jobs) {p : Path}
    (hp : j.Compiles p) (hroot : j.id ∉ roots) :
    t'.dirty.contains p = t.dirty.contains p := by
  rcases ha.dirty p with hd | ⟨-, -, id, hid, hleft⟩
  · exact hd
  · obtain ⟨-, j', hj', rfl, hp'⟩ := compiles_of_compileOf? h ht hleft.1
    exact absurd (h.once j hj j' hj' p hp hp' ▸ hid) hroot

/-- **A success keeps the tracker in step with the jobs.** -/
theorem Attends.succeed (hb : first.Begins r) (h : Attends r first s t)
    (hs : s.Sound) (hplan : s.plan = first.plan) (hjob : job ∈ first.plan.graph.jobs)
    (hrun : s.stateOf? job.id = some .running) (ha : Answered job t t' roots)
    (hturn : s.Turned s' job.id .succeeded roots dispatched) : Attends r first s' t' := by
  -- Roots are compile jobs that the plan left out, so none of them is clean any more.
  have hcompile : ∀ id ∈ roots, ∃ j ∈ first.plan.graph.jobs, j.id = id ∧ j.isCompile = true := by
    intro id hid
    obtain ⟨-, j, hj, hjid, -, p, hp, -⟩ := ha.of_root hb.serves h.plan hid
    exact ⟨j, hj, hjid, hp.1⟩
  have hroot {id : JobId} (hc : s'.isClean id) : id ∉ roots := fun hid =>
    ((hturn.clean_iff id).1 hc).2
      (Scheduler.mem_cleanBehind_of_mem hs hid ((hturn.clean_iff id).1 hc).1)
  refine ⟨ha.plan.trans h.plan, ha.fingerprints.trans h.fingerprints,
    ha.staleJobs.trans h.staleJobs, ha.options.trans h.options, ha.commands.trans h.commands,
    ha.uniqueKeys h.uniqueKeys, fun j hj hc => ?_, fun i hi j hj hp hc => ?_,
    fun i hi j hj hp hout hc => ?_, fun hmode i hi j hj hp hc => ?_⟩
  -- A clean job was clean before, so it was left out and its input is not dirty.
  · exact h.leftOut j hj ((hturn.clean_iff j.id).1 hc).1
  · rw [ha.dirty_eq hb.serves h.plan hj hp (hroot hc)]
    exact h.clean i hi j hj hp ((hturn.clean_iff j.id).1 hc).1
  · by_cases hclean : s.isClean j.id
    · -- The job has just been revived, so it is a root.
      have hbehind : j.id ∈ s.cleanBehind roots := by
        by_contra hnot
        exact hc ((hturn.clean_iff j.id).2 ⟨hclean, hnot⟩)
      have hid := hb.serves.mem_roots_of_mem_cleanBehind hplan hcompile hj hp.1 hbehind
      obtain ⟨hmode, j', hj', hjid, -, q, hq, hdirty⟩ := ha.of_root hb.serves h.plan hid
      obtain rfl := hb.serves.wellFormed.eq_of_id_eq hj hj' hjid.symm
      rw [← OrderedMap.contains_congr _ (compare_of_leftOut hb.serves hj hmode hout hq hp)]
      exact hdirty
    · have hdirty := h.revived i hi j hj hp hout hclean
      rcases ha.dirty i.path with hd | ⟨-, hd, -⟩
      · exact hd.trans hdirty
      · exact hd
  -- The job that has ended does not compile the input of a clean one; and had its record reached
  -- that input, the clean job would be a root.
  · have hclean := ((hturn.clean_iff j.id).1 hc).1
    have hother : ∀ p ∈ job.primaries, compare p i.path ≠ .eq := by
      intro p hmem he
      obtain ⟨u, hu, rfl⟩ := List.mem_map.1 hmem
      have hcompiles : job.Compiles i.path := (hb.serves.compiles_of_mem_units hjob hu).congr he
      obtain rfl := hb.serves.once j hj job hjob i.path hp hcompiles
      rw [Scheduler.isClean, hrun] at hclean
      cases hclean
    refine (h.agrees hmode i hi j hj hp hclean).trans (ha.agrees h.uniqueKeys i.path j.id hother
      ⟨compileOf?_of_compiles hb.serves h.plan hmode hj hp, ?_⟩ ?_ (hroot hc))
    · rw [h.plan]
      exact h.leftOut j hj hclean
    · exact h.clean i hi j hj hp hclean

/-- An end that the observer does not answer keeps the tracker in step too. -/
theorem Attends.turn_nil (h : Attends r first s t) {id : JobId} {outcome : JobOutcome}
    (hturn : s.Turned s' id outcome [] dispatched) : Attends r first s' t := by
  have hclean (j : JobId) : s'.isClean j ↔ s.isClean j := by
    rw [hturn.clean_iff, Scheduler.cleanBehind_nil]
    exact and_iff_left List.not_mem_nil
  exact
    { h with
      leftOut := fun j hj hc => h.leftOut j hj ((hclean _).1 hc)
      clean := fun i hi j hj hp hc => h.clean i hi j hj hp ((hclean _).1 hc)
      revived := fun i hi j hj hp hout hc =>
        h.revived i hi j hj hp hout fun hc' => hc ((hclean _).2 hc')
      agrees := fun hmode i hi j hj hp hc => h.agrees hmode i hi j hj hp ((hclean _).1 hc) }

end Keeping

section Start

variable {ω : Type} [FileSystem ω] {env : Environment ω} {r : BuildRequest} {first : Tracker}
  {policy : FailurePolicy} {concurrency : Nat} {world : ω} {told : List (Told ω)}
  {e : Execution ω Tracker}

/-- At the beginning the tracker is in step. -/
theorem Begins.attends_start (hb : first.Begins r) {s : Scheduler}
    (hclean : ∀ id < first.plan.graph.size,
      s.isClean id ↔ (first.plan.disposition id).isScheduled = false) :
    Attends r first s first := by
  have hout (job : Job) (hjob : job ∈ first.plan.graph.jobs) :=
    hclean job.id (hb.serves.wellFormed.id_lt hjob)
  exact ⟨rfl, rfl, rfl, rfl, rfl, hb.uniqueKeys, fun job hjob hc => (hout job hjob).1 hc,
    fun i hi job hjob hp hc => hb.not_dirty hjob hp ((hout job hjob).1 hc),
    fun i hi job hjob hp hs hc => absurd ((hout job hjob).2 hs) hc,
    fun _ i _ _ _ _ _ => .refl _ i.path⟩

/-- A request to stop moves no job. -/
theorem Attends.cancel {s : Scheduler} {t : Tracker} (h : Attends r first s t) :
    Attends r first s.cancel t :=
  ⟨h.plan, h.fingerprints, h.staleJobs, h.options, h.commands, h.uniqueKeys, h.leftOut,
    h.clean, h.revived, h.agrees⟩

/-- The tracker is asked about the job that succeeded. -/
theorem answer_observer (world : ω) (t : Tracker) {g : JobGraph} {job : Job}
    (h : g.job? job.id = some job) :
    Core.answer (observer world) g t job.id .succeeded = jobSucceeded world t job := by
  unfold Core.answer
  rw [h]
  rfl

/-- **Along every course the tracker is in step with the jobs.** -/
theorem Begins.attends (hb : first.Begins r)
    (h : Course env observer (.start first.plan policy concurrency world first) told e) :
    Attends r first e.core.scheduler e.observed := by
  refine h.induction (P := fun _ s t => Attends r first s t) hb.serves.wellFormed
    (fun s _ hclean _ => hb.attends_start hclean) (fun _ _ _ _ h => h.cancel)
    fun told w s s' t id outcome dispatched h hs hplan hrun hturn => ?_
  obtain ⟨job, hjob⟩ := JobGraph.exists_job?_of_lt (hplan ▸ hs.lt_size hrun)
  obtain ⟨hmem, rfl⟩ := hb.serves.wellFormed.job?_eq_some_iff.1 hjob
  cases outcome with
  | failed kind => exact h.turn_nil hturn
  | succeeded =>
    rw [answer_observer w t hjob] at hturn ⊢
    exact h.succeed hb hs hplan hmem hrun (answered_jobSucceeded w t job) hturn

end Start

/-! ## Fingerprints -/

section Accounts

variable {ω : Type} [FileSystem ω]

/-- Whether the success of a compile job vouches for an input: where inputs are compiled
one by one, the record of the input is of it when the core learns of the success. -/
def Vouched (r : BuildRequest) (told : List (Told ω)) (job : Job) (p : Path) : Prop :=
  r.mode = .perFile → ∃ x ∈ told, x.event = .jobFinished job.id .succeeded ∧
    ∃ u ∈ job.units, compare u.primary p = .eq ∧ Reported x.world u

/-- **What ties the fingerprints to where the jobs stand.** -/
structure Accounts (r : BuildRequest) (plan : BuildPlan) (told : List (Told ω))
    (s : Scheduler) (t : Tracker) : Prop where
  /-- What was told to have succeeded has. -/
  ended : ∀ x ∈ told, ∀ id, x.event = .jobFinished id .succeeded →
    s.stateOf? id = some .succeeded
  clean : ∀ i ∈ r.inputs, ∀ job ∈ plan.graph.jobs, job.Compiles i.path →
    s.isClean job.id → t.state.inputs.get? i.path = some (some i.fingerprint)
  vouched : ∀ i ∈ r.inputs, ∀ job ∈ plan.graph.jobs, job.Compiles i.path →
    s.stateOf? job.id = some .succeeded → Vouched r told job i.path →
      t.state.inputs.get? i.path = some (some i.fingerprint)
  /-- The header can bring back the fingerprint of an input only where it is that input. -/
  unvouched : ∀ i ∈ r.inputs,
    (∀ header, r.header = some header → compare header.path i.path ≠ .eq) →
    ∀ job ∈ plan.graph.jobs, job.Compiles i.path → s.stateOf? job.id = some .succeeded →
      ¬ Vouched r told job i.path → t.state.inputs.get? i.path = some none
  header : ∀ header, r.header = some header →
    (∀ i ∈ r.inputs, compare i.path header.path ≠ .eq) →
    ∀ job ∈ plan.graph.jobs, job.kind = .precompileHeader header.path →
      s.isClean job.id ∨ s.stateOf? job.id = some .succeeded →
      t.state.inputs.get? header.path = some (some header.fingerprint)

variable {r : BuildRequest} {first t t' : Tracker} {told : List (Told ω)}
  {s s' : Scheduler} {job : Job} {roots dispatched : List JobId}

/-- The success of a job is noted for the inputs that it compiles, or for the header. -/
theorem compiles_or_header_of_mem_notedBy (h : first.plan.Serves r)
    (hjob : job ∈ first.plan.graph.jobs) {p q : Path} (hp : p ∈ notedBy job)
    (hpq : compare p q = .eq) : job.Compiles q ∨ job.kind = .precompileHeader p := by
  unfold notedBy at hp
  split at hp
  · rename_i units hk
    exact .inl ⟨Job.isCompile_of_kind_eq hk, p, hp, hpq⟩
  · rename_i units hk
    obtain ⟨u, hu, rfl⟩ := List.mem_map.1 hp
    rw [← Job.units_of_kind_eq hk] at hu
    exact .inl ((h.compiles_of_mem_units hjob hu).congr hpq)
  · rename_i path hk
    obtain rfl := List.mem_singleton.1 hp
    exact .inr hk
  · exact absurd hp List.not_mem_nil

/-- A success vouches later for what it vouched for before, and for nothing else. -/
theorem vouched_append_iff {j : Job} {p : Path} {x : Told ω}
    (hx : x.event ≠ .jobFinished j.id .succeeded) :
    Vouched r (told ++ [x]) j p ↔ Vouched r told j p := by
  refine imp_congr_right fun _ => ⟨?_, ?_⟩
  · rintro ⟨y, hy, hevent, hu⟩
    rcases List.mem_append.1 hy with hy | hy
    · exact ⟨y, hy, hevent, hu⟩
    · obtain rfl := List.mem_singleton.1 hy
      exact absurd hevent hx
  · rintro ⟨y, hy, hu⟩
    exact ⟨y, List.mem_append_left _ hy, hu⟩

/-- Where nothing was told of a success before, it vouches by what the records say now. -/
theorem vouched_concat_iff {units : List CompileUnit} (hjob : job.OneByOne units)
    (hmode : r.mode = .perFile) {world : ω} {u : CompileUnit} (hu : u ∈ units) {p : Path}
    (hp : compare u.primary p = .eq)
    (hnew : ∀ x ∈ told, x.event ≠ .jobFinished job.id .succeeded) :
    Vouched r (told ++ [⟨world, .jobFinished job.id .succeeded⟩]) job p ↔ Reported world u := by
  have hunits : job.units = units := hjob.units_eq
  constructor
  · intro h
    obtain ⟨x, hx, hevent, v, hv, hvp, hreported⟩ := h hmode
    rcases List.mem_append.1 hx with hx | hx
    · exact absurd hevent (hnew x hx)
    · obtain rfl := List.mem_singleton.1 hx
      -- The units differ in their inputs, so it is the same unit.
      have huv : compare u.primary v.primary = .eq :=
        (Std.TransCmp.congr_right hvp).trans hp
      rw [hjob.eq_of_compare hu (hunits ▸ hv) huv]
      exact hreported
  · exact fun h _ => ⟨_, List.mem_append_right _ List.mem_cons_self, rfl, u, hunits ▸ hu, hp, h⟩

section Success

variable (hb : first.Begins r) (h : Attends r first s t)
  (hfp : ∀ i ∈ r.trackedInputs, first.fingerprints.get? i.path = some i.fingerprint)
  (hjob : job ∈ first.plan.graph.jobs) (hrun : s.stateOf? job.id = some .running) (world : ω)
  (hanswer : jobSucceeded world t job = (t', roots))

include hanswer in
theorem answered_of_eq : Answered job t t' roots := by
  have := answered_jobSucceeded world t job
  rwa [hanswer] at this

include hb h hanswer in
/-- A path becomes dirty only while its compile job is clean. -/
theorem dirty_eq_of_not_clean {p : Path}
    (hp : ∀ j ∈ first.plan.graph.jobs, j.Compiles p → (∃ i ∈ r.inputs, i.path = p) ∧
      ¬ s.isClean j.id) :
    t'.dirty.contains p = t.dirty.contains p := by
  rcases (answered_of_eq world hanswer).dirty p with hd | ⟨hd, -, id, -, hleft⟩
  · exact hd
  · obtain ⟨-, j, hj, rfl, hcompiles⟩ := compiles_of_compileOf? hb.serves h.plan hleft.1
    obtain ⟨⟨i, hi, rfl⟩, hc⟩ := hp j hj hcompiles
    have := h.revived i hi j hj hcompiles (h.plan ▸ hleft.2) hc
    rw [hd] at this
    cases this

include hb h hfp hjob hanswer in
/-- **A tracked file that the job does not compile** keeps its entry, or it is the header
and has its fingerprint now. -/
theorem kept_or_header {i : InputFile} (hi : i ∈ r.trackedInputs) (hno : ¬ job.Compiles i.path)
    (hd : t'.dirty.contains i.path = t.dirty.contains i.path) :
    t'.state.inputs.get? i.path = t.state.inputs.get? i.path ∨
      (∃ header, r.header = some header ∧ compare header.path i.path = .eq) ∧
        t'.state.inputs.get? i.path = some (some i.fingerprint) := by
  by_cases hnoted : ∃ p ∈ notedBy job, compare p i.path = .eq
  · obtain ⟨p, hp, hpi⟩ := hnoted
    have hk := (compiles_or_header_of_mem_notedBy hb.serves hjob hp hpi).resolve_left hno
    obtain ⟨⟨header, hheader, rfl⟩, -⟩ := hb.serves.header job hjob p hk
    refine .inr ⟨⟨header, hheader, hpi⟩, ?_⟩
    have := get?_jobSucceeded_header world t hk hpi (by rw [h.fingerprints]; exact hfp i hi)
    rwa [hanswer] at this
  · exact .inl ((answered_of_eq world hanswer).kept i.path
      (fun p hp he => hnoted ⟨p, hp, he⟩) hd)

include hb h hfp hjob hrun hanswer in
/-- **What the success of its compile job makes of an input.** -/
theorem get?_of_compiles
    (hnew : ∀ x ∈ told, x.event ≠ .jobFinished job.id .succeeded) {i : InputFile}
    (hi : i ∈ r.inputs) (hp : job.Compiles i.path) :
    (Vouched r (told ++ [⟨world, .jobFinished job.id .succeeded⟩]) job i.path →
        t'.state.inputs.get? i.path = some (some i.fingerprint)) ∧
      (¬ Vouched r (told ++ [⟨world, .jobFinished job.id .succeeded⟩]) job i.path →
        t'.state.inputs.get? i.path = some none) := by
  have hd : t'.dirty.contains i.path = t.dirty.contains i.path :=
    dirty_eq_of_not_clean hb h world hanswer fun j hj hp' => ⟨⟨i, hi, rfl⟩, fun hc => by
      rw [← hb.serves.once job hjob j hj i.path hp hp', Scheduler.isClean, hrun] at hc
      cases hc⟩
  have hf : t.fingerprints.get? i.path = some i.fingerprint := by
    rw [h.fingerprints]
    exact hfp i (List.mem_append_left _ hi)
  cases hmode : r.mode with
  | perFile =>
    obtain ⟨units, hunits, -⟩ := hb.serves.oneByOne hmode job hjob hp.1
    obtain ⟨u, hu, hup⟩ := (hunits.compiles_iff _).1 hp
    rw [← OrderedMap.get?_congr _ hup] at hf
    have hget := get?_jobSucceeded_oneByOne world t hunits hu hf (by
      rw [hanswer, OrderedMap.contains_congr _ hup, OrderedMap.contains_congr _ hup]
      exact hd)
    rw [hanswer, OrderedMap.get?_congr _ hup] at hget
    rw [vouched_concat_iff hunits hmode hu hup hnew, hget]
    exact ⟨fun hr => by rw [if_pos hr], fun hr => by rw [if_neg hr]⟩
  | wholeModule =>
    have hget := get?_jobSucceeded_together world t
      (hb.serves.together hmode job hjob hp.1) hp.2 hf
    rw [hanswer] at hget
    exact ⟨fun _ => hget, fun hno => (hno fun hm => by cases hmode.symm.trans hm).elim⟩

end Success

/-- **A success keeps the fingerprints in step with the jobs.** -/
theorem Accounts.succeed (hb : first.Begins r) (h : Attends r first s t)
    (hfp : ∀ i ∈ r.trackedInputs, first.fingerprints.get? i.path = some i.fingerprint)
    (hacc : Accounts r first.plan told s t) (hs : s.Sound)
    (hjob : job ∈ first.plan.graph.jobs) (hrun : s.stateOf? job.id = some .running)
    (world : ω) (hanswer : jobSucceeded world t job = (t', roots))
    (hturn : s.Turned s' job.id .succeeded roots dispatched) :
    Accounts r first.plan (told ++ [⟨world, .jobFinished job.id .succeeded⟩]) s' t' := by
  have ha := answered_of_eq world hanswer
  have hnew : ∀ x ∈ told, x.event ≠ .jobFinished job.id .succeeded := fun x hx he => by
    have := hacc.ended x hx job.id he
    rw [hrun] at this
    cases this
  have hrunning : ¬ s.isClean job.id := fun hc => by
    rw [Scheduler.isClean, hrun] at hc
    cases hc
  have htracked {i : InputFile} (hi : i ∈ r.inputs) : i ∈ r.trackedInputs :=
    List.mem_append_left _ hi
  -- A job other than this one has succeeded before, and its input is not touched now.
  have hbefore {i : InputFile} (hi : i ∈ r.inputs) {j : Job} (hj : j ∈ first.plan.graph.jobs)
      (hp : j.Compiles i.path) (hne : j ≠ job) (hsucc : s'.stateOf? j.id = some .succeeded) :
      s.stateOf? j.id = some .succeeded ∧ j.id ≠ job.id ∧ ¬ job.Compiles i.path ∧
        t'.dirty.contains i.path = t.dirty.contains i.path := by
    have hid : j.id ≠ job.id := fun he => hne (hb.serves.wellFormed.eq_of_id_eq hj hjob he)
    have hsucc := (hturn.succeeded_iff j.id hid).1 hsucc
    refine ⟨hsucc, hid, fun hp' => hne (hb.serves.once j hj job hjob i.path hp hp'), ?_⟩
    refine dirty_eq_of_not_clean hb h world hanswer fun j' hj' hp' => ⟨⟨i, hi, rfl⟩, fun hc => ?_⟩
    rw [← hb.serves.once j hj j' hj' i.path hp hp', Scheduler.isClean, hsucc] at hc
    cases hc
  refine ⟨fun x hx id he => ?_, fun i hi j hj hp hc => ?_, fun i hi j hj hp hsucc hv => ?_,
    fun i hi hsep j hj hp hsucc hv => ?_, fun header hheader hno j hj hk hstand => ?_⟩
  · by_cases hid : id = job.id
    · rw [hid]
      exact hturn.ended
    · refine (hturn.succeeded_iff id hid).2 ?_
      rcases List.mem_append.1 hx with hx | hx
      · exact hacc.ended x hx id he
      · obtain rfl := List.mem_singleton.1 hx
        have : job.id = id := by simpa using he
        exact absurd this.symm hid
  · obtain ⟨hclean, hbehind⟩ := (hturn.clean_iff j.id).1 hc
    have hroot : j.id ∉ roots := fun hid =>
      hbehind (Scheduler.mem_cleanBehind_of_mem hs hid hclean)
    have hother : ¬ job.Compiles i.path := fun hp' =>
      hrunning (hb.serves.once j hj job hjob i.path hp hp' ▸ hclean)
    rcases kept_or_header hb h hfp hjob world hanswer (htracked hi) hother
      (ha.dirty_eq hb.serves h.plan hj hp hroot) with hkept | ⟨-, hright⟩
    · exact hkept.trans (hacc.clean i hi j hj hp hclean)
    · exact hright
  · by_cases hne : j = job
    · subst hne
      exact (get?_of_compiles hb h hfp hjob hrun world hanswer hnew hi hp).1 hv
    · obtain ⟨hsucc, hid, hother, hd⟩ := hbefore hi hj hp hne hsucc
      rw [vouched_append_iff fun he => hid (by simpa using he.symm)] at hv
      rcases kept_or_header hb h hfp hjob world hanswer (htracked hi) hother hd with
        hkept | ⟨-, hright⟩
      · exact hkept.trans (hacc.vouched i hi j hj hp hsucc hv)
      · exact hright
  · by_cases hne : j = job
    · subst hne
      exact (get?_of_compiles hb h hfp hjob hrun world hanswer hnew hi hp).2 hv
    · obtain ⟨hsucc, hid, hother, hd⟩ := hbefore hi hj hp hne hsucc
      rw [vouched_append_iff fun he => hid (by simpa using he.symm)] at hv
      rcases kept_or_header hb h hfp hjob world hanswer (htracked hi) hother hd with
        hkept | ⟨⟨header, hheader, he⟩, -⟩
      · exact hkept.trans (hacc.unvouched i hi hsep j hj hp hsucc hv)
      · exact absurd he (hsep header hheader)
  · have hi : header ∈ r.trackedInputs := List.mem_append_right _ (Option.mem_toList.2 hheader)
    have hcompiled {j' : Job} (hj' : j' ∈ first.plan.graph.jobs) : ¬ j'.Compiles header.path :=
      fun hp => by
        obtain ⟨i, hi, he⟩ := hb.serves.sources j' hj' _ hp
        exact hno i hi he
    by_cases hne : j = job
    · subst hne
      have := get?_jobSucceeded_header world t hk Std.ReflOrd.compare_self
        (by rw [h.fingerprints]; exact hfp header hi)
      rwa [hanswer] at this
    · have hid : j.id ≠ job.id := fun he => hne (hb.serves.wellFormed.eq_of_id_eq hj hjob he)
      rcases kept_or_header hb h hfp hjob world hanswer hi (hcompiled hjob)
        (dirty_eq_of_not_clean hb h world hanswer fun j' hj' hp => (hcompiled hj' hp).elim) with
        hkept | ⟨-, hright⟩
      · refine hkept.trans (hacc.header header hheader hno j hj hk ?_)
        exact hstand.imp (fun hc => ((hturn.clean_iff j.id).1 hc).1)
          (hturn.succeeded_iff j.id hid).1
      · exact hright

/-- What is told besides successes leaves the fingerprints in step. -/
theorem Accounts.append (hacc : Accounts r first.plan told s t) {x : Told ω}
    (hx : ∀ id, x.event ≠ .jobFinished id .succeeded) (hclean : ∀ j, s'.isClean j ↔ s.isClean j)
    (hsucc : ∀ j, s'.stateOf? j = some .succeeded ↔ s.stateOf? j = some .succeeded) :
    Accounts r first.plan (told ++ [x]) s' t where
  ended y hy id he := by
    rcases List.mem_append.1 hy with hy | hy
    · exact (hsucc id).2 (hacc.ended y hy id he)
    · obtain rfl := List.mem_singleton.1 hy
      exact absurd he (hx id)
  clean i hi job hjob hp hc := hacc.clean i hi job hjob hp ((hclean _).1 hc)
  vouched i hi job hjob hp hs hv :=
    hacc.vouched i hi job hjob hp ((hsucc _).1 hs) ((vouched_append_iff (hx job.id)).1 hv)
  unvouched i hi hsep job hjob hp hs hv :=
    hacc.unvouched i hi hsep job hjob hp ((hsucc _).1 hs)
      fun h => hv ((vouched_append_iff (hx job.id)).2 h)
  header i hi hno job hjob hk hstand :=
    hacc.header i hi hno job hjob hk (hstand.imp (hclean _).1 (hsucc _).1)

variable {env : Environment ω} {policy : FailurePolicy} {concurrency : Nat} {world : ω}
  {e : Execution ω Tracker}

/-- **Along every course the fingerprints are in step with the jobs.** -/
theorem Begins.accounts (hb : first.Begins r)
    (hfp : ∀ i ∈ r.trackedInputs, first.fingerprints.get? i.path = some i.fingerprint)
    (h : Course env observer (.start first.plan policy concurrency world first) told e) :
    Accounts r first.plan told e.core.scheduler e.observed := by
  refine (h.induction
    (P := fun told s t => Attends r first s t ∧ Accounts r first.plan told s t)
    hb.serves.wellFormed (fun s _ hclean hsucc => ⟨hb.attends_start hclean, ?_⟩)
    (fun told w s t h => ⟨h.1.cancel, ?_⟩)
    fun told w s s' t id outcome dispatched h hs hplan hrun hturn => ?_).2
  · have hout {job : Job} (hjob : job ∈ first.plan.graph.jobs) (hc : s.isClean job.id) :=
      (hclean job.id (hb.serves.wellFormed.id_lt hjob)).1 hc
    refine ⟨fun x hx => absurd hx List.not_mem_nil, fun i hi job hjob hp hc => ?_,
      fun i hi job hjob hp hs => absurd hs (hsucc job.id),
      fun i hi _ job hjob hp hs => absurd hs (hsucc job.id),
      fun header hheader hno job hjob hk hstand => ?_⟩
    · rw [hb.entry i (List.mem_append_left _ hi), hb.not_dirty hjob hp (hout hjob hc)]
      rfl
    · obtain ⟨-, a, ha, hap⟩ := hb.serves.header job hjob _ hk
      rw [hb.entry header (List.mem_append_right _ (Option.mem_toList.2 hheader)), ← hap,
        hb.clean job hjob (hout hjob (hstand.resolve_right (hsucc job.id))) a ha]
      rfl
  · exact h.2.append (fun id he => by cases he) (fun _ => .rfl) fun _ => .rfl
  · obtain ⟨job, hjob⟩ := JobGraph.exists_job?_of_lt (hplan ▸ hs.lt_size hrun)
    obtain ⟨hmem, rfl⟩ := hb.serves.wellFormed.job?_eq_some_iff.1 hjob
    cases outcome with
    | failed kind =>
      have hclean (j : JobId) : s'.isClean j ↔ s.isClean j := by
        rw [hturn.clean_iff]
        exact and_iff_left (by simp [Core.answer])
      refine ⟨h.1.turn_nil hturn, h.2.append (fun id he => by cases he) hclean fun j => ?_⟩
      by_cases hj : j = job.id
      · subst hj
        rw [hturn.ended, hrun]
        exact iff_of_false (fun he => by cases he) fun he => by cases he
      · exact hturn.succeeded_iff j hj
    | succeeded =>
      rw [answer_observer w t hjob] at hturn ⊢
      exact ⟨h.1.succeed hb hs hplan hmem hrun (answered_jobSucceeded w t job) hturn,
        h.2.succeed hb h.1 hfp hs hmem hrun w rfl hturn⟩

end Accounts

end Tracker

end IncrementalBuild
