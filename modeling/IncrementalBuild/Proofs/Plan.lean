import IncrementalBuild.Plan
import IncrementalBuild.Request
import IncrementalBuild.Proofs.Scheduler

/-!
# What a plan does for a request

Carrying a plan out relies on a few facts about its jobs: every input is compiled by
one job, the jobs that compile wait only for what is prepared before anything is
compiled, and a compile job that is left out of the plan stands for one input. A plan
of which this is true *serves* the request.
-/

namespace IncrementalBuild

/-- A path that compares equal is the same path in another spelling. -/
theorem Path.beq_iff_compare {p q : Path} : (p == q) = true ↔ compare p q = .eq :=
  Path.beq_iff.trans Path.compare_eq_iff.symm

/-- Elements that differ pairwise in what is compared are the same where it is equal. -/
theorem eq_of_pairwise_compare {α κ : Type} [Ord κ] [Std.OrientedOrd κ] {f : α → κ} {l : List α}
    (h : l.Pairwise fun a b => compare (f a) (f b) ≠ .eq) {a b : α} (ha : a ∈ l) (hb : b ∈ l)
    (hab : compare (f a) (f b) = .eq) : a = b := by
  obtain ⟨i, hi, rfl⟩ := List.getElem_of_mem ha
  obtain ⟨j, hj, rfl⟩ := List.getElem_of_mem hb
  have hdistinct := List.pairwise_iff_getElem.1 h
  rcases Nat.lt_trichotomy i j with hij | rfl | hij
  · exact absurd hab (hdistinct i j hi hj hij)
  · rfl
  · exact absurd (Std.OrientedCmp.eq_symm hab) (hdistinct j i hj hi hij)

namespace Job

/-- Whether a job compiles an input, alone or together with others. -/
def Compiles (job : Job) (p : Path) : Prop :=
  job.isCompile = true ∧ ∃ q ∈ job.sourceInputs, compare q p = .eq

theorem mem_sourceInputs {job : Job} {q : Path} :
    q ∈ job.sourceInputs ↔ ∃ a ∈ job.inputs, a.fileType = .source ∧ a.path = q := by
  unfold sourceInputs
  rw [List.mem_map]
  simp only [List.mem_filter, beq_iff_eq, and_assoc]

/-- Whether a job is done before anything is compiled. -/
def Prepares (job : Job) : Prop :=
  match job.kind with
  | .precompileHeader _ => True
  | .buildModule _ => True
  | _ => False

theorem not_isCompile_of_prepares {job : Job} (h : job.Prepares) : job.isCompile = false := by
  unfold Prepares at h
  unfold isCompile
  split at h <;> simp_all

theorem units_of_kind_eq {job : Job} {units : List CompileUnit} {together : Bool}
    (h : job.kind = .compile units together) : job.units = units := by
  unfold Job.units
  rw [h]

theorem isCompile_of_kind_eq {job : Job} {units : List CompileUnit} {together : Bool}
    (h : job.kind = .compile units together) : job.isCompile = true := by
  unfold isCompile
  rw [h]

/-- Only what compiles has units. -/
theorem isCompile_of_mem_units {job : Job} {u : CompileUnit} (h : u ∈ job.units) :
    job.isCompile = true := by
  unfold units at h
  unfold isCompile
  split at h
  · rfl
  · exact absurd h List.not_mem_nil

theorem Compiles.congr {job : Job} {p q : Path} (h : job.Compiles p) (hpq : compare p q = .eq) :
    job.Compiles q := by
  obtain ⟨hc, s, hs, hsp⟩ := h
  exact ⟨hc, s, hs, (Std.TransCmp.congr_right hpq).symm.trans hsp⟩

end Job

/-- What a job compiles that compiles the inputs one by one. -/
structure Job.OneByOne (job : Job) (units : List CompileUnit) : Prop where
  kind_eq : job.kind = .compile units false
  /-- The inputs differ. -/
  distinct : units.Pairwise fun u v => compare u.primary v.primary ≠ .eq
  compiles_iff : ∀ p, job.Compiles p ↔ ∃ u ∈ units, compare u.primary p = .eq

/-- Units that compile the same input are the same. -/
theorem Job.OneByOne.eq_of_compare {job : Job} {units : List CompileUnit}
    (h : job.OneByOne units) {u v : CompileUnit} (hu : u ∈ units) (hv : v ∈ units)
    (huv : compare u.primary v.primary = .eq) : u = v :=
  eq_of_pairwise_compare h.distinct hu hv huv

/-- What a job compiles one by one are its units. -/
theorem Job.OneByOne.units_eq {job : Job} {units : List CompileUnit} (h : job.OneByOne units) :
    job.units = units :=
  units_of_kind_eq h.kind_eq

/-- **Whether a plan serves a request.** -/
structure BuildPlan.Serves (plan : BuildPlan) (r : BuildRequest) : Prop where
  wellFormed : plan.graph.WellFormed
  /-- What compiles, and what is done before, waits only for what is done before. -/
  prepared : ∀ job ∈ plan.graph.jobs, job.isCompile = true ∨ job.Prepares →
    ∀ p ∈ job.prerequisites.toList, ∃ before, plan.graph.job? p = some before ∧ before.Prepares
  compiled : ∀ i ∈ r.inputs, ∃ job ∈ plan.graph.jobs, job.Compiles i.path
  /-- No input is compiled twice. -/
  once : ∀ job ∈ plan.graph.jobs, ∀ other ∈ plan.graph.jobs, ∀ p,
    job.Compiles p → other.Compiles p → job = other
  oneByOne : r.mode = .perFile → ∀ job ∈ plan.graph.jobs, job.isCompile = true →
    ∃ units, job.OneByOne units ∧
      (∀ u ∈ units, ∃ i ∈ r.inputs, i.path = u.primary) ∧
      ((plan.disposition job.id).isScheduled = false → ∃ u, units = [u])
  together : r.mode = .wholeModule → ∀ job ∈ plan.graph.jobs, job.isCompile = true →
    job.kind = .compile [] true
  /-- Nothing but inputs is compiled. -/
  sources : ∀ job ∈ plan.graph.jobs, ∀ p, job.Compiles p → ∃ i ∈ r.inputs, compare i.path p = .eq
  header : ∀ job ∈ plan.graph.jobs, ∀ p, job.kind = .precompileHeader p →
    (∃ i, r.header = some i ∧ i.path = p) ∧ ∃ a ∈ job.inputs, a.path = p
  headed : ∀ i, r.header = some i →
    ∃ job ∈ plan.graph.jobs, job.kind = .precompileHeader i.path

namespace BuildPlan.Serves

variable {plan : BuildPlan} {r : BuildRequest}

/-- Where inputs are compiled one by one, what a job compiles are its units. -/
theorem oneByOne_units (h : plan.Serves r) (hmode : r.mode = .perFile) {job : Job}
    (hjob : job ∈ plan.graph.jobs) (hc : job.isCompile = true) :
    job.OneByOne job.units ∧ (∀ u ∈ job.units, ∃ i ∈ r.inputs, i.path = u.primary) ∧
      ((plan.disposition job.id).isScheduled = false → ∃ u, job.units = [u]) := by
  obtain ⟨units, hunits, hof⟩ := h.oneByOne hmode job hjob hc
  rw [hunits.units_eq]
  exact ⟨hunits, hof⟩

/-- Only where inputs are compiled one by one is an input a unit of a job. -/
theorem oneByOne_of_mem_units (h : plan.Serves r) {job : Job} (hjob : job ∈ plan.graph.jobs)
    {u : CompileUnit} (hu : u ∈ job.units) :
    r.mode = .perFile ∧ job.OneByOne job.units ∧
      ∀ v ∈ job.units, ∃ i ∈ r.inputs, i.path = v.primary := by
  have hc : job.isCompile = true := Job.isCompile_of_mem_units hu
  cases hmode : r.mode with
  | perFile =>
    obtain ⟨hunits, hof, -⟩ := h.oneByOne_units hmode hjob hc
    exact ⟨rfl, hunits, hof⟩
  | wholeModule =>
    rw [Job.units_of_kind_eq (h.together hmode job hjob hc)] at hu
    exact absurd hu List.not_mem_nil

/-- What is compiled by itself is an input. -/
theorem exists_input_of_mem_units (h : plan.Serves r) {job : Job} (hjob : job ∈ plan.graph.jobs)
    {u : CompileUnit} (hu : u ∈ job.units) : ∃ i ∈ r.inputs, i.path = u.primary :=
  (h.oneByOne_of_mem_units hjob hu).2.2 u hu

/-- A job compiles its units. -/
theorem compiles_of_mem_units (h : plan.Serves r) {job : Job} (hjob : job ∈ plan.graph.jobs)
    {u : CompileUnit} (hu : u ∈ job.units) : job.Compiles u.primary :=
  ((h.oneByOne_of_mem_units hjob hu).2.1.compiles_iff _).2 ⟨u, hu, Std.ReflOrd.compare_self⟩

/-- Every input that is compiled by itself has a unit. -/
theorem exists_unit (h : plan.Serves r)
    (hmode : r.mode = .perFile) {job : Job} (hjob : job ∈ plan.graph.jobs) {p : Path}
    (hp : job.Compiles p) : ∃ u ∈ job.units, compare u.primary p = .eq :=
  ((h.oneByOne_units hmode hjob hp.1).1.compiles_iff p).1 hp

/-- **Units of one input are one unit**, of one job. -/
theorem unit_unique (h : plan.Serves r) {job other : Job} (hjob : job ∈ plan.graph.jobs)
    (hother : other ∈ plan.graph.jobs) {u v : CompileUnit} (hu : u ∈ job.units)
    (hv : v ∈ other.units) (huv : compare u.primary v.primary = .eq) : job = other ∧ u = v := by
  obtain rfl := h.once job hjob other hother v.primary
    ((h.compiles_of_mem_units hjob hu).congr huv) (h.compiles_of_mem_units hother hv)
  exact ⟨rfl, (h.oneByOne_of_mem_units hjob hu).2.1.eq_of_compare hu hv huv⟩

/-- **A compile job is revived only where it is a root**: whatever it waits for was
prepared before, and nothing of that follows a compile job. -/
theorem mem_roots_of_mem_cleanBehind (h : plan.Serves r) {s : Scheduler} (hs : s.plan = plan)
    {roots : List JobId}
    (hroots : ∀ id ∈ roots, ∃ job ∈ plan.graph.jobs, job.id = id ∧ job.isCompile = true)
    {job : Job} (hjob : job ∈ plan.graph.jobs) (hc : job.isCompile = true)
    (hmem : job.id ∈ s.cleanBehind roots) : job.id ∈ roots := by
  have key : ∀ a ∈ s.cleanBehind roots,
      a ∈ roots ∨ ∀ j ∈ plan.graph.jobs, j.id = a → ¬ (j.isCompile = true ∨ j.Prepares) := by
    refine reachable_induction (fun a ha => .inl ha) fun a b ha hb => .inr ?_
    rw [hs] at hb
    intro j hj hjb hkind
    obtain ⟨j', hj', hjb', hp⟩ := JobGraph.mem_dependentsOf.1 hb
    obtain rfl := h.wellFormed.eq_of_id_eq hj hj' (hjb.trans hjb'.symm)
    obtain ⟨before, hbefore, hprepares⟩ := h.prepared j hj hkind a hp
    obtain ⟨hmem, hid⟩ := h.wellFormed.job?_eq_some_iff.1 hbefore
    rcases ha with ha | ha
    · obtain ⟨root, hroot, hrid, hrc⟩ := hroots a ha
      obtain rfl := h.wellFormed.eq_of_id_eq hroot hmem (hrid.trans hid.symm)
      rw [Job.not_isCompile_of_prepares hprepares] at hrc
      cases hrc
    · exact ha before hmem hid (.inr hprepares)
  exact (key job.id hmem).resolve_right fun hno => hno job hjob rfl (.inl hc)

end BuildPlan.Serves

end IncrementalBuild
