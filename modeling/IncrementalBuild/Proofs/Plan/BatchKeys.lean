import IncrementalBuild.Proofs.Plan.Requested
import IncrementalBuild.Proofs.Plan.Stages
import IncrementalBuild.Proofs.Soundness
import Mathlib.Data.List.MinMax
import Mathlib.Order.Nat

/-!
# When batches can be formed

The jobs that a plan keeps once its batches are formed stand at their places, wait for jobs of
the new plan, and wait in no circle, whatever the batches are. A circle would be a worry,
because several batches may wait for one another's members. But the members of a batch wait
for the same jobs, so what a job waits for gives it a rank that the members of a batch share:
one more than the highest rank among its prerequisites in the plan without batches.

That leaves the keys. A batch is named after its first and its last input, with two dots
between them, and the name does not tell where the first path ends. Two batches may get the
same name, and then the plan is refused, with that name as the key that is there twice. No
other job of a request has such a key, so this is all that can go wrong; and it does not happen
where no input has two dots in a row in its path or a dot at its start.
-/

namespace IncrementalBuild

/-! ## The plan with batches is arranged -/

/-- One more than the highest rank among some jobs. -/
def rankAbove (rank : JobId → Nat) (prerequisites : OrderedSet JobId) : Nat :=
  (prerequisites.toList.map fun q => rank q + 1).foldr max 0

theorem lt_rankAbove (rank : JobId → Nat) {prerequisites : OrderedSet JobId} {q : JobId}
    (hq : q ∈ prerequisites.toList) : rank q < rankAbove rank prerequisites :=
  List.le_max_of_le' 0 (List.mem_map_of_mem hq) (Nat.le_refl (rank q + 1))

theorem rankAbove_le {rank : JobId → Nat} {prerequisites : OrderedSet JobId} {n : Nat}
    (h : ∀ q ∈ prerequisites.toList, rank q < n) : rankAbove rank prerequisites ≤ n := by
  refine List.max_le_of_forall_le (α := Nat) _ n fun m hm => ?_
  obtain ⟨q, hq, rfl⟩ := List.mem_map.1 hm
  exact h q hq

namespace BuildPlan

variable {p : BuildPlan} {batches : List (List Job)}

/-- A job waits for the same jobs as its leader. -/
theorem Runs.prerequisites_leader (hr : p.Runs batches) (hg : p.graph.WellFormed) {job lead : Job}
    (hjob : job ∈ p.graph.jobs) (hlead : lead ∈ p.graph.jobs)
    (hid : lead.id = leader batches job.id) : lead.prerequisites = job.prerequisites := by
  unfold leader at hid
  cases hb : batchOf? batches job.id with
  | none =>
    rw [hb] at hid
    rw [hg.eq_of_id_eq hlead hjob hid]
  | some run =>
    rw [hb] at hid
    obtain ⟨hrun, m, hm, hmid⟩ := mem_of_batchOf? hb
    obtain rfl := hg.eq_of_id_eq (hr.candidates run hrun m hm).1 hjob hmid
    cases run with
    | nil => exact absurd hm List.not_mem_nil
    | cons first rest =>
      obtain rfl := hg.eq_of_id_eq hlead (hr.candidates _ hrun first List.mem_cons_self).1 hid
      exact congrArg BatchKey.prerequisites (hr.alike _ hrun lead List.mem_cons_self m hm)

/-- A job that keeps a place stands at its new number. -/
theorem Runs.getElem?_newId_of_kept (hr : p.Runs batches) (hg : p.graph.WellFormed) {job : Job}
    (hjob : job ∈ p.kept batches) : (p.kept batches)[p.newId batches job.id]? = some job := by
  obtain ⟨hmem, hself⟩ := List.mem_filter.1 hjob
  obtain ⟨lead, hget, hid⟩ := hr.getElem?_newId hg hmem
  have hlead := (List.mem_filter.1 (List.mem_of_getElem? hget)).1
  rw [hget, hg.eq_of_id_eq hlead hmem (hid.trans (eq_of_beq hself))]

/-- **The jobs that keep a place make an arranged graph**, whatever is merged. What a job waits
for gives it a rank, and it is the same rank for all members of a batch. -/
theorem Runs.arranged (hr : p.Runs batches) (hg : p.graph.WellFormed) :
    JobGraph.Arranged ⟨(p.kept batches).map (p.renumbered batches)⟩ := by
  have hnodup : (p.kept batches).Nodup := (nodup_jobs hg).filter _
  obtain ⟨rank, hrank⟩ := hg.ranked
  let placeRank (id : JobId) : Nat :=
    ((p.kept batches)[id]?.map fun job => rankAbove rank job.prerequisites).getD 0
  have hplaceRank {id : JobId} {job : Job} (h : (p.kept batches)[id]? = some job) :
      placeRank id = rankAbove rank job.prerequisites := by
    show ((p.kept batches)[id]?.map _).getD 0 = _
    rw [h]
    rfl
  -- Every job that is kept has its place for its number.
  refine ⟨fun i job' hjob' => ?_, placeRank, ?_⟩
  · have hjob' : ((p.kept batches).map (p.renumbered batches))[i]? = some job' := hjob'
    rw [List.getElem?_map, Option.map_eq_some_iff] at hjob'
    obtain ⟨job, hjob, rfl⟩ := hjob'
    show p.newId batches job.id = i
    have hplace := hr.getElem?_newId_of_kept hg (List.mem_of_getElem? hjob)
    obtain ⟨hi, -⟩ := List.getElem?_eq_some_iff.1 hjob
    exact ((List.getElem?_inj hi hnodup).1 (hjob.trans hplace.symm)).symm
  -- A prerequisite has the place of its batch, and the first member of that waits for what all
  -- members wait for.
  · intro job' hjob' q hq
    obtain ⟨job, hjob, rfl⟩ := List.mem_map.1 hjob'
    obtain ⟨a, ha, rfl⟩ := List.mem_map.1 (OrderedSet.mem_toList_ofList.1 hq)
    have hmem := (List.mem_filter.1 hjob).1
    obtain ⟨hsize, hless⟩ := hrank job hmem a ha
    obtain ⟨before, hbefore⟩ := JobGraph.exists_job?_of_lt hsize
    obtain ⟨hbeforeMem, rfl⟩ := hg.job?_eq_some_iff.1 hbefore
    obtain ⟨lead, hget, hid⟩ := hr.getElem?_newId hg hbeforeMem
    have hlead := (List.mem_filter.1 (List.mem_of_getElem? hget)).1
    constructor
    · show _ < ((p.kept batches).map (p.renumbered batches)).length
      rw [List.length_map]
      exact (List.getElem?_eq_some_iff.1 hget).1
    · calc placeRank (p.newId batches before.id)
          = rankAbove rank lead.prerequisites := hplaceRank hget
        _ = rankAbove rank before.prerequisites := by
          rw [hr.prerequisites_leader hg hbeforeMem hlead hid]
        _ ≤ rank before.id := rankAbove_le fun c hc => (hrank before hbeforeMem c hc).2
        _ < rankAbove rank job.prerequisites := lt_rankAbove rank ha
        _ = placeRank (p.newId batches job.id) :=
          (hplaceRank (hr.getElem?_newId_of_kept hg hjob)).symm

/-! ## The keys of batches -/

/-- The key of the job that some jobs are merged into. -/
def batchName : List Job → JobKey
  | [] => default
  | first :: rest => (first.merged rest).key

/-- The batches that are formed for a batch size; none where it is missing or does not let two
jobs together. -/
def batchesOf (p : BuildPlan) (size : Option Nat) : List (List Job) :=
  match size with
  | some n => if n > 1 then p.batches n else []
  | none => []

/-- **Whether no two batches have the same name.** -/
def NamesApart (p : BuildPlan) (size : Option Nat) : Prop :=
  ∀ run ∈ p.batchesOf size, ∀ other ∈ p.batchesOf size, batchName run = batchName other →
    run = other

theorem runs_batchesOf (hg : p.graph.WellFormed) (size : Option Nat) :
    p.Runs (p.batchesOf size) := by
  cases size with
  | none => exact runs_nil
  | some n =>
    show p.Runs (if n > 1 then p.batches n else [])
    split
    · exact runs_batches hg n
    · exact runs_nil

/-- **A batch is named after two inputs of its members**, the first one that of its leader. -/
theorem Runs.exists_batchName (hr : p.Runs batches) {run : List Job} (hrun : run ∈ batches) :
    ∃ first ∈ run, ∃ last ∈ run, ∃ u v, first.kind = .compile [u] false ∧
      last.kind = .compile [v] false ∧ batchName run = .batch u.primary v.primary := by
  have hkind {job : Job} (hjob : job ∈ run) : ∃ u, job.kind = .compile [u] false :=
    (isCandidate_iff.1 (hr.candidates run hrun job hjob).2).2
  obtain ⟨first, rest, rfl⟩ := List.exists_cons_of_length_pos
    (Nat.lt_of_succ_lt (hr.several run hrun))
  obtain ⟨u, hu⟩ := hkind List.mem_cons_self
  have hall : (first :: rest).flatMap Job.units = u :: rest.flatMap Job.units := by
    rw [List.flatMap_cons, Job.units_of_kind_eq hu]
    rfl
  have hnil : u :: rest.flatMap Job.units ≠ [] := List.cons_ne_nil _ _
  obtain ⟨last, hlast, hend⟩ : ∃ last ∈ first :: rest,
      (u :: rest.flatMap Job.units).getLast hnil ∈ last.units := by
    rw [← List.mem_flatMap, hall]
    exact List.getLast_mem hnil
  obtain ⟨v, hv⟩ := hkind hlast
  rw [Job.units_of_kind_eq hv, List.mem_singleton] at hend
  refine ⟨first, List.mem_cons_self, last, hlast, u, v, hu, hv, ?_⟩
  unfold batchName Job.merged
  simp only [hall, List.head?_cons, List.getLast?_eq_some_getLast hnil, hend]

/-- A job of no batch keeps its key. -/
theorem key_renumbered_of_none {job : Job} (h : batchOf? batches job.id = none) :
    (p.renumbered batches job).key = job.key := by
  unfold renumbered
  rw [h]

/-- The leader of a batch gets its name. -/
theorem Runs.key_renumbered (hr : p.Runs batches) {job : Job} {run : List Job}
    (h : batchOf? batches job.id = some run) :
    (p.renumbered batches job).key = batchName run := by
  obtain ⟨first, rest, rfl⟩ := List.exists_cons_of_length_pos
    (Nat.lt_of_succ_lt (hr.several run (mem_of_batchOf? h).1))
  unfold renumbered
  rw [h]
  rfl

/-- The first job of a batch keeps a place. -/
theorem Runs.mem_kept (hr : p.Runs batches) (hg : p.graph.WellFormed) {first : Job}
    {rest : List Job} (hrun : first :: rest ∈ batches) : first ∈ p.kept batches := by
  exact List.mem_filter.2 ⟨(hr.candidates _ hrun first List.mem_cons_self).1,
    beq_iff_eq.2 (hr.leader_eq hg hrun List.mem_cons_self)⟩

/-- **Where two kept jobs get the same key, it is the name of two batches.** -/
theorem Runs.exists_clash (hr : p.Runs batches) (hg : p.graph.WellFormed)
    (hkeys : ∀ job ∈ p.graph.jobs, ∀ first last, job.key ≠ .batch first last)
    {job other : Job} (hjob : job ∈ p.kept batches) (hother : other ∈ p.kept batches)
    (hne : job ≠ other)
    (h : (p.renumbered batches job).key = (p.renumbered batches other).key) :
    ∃ run ∈ batches, ∃ run' ∈ batches, run ≠ run' ∧ batchName run = batchName run' ∧
      (p.renumbered batches job).key = batchName run := by
  obtain ⟨hmem, hself⟩ := List.mem_filter.1 hjob
  obtain ⟨hmem', hself'⟩ := List.mem_filter.1 hother
  cases hb : batchOf? batches job.id with
  | none =>
    rw [key_renumbered_of_none hb] at h
    cases hb' : batchOf? batches other.id with
    | none =>
      rw [key_renumbered_of_none hb'] at h
      exact absurd (hg.eq_of_key_eq hmem hmem' h) hne
    | some run' =>
      obtain ⟨-, -, -, -, u, v, -, -, hname⟩ := hr.exists_batchName (mem_of_batchOf? hb').1
      rw [hr.key_renumbered hb', hname] at h
      exact absurd h (hkeys job hmem _ _)
  | some run =>
    have hrun := (mem_of_batchOf? hb).1
    rw [hr.key_renumbered hb] at h ⊢
    cases hb' : batchOf? batches other.id with
    | none =>
      obtain ⟨-, -, -, -, u, v, -, -, hname⟩ := hr.exists_batchName hrun
      rw [key_renumbered_of_none hb', hname] at h
      exact absurd h.symm (hkeys other hmem' _ _)
    | some run' =>
      rw [hr.key_renumbered hb'] at h
      refine ⟨run, hrun, run', (mem_of_batchOf? hb').1, ?_, h, rfl⟩
      -- Two jobs that keep a place do not have the same leader.
      rintro rfl
      obtain ⟨first, rest, rfl⟩ := List.exists_cons_of_length_pos
        (Nat.lt_of_succ_lt (hr.several run hrun))
      have hleader : leader batches job.id = leader batches other.id := by
        unfold leader
        rw [hb, hb']
      exact hne (hg.eq_of_id_eq hmem hmem'
        ((eq_of_beq hself).symm.trans (hleader.trans (eq_of_beq hself'))))

/-- **Batches of a plan that was accepted have names of their own.** -/
theorem Runs.eq_of_batchName_eq (hr : p.Runs batches) (hg : p.graph.WellFormed)
    (hgraph : JobGraph.WellFormed ⟨(p.kept batches).map (p.renumbered batches)⟩)
    {run other : List Job} (hrun : run ∈ batches) (hother : other ∈ batches)
    (h : batchName run = batchName other) : run = other := by
  obtain ⟨first, rest, rfl⟩ := List.exists_cons_of_length_pos
    (Nat.lt_of_succ_lt (hr.several run hrun))
  obtain ⟨first', rest', rfl⟩ := List.exists_cons_of_length_pos
    (Nat.lt_of_succ_lt (hr.several other hother))
  have hkey : (p.renumbered batches first).key = (p.renumbered batches first').key := by
    rw [hr.key_renumbered (hr.batchOf?_eq hg hrun List.mem_cons_self), h,
      hr.key_renumbered (hr.batchOf?_eq hg hother List.mem_cons_self)]
  have hnodup := hgraph.nodup_keys
  rw [List.map_map] at hnodup
  have hfirst : first = first' :=
    List.inj_on_of_nodup_map hnodup (hr.mem_kept hg hrun) (hr.mem_kept hg hother) hkey
  exact hr.eq_of_id_eq hg hrun hother List.mem_cons_self List.mem_cons_self
    (congrArg Job.id hfirst)

/-! ## Forming batches -/

section Partition

variable {size : Option Nat}

theorem partition_of_nil (h : p.batchesOf size = []) : p.partition size = .ok p := by
  show (if (p.batchesOf size).isEmpty then _ else _) = _
  rw [if_pos (List.isEmpty_iff.2 h)]

theorem exists_partition_of_ofJobs (h : p.batchesOf size ≠ []) {g : JobGraph}
    (hg : JobGraph.ofJobs ((p.kept (p.batchesOf size)).map (p.renumbered (p.batchesOf size)))
      = .ok g) : ∃ p', p.partition size = .ok p' := by
  cases hp : p.partition size with
  | ok p' => exact ⟨p', rfl⟩
  | error e =>
    have hp := (if_neg (mt List.isEmpty_iff.1 h)).symm.trans hp
    split at hp
    · rename_i e' he
      exact nomatch hg.symm.trans he
    · exact nomatch hp

theorem partition_eq_error (h : p.batchesOf size ≠ []) {e : PlanningError}
    (hg : JobGraph.ofJobs ((p.kept (p.batchesOf size)).map (p.renumbered (p.batchesOf size)))
      = .error e) : p.partition size = .error e := by
  refine (if_neg (mt List.isEmpty_iff.1 h)).trans ?_
  split
  · rename_i e' he
    rw [Except.error.inj (hg.symm.trans he)]
  · rename_i graph hgraph
    exact nomatch hg.symm.trans hgraph

/-- **Forming batches fails only where two of them have the same name**, in a plan no job of
which has the key of a batch. -/
theorem partition_cases (hg : p.graph.WellFormed)
    (hkeys : ∀ job ∈ p.graph.jobs, ∀ first last, job.key ≠ .batch first last)
    (size : Option Nat) :
    (∃ p', p.partition size = .ok p') ∧ p.NamesApart size ∨
      ∃ run ∈ p.batchesOf size, ∃ other ∈ p.batchesOf size, run ≠ other ∧
        batchName run = batchName other ∧
        p.partition size = .error (.duplicateJob (batchName run).text) := by
  have hr := runs_batchesOf hg size
  by_cases hnone : p.batchesOf size = []
  · refine .inl ⟨⟨p, partition_of_nil hnone⟩, fun run hrun => ?_⟩
    rw [hnone] at hrun
    exact absurd hrun List.not_mem_nil
  rcases (hr.arranged hg).ofJobs_cases with hok | ⟨l, job', r, hjobs, hkey, herror⟩
  · exact .inl ⟨exists_partition_of_ofJobs hnone hok, fun run hrun other hother h =>
      hr.eq_of_batchName_eq hg (JobGraph.wellFormed_of_ofJobs hok) hrun hother h⟩
  · right
    have hjobs : (p.kept (p.batchesOf size)).map (p.renumbered (p.batchesOf size))
        = l ++ job' :: r := hjobs
    obtain ⟨before, behind, hkept, rfl, hbehind⟩ := List.map_eq_append_iff.1 hjobs
    obtain ⟨job, after, rfl, rfl, -⟩ := List.map_eq_cons_iff.1 hbehind
    obtain ⟨_, hother, hsame⟩ := List.mem_map.1 hkey
    obtain ⟨other, hmem, rfl⟩ := List.mem_map.1 hother
    have hnodup : (before ++ job :: after).Nodup := hkept ▸ (nodup_jobs hg).filter _
    have hne : job ≠ other := by
      rintro rfl
      exact List.disjoint_of_nodup_append hnodup hmem List.mem_cons_self
    obtain ⟨run, hrun, run', hrun', hne, hname, hrunkey⟩ := hr.exists_clash hg hkeys
      (hkept ▸ List.mem_append_right _ List.mem_cons_self)
      (hkept ▸ List.mem_append_left _ hmem) hne hsame.symm
    refine ⟨run, hrun, run', hrun', hne, hname, ?_⟩
    rw [← hrunkey]
    exact partition_eq_error hnone herror

end Partition

end BuildPlan

/-! ## Plans of requests -/

/-- Whether a path has no two dots in a row and does not begin with a dot. -/
def Path.DotsApart (p : Path) : Prop :=
  ¬ ['.', '.'] <:+: p.text.toList ∧ p.text.toList.head? ≠ some '.'

instance (p : Path) : Decidable p.DotsApart := inferInstanceAs (Decidable (_ ∧ _))

/-- Two dots are found again in a text: they are the first two in a row. -/
theorem eq_of_append_dots {a b c d : List Char} (ha : ¬ ['.', '.'] <:+: a)
    (hc : ¬ ['.', '.'] <:+: c) (hb : b.head? ≠ some '.') (hd : d.head? ≠ some '.')
    (h : a ++ '.' :: '.' :: b = c ++ '.' :: '.' :: d) : a = c := by
  have hshort {l x y : List Char} (hl : ¬ ['.', '.'] <:+: l) (hx : x.head? ≠ some '.')
      (h : '.' :: '.' :: x = l ++ '.' :: '.' :: y) : l = [] := by
    match l, hl, h with
    | [], _, _ => rfl
    | [e], _, h =>
      obtain ⟨-, hx'⟩ : '.' = e ∧ x = '.' :: y := by simpa using h
      exact absurd (congrArg List.head? hx') hx
    | e :: f :: l, hl, h =>
      obtain ⟨rfl, rfl, -⟩ : '.' = e ∧ '.' = f ∧ x = l ++ '.' :: '.' :: y := by simpa using h
      exact absurd (List.prefix_append ['.', '.'] l).isInfix hl
  induction a generalizing c with
  | nil => exact (hshort hc hb h).symm
  | cons x a ih =>
    cases c with
    | nil => exact hshort ha hd h.symm
    | cons y c =>
      obtain ⟨rfl, htail⟩ := List.cons.inj h
      exact congrArg (x :: ·) (ih (fun hi => ha (List.infix_cons hi))
        (fun hi => hc (List.infix_cons hi)) htail)

/-- **The key of a batch tells its first input**, where dots stand apart. -/
theorem JobKey.eq_of_batch_eq {first last first' last' : Path} (hfirst : first.DotsApart)
    (hlast : last.DotsApart) (hfirst' : first'.DotsApart) (hlast' : last'.DotsApart)
    (h : batch first last = batch first' last') : first = first' := by
  have htext := congrArg String.toList (congrArg JobKey.text h)
  simp only [batch, String.toList_append, List.append_assoc, List.append_cancel_left_eq] at htext
  have := eq_of_append_dots hfirst.1 hfirst'.1 hlast.2 hlast'.2 htext
  cases first
  cases first'
  exact congrArg Path.mk (String.toList_inj.1 this)

/-- No key of a stage is that of a batch. -/
theorem Stage.label_append_ne_batch (stage : Stage) (rest : String) (first last : Path) :
    stage.label ++ rest ≠ (JobKey.batch first last).text := by
  intro h
  replace h := congrArg String.toList h
  unfold JobKey.batch at h
  simp only [String.toList_append] at h
  cases stage <;> exact absurd h (by simp [label])

namespace JobGraph.Holds

variable {g : JobGraph} {s : PlanSetting}

/-- No job of a request has the key of a batch. -/
theorem key_ne_batch (h : g.Holds s) {job : Job} (hjob : job ∈ g.jobs) (first last : Path) :
    job.key ≠ .batch first last := by
  obtain ⟨rest, hrest⟩ := h.labelled hjob job.key (by
    rw [h.originKeys_eq job hjob]
    exact List.mem_singleton_self _)
  exact fun hkey => job.stage.label_append_ne_batch rest first last
    (hrest.symm.trans (congrArg JobKey.text hkey))

/-- A job that compiles an input by itself has the key of that input. -/
theorem key_eq_of_kind (h : g.Holds s) {job : Job} (hjob : job ∈ g.jobs) {u : CompileUnit}
    (hkind : job.kind = .compile [u] false) :
    u.primary ∈ s.request.sourcePaths ∧ job.key = .compile u.primary := by
  obtain ⟨draft, hget, he⟩ := h.exists_draft hjob
  have hkind' : draft.kind = .compile [u] false := by
    rw [he] at hkind
    exact hkind
  have hcompile : draft.isCompile = true := Job.isCompile_of_kind_eq hkind'
  rw [he]
  rcases PlanSetting.mem_compileJobs_iff.1
      (PlanSetting.mem_compileJobs_of_isCompile (List.mem_of_getElem? hget) hcompile) with
    ⟨-, q, hq, rfl⟩ | ⟨-, rfl⟩
  · have hu := (List.cons.inj (JobKind.compile.inj hkind').1).1
    rw [← hu]
    exact ⟨hq, rfl⟩
  · cases hkind'

/-- **The batches of a request have names of their own** where dots stand apart in the paths of
its inputs. -/
theorem namesApart (h : g.Holds s) (hdots : ∀ q ∈ s.request.sourcePaths, q.DotsApart)
    {p : BuildPlan} (hp : p.graph = g) (size : Option Nat) : p.NamesApart size := by
  subst hp
  have hr := BuildPlan.runs_batchesOf h.wellFormed size
  intro run hrun other hother hname
  obtain ⟨first, hfirst, last, hlast, u, v, hu, hv, hrunName⟩ := hr.exists_batchName hrun
  obtain ⟨first', hfirst', last', hlast', u', v', hu', hv', hotherName⟩ :=
    hr.exists_batchName hother
  have hmem := (hr.candidates run hrun first hfirst).1
  have hmem' := (hr.candidates other hother first' hfirst').1
  obtain ⟨hsource, hkey⟩ := h.key_eq_of_kind hmem hu
  obtain ⟨hsource', hkey'⟩ := h.key_eq_of_kind hmem' hu'
  have hprimary : u.primary = u'.primary :=
    JobKey.eq_of_batch_eq (hdots _ hsource)
      (hdots _ (h.key_eq_of_kind (hr.candidates run hrun last hlast).1 hv).1) (hdots _ hsource')
      (hdots _ (h.key_eq_of_kind (hr.candidates other hother last' hlast').1 hv').1)
      (hrunName.symm.trans (hname.trans hotherName))
  obtain rfl := h.wellFormed.eq_of_key_eq hmem hmem'
    (hkey.trans (hprimary ▸ hkey'.symm))
  exact hr.eq_of_id_eq h.wellFormed hrun hother hfirst hfirst' rfl

end JobGraph.Holds

/-- **Batches of a request's plan can be formed exactly if no two of them have the same name**,
whatever has changed. Nothing else goes wrong: no job comes to wait for itself, there is no
circle, and no other job has the key of a batch. Where dots stand apart in the paths of the
inputs the batches can always be formed. -/
theorem BuildRequest.partition_of_plan {φ : Type} [FileSystem φ] {r : BuildRequest}
    {modules : Option ModuleGraph} {g : JobGraph} (hplan : r.plan modules = .ok g) (c : Changes)
    (fs : φ) (size : Option Nat) :
    ((∃ p', (g.prune c fs).partition size = .ok p') ↔ (g.prune c fs).NamesApart size) ∧
      (∀ e, (g.prune c fs).partition size = .error e →
        ∃ run ∈ (g.prune c fs).batchesOf size, ∃ other ∈ (g.prune c fs).batchesOf size,
          run ≠ other ∧ BuildPlan.batchName run = BuildPlan.batchName other ∧
            e = .duplicateJob (BuildPlan.batchName run).text) ∧
      ((∀ i ∈ r.inputs, i.path.DotsApart) → ∃ p', (g.prune c fs).partition size = .ok p') := by
  obtain ⟨-, order, -, hholds⟩ := holds_of_plan hplan
  have hcases := BuildPlan.partition_cases (p := g.prune c fs) hholds.wellFormed
    (fun job hjob first last => hholds.key_ne_batch hjob first last) size
  have hiff : (∃ p', (g.prune c fs).partition size = .ok p') ↔
      (g.prune c fs).NamesApart size := by
    rcases hcases with ⟨hok, hapart⟩ | ⟨run, hrun, other, hother, hne, hname, herror⟩
    · exact iff_of_true hok hapart
    · refine iff_of_false ?_ fun hapart => hne (hapart run hrun other hother hname)
      rintro ⟨p', hp'⟩
      cases herror.symm.trans hp'
  refine ⟨hiff, fun e he => ?_, fun hdots => hiff.2 ?_⟩
  · rcases hcases with ⟨⟨p', hp'⟩, -⟩ | ⟨run, hrun, other, hother, hne, hname, herror⟩
    · cases hp'.symm.trans he
    · exact ⟨run, hrun, other, hother, hne, hname, Except.error.inj (he.symm.trans herror)⟩
  · refine hholds.namesApart (fun q hq => ?_) rfl size
    obtain ⟨i, hi, rfl⟩ := List.mem_map.1 hq
    exact hdots i hi

namespace FourInputs

/-- A request for the objects of four inputs. -/
def request (paths : List String) : BuildRequest :=
  .forObjects (paths.map fun path => ⟨⟨path⟩, ⟨"1"⟩⟩)

def plain : BuildRequest := request ["/a.src", "/b.src", "/c.src", "/d.src"]

/-- The first two paths and the last two read the same with two dots between them. -/
def dotted : BuildRequest := request ["/a", "/b../c", "/a../b", "/c"]

/-- The plan where nothing is known from before. -/
def fresh (r : BuildRequest) (g : JobGraph) : BuildPlan :=
  g.prune ⟨OrderedMap.ofList (r.sourcePaths.map fun p => (p, .noPriorState)), ∅, ∅⟩
    MemoryFiles.empty

theorem partition_of_plan_plain : ∃ g, plain.plan none = .ok g ∧
    ((fresh plain g).batchesOf (some 2)).map (fun run => (BuildPlan.batchName run).text)
      = ["batch:/a.src../b.src", "batch:/c.src../d.src"] ∧
    ∀ (c : Changes) (fs : MemoryFiles) (size : Option Nat),
      ∃ p', (g.prune c fs).partition size = .ok p' := by
  obtain ⟨g, hplan, hnames⟩ := exists_eq_ok_of_toOption (x := plain.plan none)
    (f := fun g => ((fresh plain g).batchesOf (some 2)).map fun run =>
      (BuildPlan.batchName run).text)
    (b := ["batch:/a.src../b.src", "batch:/c.src../d.src"]) (by decide +kernel)
  refine ⟨g, hplan, hnames, fun c fs size => ?_⟩
  exact (BuildRequest.partition_of_plan hplan c fs size).2.2 (by decide +kernel)

/-- Two batches with four different ends have one name, and the plan is refused. -/
theorem exists_same_name : ∃ g, dotted.plan none = .ok g ∧
    (fresh dotted g).partition (some 2) = .error (.duplicateJob "batch:/a../b../c") := by
  obtain ⟨g, hplan, hfails⟩ := exists_eq_ok_of_toOption (x := dotted.plan none)
    (f := fun g => match (fresh dotted g).partition (some 2) with
      | .ok _ => none
      | .error e => some e) (b := some (.duplicateJob "batch:/a../b../c")) (by decide +kernel)
  refine ⟨g, hplan, ?_⟩
  cases hp : (fresh dotted g).partition (some 2) with
  | ok p' =>
    rw [hp] at hfails
    cases hfails
  | error e =>
    rw [hp] at hfails
    rw [Option.some.inj hfails]

end FourInputs

end IncrementalBuild
