import IncrementalBuild.Plan.Batch
import IncrementalBuild.Proofs.Plan
import Mathlib.Data.List.Flatten
import Mathlib.Data.List.Pairwise
import Mathlib.Data.List.Perm.Basic

/-!
# What batches gather

A plan with batches does what the plan without them does. Each of its jobs gathers some jobs
of the plan it was made from: one that it repeats under a new number, or the members of a
run of scheduled compile jobs that share everything but their input. Every job is gathered
in one place.
-/

namespace IncrementalBuild

/-! ## Classes and runs -/

section Classes

variable {α β : Type} [BEq β] {f : α → β}

/-- **The classes hold every element once.** -/
theorem classesBy_perm (f : α → β) (l : List α) : (classesBy f l).flatten.Perm l := by
  have hadd (a : α) (classes : List (β × List α)) :
      ((addToClass f a classes).flatMap (·.2)).Perm (classes.flatMap (·.2) ++ [a]) := by
    induction classes with
    | nil => exact .refl _
    | cons c rest ih =>
      unfold addToClass
      split
      · simp only [List.flatMap_cons, List.append_assoc]
        exact (List.perm_append_comm).append_left _
      · simp only [List.flatMap_cons, List.append_assoc]
        exact ih.append_left _
  have key (l : List α) (classes : List (β × List α)) :
      ((l.foldl (fun classes a => addToClass f a classes) classes).flatMap (·.2)).Perm
        (classes.flatMap (·.2) ++ l) := by
    induction l generalizing classes with
    | nil => simp
    | cons a rest ih =>
      refine (ih _).trans (((hadd a classes).append_right rest).trans ?_)
      rw [List.append_assoc]
      exact .refl _
  exact key l []

/-- Whether some elements are in their classes, each class with its image. -/
structure Classified (f : α → β) (done : List α) (classes : List (β × List α)) : Prop where
  distinct : (classes.map (·.1)).Nodup
  members : ∀ c ∈ classes, c.2 = done.filter (f · == c.1)
  covers : ∀ a ∈ done, f a ∈ classes.map (·.1)

theorem map_fst_addToClass [LawfulBEq β] (a : α) (classes : List (β × List α)) :
    (addToClass f a classes).map (·.1) = if f a ∈ classes.map (·.1) then classes.map (·.1)
      else classes.map (·.1) ++ [f a] := by
  induction classes with
  | nil => simp [addToClass]
  | cons c rest ih =>
    by_cases hc : f a = c.1
    · simp [addToClass, hc]
    · by_cases hrest : f a ∈ rest.map (·.1) <;> simp_all [addToClass]

/-- An element is put behind those that have its image, and leaves the other classes alone. -/
theorem members_addToClass [LawfulBEq β] {a : α} {done : List α} {classes : List (β × List α)}
    (hdistinct : (classes.map (·.1)).Nodup)
    (hmembers : ∀ c ∈ classes, c.2 = done.filter (f · == c.1))
    (hnew : f a ∉ classes.map (·.1) → done.filter (f · == f a) = []) :
    ∀ c ∈ addToClass f a classes, c.2 = (done ++ [a]).filter (f · == c.1) := by
  have hother {c : β × List α} (hc : c.2 = done.filter (f · == c.1)) (hne : f a ≠ c.1) :
      c.2 = (done ++ [a]).filter (f · == c.1) := by
    rw [List.filter_append, List.filter_singleton, beq_false_of_ne hne, cond_false,
      List.append_nil, hc]
  induction classes with
  | nil =>
    intro c hc
    obtain rfl := List.mem_singleton.1 hc
    rw [List.filter_append, hnew (by simp)]
    simp
  | cons c rest ih =>
    obtain ⟨himages, hdistinct⟩ := List.nodup_cons.1 hdistinct
    obtain ⟨hc, hrest⟩ := List.forall_mem_cons.1 hmembers
    unfold addToClass
    split
    · rename_i himage
      have himage : f a = c.1 := eq_of_beq himage
      refine List.forall_mem_cons.2 ⟨?_, fun d hd => hother (hrest d hd) fun hd' => himages ?_⟩
      · rw [List.filter_append, ← hc]
        simp [himage]
      · show c.1 ∈ _
        rw [← himage, hd']
        exact List.mem_map_of_mem hd
    · rename_i himage
      have himage : f a ≠ c.1 := fun h => himage (beq_iff_eq.2 h)
      refine List.forall_mem_cons.2 ⟨hother hc himage, ih hdistinct hrest fun hno => hnew ?_⟩
      exact List.not_mem_cons_of_ne_of_not_mem himage hno

theorem Classified.add [LawfulBEq β] {done : List α} {classes : List (β × List α)}
    (h : Classified f done classes) (a : α) :
    Classified f (done ++ [a]) (addToClass f a classes) := by
  have himages := map_fst_addToClass (f := f) a classes
  refine ⟨?_, members_addToClass h.distinct h.members fun hno => ?_, fun b hb => ?_⟩
  · rw [himages]
    split
    · exact h.distinct
    · rename_i hno
      rw [← List.concat_eq_append]
      exact h.distinct.concat hno
  · refine List.filter_eq_nil_iff.2 fun b hb hsame => hno ?_
    exact eq_of_beq hsame ▸ h.covers b hb
  · rw [himages]
    rcases List.mem_append.1 hb with hb | hb
    · split
      · exact h.covers b hb
      · exact List.mem_append_left _ (h.covers b hb)
    · rw [List.mem_singleton.1 hb]
      split
      · assumption
      · exact List.mem_append_right _ List.mem_cons_self

/-- **A class is what has its image**, in the order of the list. -/
theorem exists_of_mem_classesBy [LawfulBEq β] {l c : List α} (hc : c ∈ classesBy f l) :
    ∃ image, c = l.filter (f · == image) := by
  have key (l done : List α) (classes : List (β × List α)) (h : Classified f done classes) :
      Classified f (done ++ l) (l.foldl (fun classes a => addToClass f a classes) classes) := by
    induction l generalizing done classes with
    | nil =>
      rw [List.append_nil]
      exact h
    | cons a rest ih =>
      rw [List.append_cons done a rest]
      exact ih _ _ (h.add a)
  obtain ⟨entry, hentry, rfl⟩ := List.mem_map.1 hc
  have h := key l [] [] ⟨List.nodup_nil, List.forall_mem_nil _, List.forall_mem_nil _⟩
  exact ⟨entry.1, h.members entry hentry⟩

/-- The members of a class have the same image. -/
theorem eq_of_mem_classesBy [LawfulBEq β] {l c : List α} (hc : c ∈ classesBy f l) {a b : α}
    (ha : a ∈ c) (hb : b ∈ c) : f a = f b := by
  obtain ⟨image, rfl⟩ := exists_of_mem_classesBy hc
  exact (eq_of_beq (List.mem_filter.1 ha).2).trans (eq_of_beq (List.mem_filter.1 hb).2).symm

/-- **The members of a class stand as they stood in the list.** -/
theorem sublist_of_mem_classesBy [LawfulBEq β] {l c : List α} (hc : c ∈ classesBy f l) :
    c.Sublist l := by
  obtain ⟨image, rfl⟩ := exists_of_mem_classesBy hc
  exact List.filter_sublist

/-- Runs are cut off one behind the other. -/
theorem flatten_cutRuns_sublist (lengths : List Nat) (l : List α) :
    (cutRuns lengths l).flatten.Sublist l := by
  induction lengths generalizing l with
  | nil => exact List.nil_sublist l
  | cons n rest ih =>
    have := (ih (l.drop n)).append_left (l.take n)
    rw [List.take_append_drop] at this
    exact this

theorem flatten_flatMap_sublist {g : List α → List (List α)} (hg : ∀ l, (g l).flatten.Sublist l)
    (ls : List (List α)) : (ls.flatMap g).flatten.Sublist ls.flatten := by
  induction ls with
  | nil => exact .slnil
  | cons l rest ih =>
    rw [List.flatMap_cons, List.flatten_append, List.flatten_cons]
    exact (hg l).append ih

end Classes

/-! ## The runs that are merged -/

instance : LawfulBEq BatchKey where
  rfl {a} := by
    obtain ⟨⟨ids, _⟩, tool, args⟩ := a
    show ((ids == ids) && (tool == tool && args == args)) = true
    simp
  eq_of_beq {a b} h := by
    obtain ⟨⟨ids, _⟩, tool, args⟩ := a
    obtain ⟨⟨ids', _⟩, tool', args'⟩ := b
    have h : ((ids == ids') && (tool == tool' && args == args')) = true := h
    simp only [Bool.and_eq_true, beq_iff_eq] at h
    obtain ⟨rfl, rfl, rfl⟩ := h
    rfl

/-- A job that may be put into a batch is scheduled, and compiles one input by itself. -/
theorem BuildPlan.isCandidate_iff {p : BuildPlan} {job : Job} :
    p.isCandidate job = true ↔
      (p.disposition job.id).isScheduled = true ∧ ∃ u, job.kind = .compile [u] false := by
  unfold isCandidate
  rw [Bool.and_eq_true]
  refine and_congr_right fun _ => ?_
  cases hk : job.kind with
  | compile units wholeModule =>
    cases wholeModule <;> simp [List.length_eq_one_iff]
  | _ => simp

/-- Only what compiles can be merged. -/
theorem BuildPlan.isCompile_of_isCandidate {p : BuildPlan} {job : Job}
    (h : p.isCandidate job = true) : job.isCompile = true := by
  obtain ⟨u, hu⟩ := (isCandidate_iff.1 h).2
  exact Job.isCompile_of_kind_eq hu

/-- Whether jobs can be merged, those of each list into one. -/
structure BuildPlan.Runs (p : BuildPlan) (batches : List (List Job)) : Prop where
  several : ∀ run ∈ batches, 1 < run.length
  candidates : ∀ run ∈ batches, ∀ job ∈ run, job ∈ p.graph.jobs ∧ p.isCandidate job = true
  alike : ∀ run ∈ batches, ∀ a ∈ run, ∀ b ∈ run, a.batchKey = b.batchKey
  /-- The jobs of a list stand as they stand in the plan. -/
  ordered : ∀ run ∈ batches, run.Sublist p.graph.jobs
  /-- No job is in two of them. -/
  nodup : batches.flatten.Nodup

namespace BuildPlan

variable {p : BuildPlan} {batches : List (List Job)}

theorem nodup_jobs {g : JobGraph} (hg : g.WellFormed) : g.jobs.Nodup :=
  List.Nodup.of_map (·.id) (by
    rw [hg.map_id]
    exact List.nodup_range)

theorem runs_nil : p.Runs [] where
  several _ h := absurd h List.not_mem_nil
  candidates _ h := absurd h List.not_mem_nil
  alike _ h := absurd h List.not_mem_nil
  ordered _ h := absurd h List.not_mem_nil
  nodup := List.nodup_nil

/-- **The batches of a plan are runs of it.** -/
theorem runs_batches (hg : p.graph.WellFormed) (size : Nat) : p.Runs (p.batches size) := by
  have hcut {run : List Job} (h : run ∈ p.batches size) :
      ∃ group ∈ classesBy Job.batchKey (p.graph.jobs.filter p.isCandidate),
        run.Sublist group := by
    obtain ⟨group, hgroup, hrun⟩ := List.mem_flatMap.1 (List.mem_filter.1 h).1
    exact ⟨group, hgroup,
      (List.sublist_flatten_of_mem hrun).trans (flatten_cutRuns_sublist _ group)⟩
  refine ⟨fun run h => of_decide_eq_true (List.mem_filter.1 h).2, fun run h job hjob => ?_,
    fun run h a ha b hb => ?_, fun run h => ?_, ?_⟩
  · obtain ⟨group, hgroup, hsub⟩ := hcut h
    exact List.mem_filter.1 ((hsub.trans (sublist_of_mem_classesBy hgroup)).subset hjob)
  · obtain ⟨group, hgroup, hsub⟩ := hcut h
    exact eq_of_mem_classesBy hgroup (hsub.subset ha) (hsub.subset hb)
  · obtain ⟨group, hgroup, hsub⟩ := hcut h
    exact (hsub.trans (sublist_of_mem_classesBy hgroup)).trans List.filter_sublist
  · refine (List.filter_sublist.flatten.trans (flatten_flatMap_sublist
      (fun group => flatten_cutRuns_sublist _ group) _)).nodup ?_
    exact (classesBy_perm _ _).nodup_iff.2 ((nodup_jobs hg).filter _)

/-! ## Places -/

theorem Runs.eq_of_id_eq (hr : p.Runs batches) (hg : p.graph.WellFormed) {run other : List Job}
    (hrun : run ∈ batches) (hother : other ∈ batches) {a b : Job} (ha : a ∈ run)
    (hb : b ∈ other) (hab : a.id = b.id) : run = other := by
  obtain rfl := hg.eq_of_id_eq (hr.candidates run hrun a ha).1
    (hr.candidates other hother b hb).1 hab
  by_contra hne
  have : Std.Symm (List.Disjoint (α := Job)) := ⟨fun _ _ h => h.symm⟩
  exact (List.nodup_flatten.1 hr.nodup).2.forall hrun hother hne ha hb

theorem Runs.batchOf?_eq (hr : p.Runs batches) (hg : p.graph.WellFormed) {run : List Job}
    (hrun : run ∈ batches) {a : Job} (ha : a ∈ run) : batchOf? batches a.id = some run := by
  unfold batchOf?
  cases hfind : batches.find? (fun run => run.any (·.id == a.id)) with
  | none =>
    have hany : run.any (·.id == a.id) = true :=
      List.any_eq_true.2 ⟨a, ha, beq_self_eq_true a.id⟩
    exact absurd hany (List.find?_eq_none.1 hfind run hrun)
  | some other =>
    have hany : other.any (·.id == a.id) = true :=
      List.find?_some (p := fun run : List Job => run.any (·.id == a.id)) hfind
    obtain ⟨b, hb, hba⟩ := List.any_eq_true.1 hany
    rw [hr.eq_of_id_eq hg (List.mem_of_find?_eq_some hfind) hrun hb ha (eq_of_beq hba)]

/-- What is found for a number is the batch of a job that has it. -/
theorem mem_of_batchOf? {id : JobId} {run : List Job} (h : batchOf? batches id = some run) :
    run ∈ batches ∧ ∃ a ∈ run, a.id = id := by
  refine ⟨List.mem_of_find?_eq_some h, ?_⟩
  have hany : run.any (·.id == id) = true :=
    List.find?_some (p := fun run : List Job => run.any (·.id == id)) h
  obtain ⟨a, ha, hid⟩ := List.any_eq_true.1 hany
  exact ⟨a, ha, eq_of_beq hid⟩

/-- The leader of a batch is its first member. -/
theorem Runs.leader_eq (hr : p.Runs batches) (hg : p.graph.WellFormed) {first a : Job}
    {rest : List Job} (hrun : first :: rest ∈ batches) (ha : a ∈ first :: rest) :
    leader batches a.id = first.id := by
  unfold leader
  rw [hr.batchOf?_eq hg hrun ha]

theorem leader_eq_self {job : Job} (h : batchOf? batches job.id = none) :
    leader batches job.id = job.id := by
  unfold leader
  rw [h]

/-- **The leader of a batch keeps a place, and so does a job of no batch.** -/
theorem Runs.exists_leader (hr : p.Runs batches) (hg : p.graph.WellFormed) {job : Job}
    (hjob : job ∈ p.graph.jobs) :
    ∃ lead ∈ p.kept batches, lead.id = leader batches job.id := by
  cases hb : batchOf? batches job.id with
  | none =>
    have hlead := leader_eq_self hb
    exact ⟨job, List.mem_filter.2 ⟨hjob, beq_iff_eq.2 hlead⟩, hlead.symm⟩
  | some run =>
    obtain ⟨hrun, a, ha, hid⟩ := mem_of_batchOf? hb
    obtain ⟨first, rest, rfl⟩ := List.exists_cons_of_ne_nil (List.ne_nil_of_mem ha)
    refine ⟨first, List.mem_filter.2 ⟨(hr.candidates _ hrun first List.mem_cons_self).1,
      beq_iff_eq.2 (hr.leader_eq hg hrun List.mem_cons_self)⟩, ?_⟩
    rw [← hid, hr.leader_eq hg hrun ha]

/-- At the new number of a job stands its leader. -/
theorem Runs.getElem?_newId (hr : p.Runs batches) (hg : p.graph.WellFormed) {job : Job}
    (hjob : job ∈ p.graph.jobs) :
    ∃ lead, (p.kept batches)[p.newId batches job.id]? = some lead ∧
      lead.id = leader batches job.id := by
  obtain ⟨lead, hlead, hid⟩ := hr.exists_leader hg hjob
  have hlt : p.newId batches job.id < (p.kept batches).length :=
    List.findIdx_lt_length_of_exists ⟨lead, hlead, beq_iff_eq.2 hid⟩
  exact ⟨_, List.getElem?_eq_getElem hlt, eq_of_beq (List.findIdx_getElem (w := hlt))⟩

/-- **Jobs with the same place have the same leader.** -/
theorem Runs.leader_eq_of_newId_eq (hr : p.Runs batches) (hg : p.graph.WellFormed)
    {job other : Job} (hjob : job ∈ p.graph.jobs) (hother : other ∈ p.graph.jobs)
    (h : p.newId batches job.id = p.newId batches other.id) :
    leader batches job.id = leader batches other.id := by
  obtain ⟨lead, hlead, hid⟩ := hr.getElem?_newId hg hjob
  obtain ⟨lead', hlead', hid'⟩ := hr.getElem?_newId hg hother
  rw [h, hlead'] at hlead
  rw [← hid, ← hid', Option.some.inj hlead]

/-- **At the place of a member of a batch stand the members of the batch.** -/
theorem Runs.newId_eq_iff_mem (hr : p.Runs batches) (hg : p.graph.WellFormed) {run : List Job}
    (hrun : run ∈ batches) {a m : Job} (ha : a ∈ run) (hm : m ∈ p.graph.jobs) :
    p.newId batches m.id = p.newId batches a.id ↔ m ∈ run := by
  obtain ⟨first, rest, rfl⟩ := List.exists_cons_of_ne_nil (List.ne_nil_of_mem ha)
  have hlead := hr.leader_eq hg hrun ha
  constructor
  · intro hplace
    have hsame := (hr.leader_eq_of_newId_eq hg hm (hr.candidates _ hrun a ha).1 hplace).trans hlead
    cases hfound : batchOf? batches m.id with
    | none =>
      have hfirst := (hr.candidates _ hrun first List.mem_cons_self).1
      rw [hg.eq_of_id_eq hm hfirst ((leader_eq_self hfound).symm.trans hsame)]
      exact List.mem_cons_self
    | some other =>
      obtain ⟨hother, b, hb, hid⟩ := mem_of_batchOf? hfound
      obtain rfl := hg.eq_of_id_eq (hr.candidates _ hother b hb).1 hm hid
      obtain ⟨first', rest', rfl⟩ := List.exists_cons_of_ne_nil (List.ne_nil_of_mem hb)
      rw [hr.leader_eq hg hother hb] at hsame
      rw [hr.eq_of_id_eq hg hrun hother List.mem_cons_self List.mem_cons_self hsame.symm]
      exact hb
  · intro hmem
    unfold newId
    rw [hlead, hr.leader_eq hg hrun hmem]

/-- At the place of a job of no batch stands no other job. -/
theorem Runs.newId_eq_iff_of_none (hr : p.Runs batches) (hg : p.graph.WellFormed) {job m : Job}
    (hjob : job ∈ p.graph.jobs) (h : batchOf? batches job.id = none) (hm : m ∈ p.graph.jobs) :
    p.newId batches m.id = p.newId batches job.id ↔ m = job := by
  constructor
  · intro hplace
    have hsame := (hr.leader_eq_of_newId_eq hg hm hjob hplace).trans (leader_eq_self h)
    cases hfound : batchOf? batches m.id with
    | none => exact hg.eq_of_id_eq hm hjob ((leader_eq_self hfound).symm.trans hsame)
    | some run =>
      -- A member of a batch would be led by another member of it.
      obtain ⟨hrun, b, hb, hid⟩ := mem_of_batchOf? hfound
      obtain ⟨first, rest, rfl⟩ := List.exists_cons_of_ne_nil (List.ne_nil_of_mem hb)
      rw [← hid, hr.leader_eq hg hrun hb] at hsame
      have hfirst := hr.batchOf?_eq hg hrun List.mem_cons_self
      rw [hsame, h] at hfirst
      cases hfirst
  · rintro rfl
    rfl

end BuildPlan

/-! ## Gathering -/

/-- **Whether one job does what some jobs of a plan do**: what a single one does, or what
the members of a run do together. -/
structure BuildPlan.Gathered (p p' : BuildPlan) (place : JobId → JobId) (job' first : Job)
    (rest : List Job) : Prop where
  mem_iff : ∀ m, m ∈ first :: rest ↔ m ∈ p.graph.jobs ∧ place m.id = job'.id
  nodup : (first :: rest).Nodup
  /-- The jobs are told in the order in which they were planned. -/
  ordered : (first :: rest).Sublist p.graph.jobs
  disposition : p'.disposition job'.id = p.disposition first.id
  mem_prerequisites : ∀ q, q ∈ job'.prerequisites.toList ↔
    ∃ a ∈ first.prerequisites.toList, place a = q
  body : rest = [] ∧ job' = { first with id := job'.id, prerequisites := job'.prerequisites } ∨
    rest ≠ [] ∧ (∀ m ∈ first :: rest, p.isCandidate m = true ∧ m.batchKey = first.batchKey) ∧
      job' = { first.merged rest with id := job'.id, prerequisites := job'.prerequisites }

/-- **Whether the jobs of a plan are gathered in another**, each at a place. -/
structure BuildPlan.Gathers (p p' : BuildPlan) (place : JobId → JobId) : Prop where
  wellFormed : p'.graph.WellFormed
  gathered : ∀ job' ∈ p'.graph.jobs, ∃ first rest, p.Gathered p' place job' first rest
  placed : ∀ job ∈ p.graph.jobs, ∃ job' ∈ p'.graph.jobs, place job.id = job'.id

namespace BuildPlan

variable {p p' : BuildPlan} {batches : List (List Job)}

/-- A plan gathers its own jobs. -/
theorem gathers_self (hg : p.graph.WellFormed) : p.Gathers p id where
  wellFormed := hg
  gathered job hjob := by
    refine ⟨job, [], ⟨fun m => ?_, List.nodup_singleton job, List.singleton_sublist.2 hjob, rfl,
      fun q => by simp, .inl ⟨rfl, rfl⟩⟩⟩
    rw [List.mem_singleton]
    constructor
    · rintro rfl
      exact ⟨hjob, rfl⟩
    · rintro ⟨hm, hid⟩
      exact hg.eq_of_id_eq hm hjob hid
  placed job hjob := ⟨job, hjob, rfl⟩

/-- The jobs that are gathered at the place of a job that keeps one. -/
theorem Runs.exists_members (hr : p.Runs batches) (hg : p.graph.WellFormed) {job : Job}
    (hjob : job ∈ p.kept batches) :
    ∃ rest, (∀ m, m ∈ job :: rest ↔
        m ∈ p.graph.jobs ∧ p.newId batches m.id = p.newId batches job.id) ∧
      (job :: rest).Nodup ∧ (job :: rest).Sublist p.graph.jobs ∧
      (rest = [] ∧ p.renumbered batches job = { job with
          id := p.newId batches job.id
          prerequisites := OrderedSet.ofList (job.prerequisites.toList.map (p.newId batches)) } ∨
        rest ≠ [] ∧ (∀ m ∈ job :: rest, p.isCandidate m = true ∧ m.batchKey = job.batchKey) ∧
          p.renumbered batches job = { job.merged rest with
            id := p.newId batches job.id
            prerequisites :=
              OrderedSet.ofList (job.prerequisites.toList.map (p.newId batches)) }) := by
  obtain ⟨hmem, hlead⟩ := List.mem_filter.1 hjob
  have hlead : leader batches job.id = job.id := eq_of_beq hlead
  cases hb : batchOf? batches job.id with
  -- A job that is in no batch stays alone.
  | none =>
    refine ⟨[], fun m => ?_, List.nodup_singleton job, List.singleton_sublist.2 hmem,
      .inl ⟨rfl, ?_⟩⟩
    · rw [List.mem_singleton]
      constructor
      · rintro rfl
        exact ⟨hmem, rfl⟩
      · rintro ⟨hm, hplace⟩
        exact (hr.newId_eq_iff_of_none hg hmem hb hm).1 hplace
    · unfold renumbered
      rw [hb]
  | some run =>
    -- A job that keeps the place of a batch is its first member.
    obtain ⟨hrun, -⟩ := mem_of_batchOf? hb
    have hseveral := hr.several run hrun
    obtain ⟨first, rest, rfl⟩ := List.exists_cons_of_length_pos (Nat.lt_of_succ_lt hseveral)
    have hfirst : first.id = job.id := by
      unfold leader at hlead
      rw [hb] at hlead
      exact hlead
    obtain rfl := hg.eq_of_id_eq (hr.candidates _ hrun first List.mem_cons_self).1 hmem hfirst
    refine ⟨rest, fun m => ?_,
      (List.nodup_flatten.1 hr.nodup).1 _ hrun, hr.ordered _ hrun, .inr ⟨?_, fun m hm =>
        ⟨(hr.candidates _ hrun m hm).2, hr.alike _ hrun m hm first List.mem_cons_self⟩, ?_⟩⟩
    · constructor
      · intro hm
        have hm' := (hr.candidates _ hrun m hm).1
        exact ⟨hm', (hr.newId_eq_iff_mem hg hrun List.mem_cons_self hm').2 hm⟩
      · rintro ⟨hm, hplace⟩
        exact (hr.newId_eq_iff_mem hg hrun List.mem_cons_self hm).1 hplace
    · rintro rfl
      exact absurd hseveral (Nat.lt_irrefl 1)
    · unfold renumbered
      rw [hb]

/-- A plan made of the kept jobs gathers the jobs of the runs. -/
theorem gathers_of_ofJobs (hg : p.graph.WellFormed) {batches : List (List Job)}
    (hr : p.Runs batches) {graph : JobGraph}
    (hgraph : JobGraph.ofJobs ((p.kept batches).map (p.renumbered batches)) = .ok graph)
    (hlength : ((p.kept batches).map fun job => p.disposition job.id).length = graph.size) :
    p.Gathers ⟨graph, (p.kept batches).map fun job => p.disposition job.id, hlength⟩
      (p.newId batches) := by
  have hjobs := JobGraph.jobs_of_ofJobs hgraph
  have hid (job : Job) : (p.renumbered batches job).id = p.newId batches job.id := rfl
  refine ⟨JobGraph.wellFormed_of_ofJobs hgraph, fun job' hjob' => ?_, fun job hjob => ?_⟩
  · rw [hjobs] at hjob'
    obtain ⟨first, hfirst, rfl⟩ := List.mem_map.1 hjob'
    obtain ⟨hmem, hlead⟩ := List.mem_filter.1 hfirst
    obtain ⟨rest, hmembers, hnodup, hordered, hbody⟩ := hr.exists_members hg hfirst
    refine ⟨first, rest, hmembers, hnodup, hordered, ?_, fun q => ?_, hbody⟩
    · obtain ⟨lead, hget, hleadid⟩ := hr.getElem?_newId hg hmem
      show ((p.kept batches).map fun job => p.disposition job.id).getD
        (p.newId batches first.id) .clean = _
      rw [List.getD_eq_getElem?_getD, List.getElem?_map, hget, Option.map_some,
        Option.getD_some, hleadid, eq_of_beq hlead]
    · exact OrderedSet.mem_toList_ofList.trans List.mem_map
  · obtain ⟨lead, hget, hleadid⟩ := hr.getElem?_newId hg hjob
    have hkept := List.mem_of_getElem? hget
    refine ⟨p.renumbered batches lead, ?_, ?_⟩
    · rw [hjobs]
      exact List.mem_map_of_mem hkept
    · have hself : leader batches lead.id = lead.id :=
        eq_of_beq (List.mem_filter.1 hkept).2
      rw [hid]
      unfold newId
      rw [hself, hleadid]

/-- **The plan with batches gathers the jobs of the plan without them.** -/
theorem exists_gathers_of_partition (hg : p.graph.WellFormed) {size : Option Nat}
    (h : p.partition size = .ok p') : ∃ place, p.Gathers p' place := by
  have hsame (hp : p = p') : ∃ place, p.Gathers p' place := by
    subst hp
    exact ⟨id, gathers_self hg⟩
  cases size with
  | none => exact hsame (Except.ok.inj h)
  | some n =>
    have hr : p.Runs (if n > 1 then p.batches n else []) := by
      split
      · exact runs_batches hg n
      · exact runs_nil
    dsimp only [partition] at h
    by_cases hnone : (if n > 1 then p.batches n else []).isEmpty = true
    · exact hsame (Except.ok.inj ((if_pos hnone).symm.trans h))
    replace h := (if_neg hnone).symm.trans h
    split at h
    · cases h
    rename_i graph hgraph
    obtain rfl := Except.ok.inj h
    exact ⟨_, gathers_of_ofJobs hg hr hgraph _⟩

end BuildPlan

/-! ## What is gathered -/

theorem Artifact.beq_iff {a b : Artifact} :
    (a == b) = true ↔ compare a.path b.path = .eq ∧ a.fileType = b.fileType := by
  obtain ⟨path, type⟩ := a
  obtain ⟨path', type'⟩ := b
  show ((path == path') && type == type') = true ↔ _
  rw [Bool.and_eq_true, Path.beq_iff_compare, beq_iff_eq]

/-- What is merged reads the inputs of each. -/
theorem Job.exists_mem_inputs_merged (first : Job) (rest : List Job) {P : Artifact → Prop}
    (hP : ∀ a b : Artifact, (a == b) = true → P a → P b) :
    (∃ a ∈ (first.merged rest).inputs, P a) ↔ ∃ m ∈ first :: rest, ∃ a ∈ m.inputs, P a := by
  have key (l seen : List Artifact) :
      (∃ a ∈ l.foldl (fun seen a => if seen.contains a then seen else seen ++ [a]) seen, P a) ↔
        (∃ a ∈ seen, P a) ∨ ∃ a ∈ l, P a := by
    induction l generalizing seen with
    | nil => simp
    | cons a rest ih =>
      rw [List.foldl_cons, ih, List.exists_mem_cons_iff]
      by_cases ha : seen.contains a = true
      · rw [if_pos ha]
        obtain ⟨b, hb, hab⟩ := List.contains_iff_exists_mem_beq.1 ha
        constructor
        · exact Or.imp_right Or.inr
        · rintro (h | h | h)
          · exact .inl h
          · exact .inl ⟨b, hb, hP a b hab h⟩
          · exact .inr h
      · rw [if_neg ha]
        simp only [List.mem_append, List.mem_singleton, or_and_right, exists_or, exists_eq_left,
          or_assoc]
  refine (key _ []).trans ?_
  simp only [List.not_mem_nil, false_and, exists_false, false_or, List.mem_flatMap]
  constructor
  · rintro ⟨a, ⟨m, hm, ha⟩, h⟩
    exact ⟨m, hm, a, ha, h⟩
  · rintro ⟨m, hm, a, ha, h⟩
    exact ⟨a, ⟨m, hm, ha⟩, h⟩

namespace BuildPlan.Gathered

variable {p p' : BuildPlan} {place : JobId → JobId} {job' first : Job} {rest : List Job}

theorem units_eq (h : p.Gathered p' place job' first rest) :
    job'.units = (first :: rest).flatMap Job.units := by
  rcases h.body with ⟨rfl, he⟩ | ⟨-, -, he⟩
  · rw [he, List.flatMap_singleton]
    rfl
  · rw [he]
    rfl

/-- A job reads what the jobs read that it gathers. -/
theorem exists_mem_inputs_iff (h : p.Gathered p' place job' first rest) {P : Artifact → Prop}
    (hP : ∀ a b : Artifact, (a == b) = true → P a → P b) :
    (∃ a ∈ job'.inputs, P a) ↔ ∃ m ∈ first :: rest, ∃ a ∈ m.inputs, P a := by
  rcases h.body with ⟨rfl, he⟩ | ⟨-, -, he⟩
  · rw [he]
    simp
  · rw [he]
    exact Job.exists_mem_inputs_merged first rest hP

/-- A job writes what the jobs write that it gathers. -/
theorem mem_outputs_iff (h : p.Gathered p' place job' first rest) {a : Artifact} :
    a ∈ job'.outputs ↔ ∃ m ∈ first :: rest, a ∈ m.outputs := by
  rcases h.body with ⟨rfl, he⟩ | ⟨-, -, he⟩
  · rw [he]
    simp
  · rw [he]
    exact List.mem_flatMap

/-- **A job compiles what the jobs compile that it gathers.** -/
theorem compiles_iff (h : p.Gathered p' place job' first rest) (q : Path) :
    job'.Compiles q ↔ ∃ m ∈ first :: rest, m.Compiles q := by
  rcases h.body with ⟨rfl, he⟩ | ⟨-, hm, he⟩
  · rw [he]
    simp only [List.mem_singleton, exists_eq_left]
    exact Iff.rfl
  · have hsource {job : Job} : (∃ s ∈ job.sourceInputs, compare s q = .eq) ↔
        ∃ a ∈ job.inputs, a.fileType = .source ∧ compare a.path q = .eq := by
      simp only [Job.mem_sourceInputs]
      constructor
      · rintro ⟨s, ⟨a, ha, ht, rfl⟩, hs⟩
        exact ⟨a, ha, ht, hs⟩
      · rintro ⟨a, ha, ht, hs⟩
        exact ⟨a.path, ⟨a, ha, ht, rfl⟩, hs⟩
    have hinputs := Job.exists_mem_inputs_merged first rest
      (P := fun a => a.fileType = .source ∧ compare a.path q = .eq) fun a b hab ⟨ht, hq⟩ =>
        have hab := Artifact.beq_iff.1 hab
        ⟨hab.2.symm.trans ht, (Std.TransCmp.congr_left hab.1).symm.trans hq⟩
    have hmerged : job'.Compiles q ↔ ∃ a ∈ (first.merged rest).inputs,
        a.fileType = .source ∧ compare a.path q = .eq := by
      rw [he]
      exact (and_iff_right rfl).trans hsource
    rw [hmerged, hinputs]
    exact exists_congr fun m => and_congr_right fun hmem =>
      (hsource.symm).trans (and_iff_right (isCompile_of_isCandidate (hm m hmem).1)).symm

/-- **A job was planned as what the jobs were planned as that it gathers.** -/
theorem mem_originKeys_iff (h : p.Gathered p' place job' first rest) (key : JobKey) :
    key ∈ job'.originKeys ↔ ∃ m ∈ first :: rest, key ∈ m.originKeys := by
  rcases h.body with ⟨rfl, he⟩ | ⟨-, hm, he⟩
  · rw [he]
    simp only [List.mem_singleton, exists_eq_left]
    exact Iff.rfl
  · have hsingle {m : Job} (hmem : m ∈ first :: rest) :
        ∃ u, m.units = [u] ∧ m.originKeys = [u.origin] := by
      obtain ⟨u, hu⟩ := (isCandidate_iff.1 (hm m hmem).1).2
      have hunits : m.units = [u] := Job.units_of_kind_eq hu
      refine ⟨u, hunits, ?_⟩
      unfold Job.originKeys
      rw [hunits]
      rfl
    have horigin : job'.originKeys = job'.units.map (·.origin) := by
      obtain ⟨u, hu, -⟩ := hsingle List.mem_cons_self
      unfold Job.originKeys
      rw [h.units_eq, List.flatMap_cons, hu]
      rfl
    rw [horigin, h.units_eq, List.map_flatMap, List.mem_flatMap]
    refine exists_congr fun m => and_congr_right fun hmem => ?_
    obtain ⟨u, hu, hk⟩ := hsingle hmem
    rw [hu, hk]
    rfl

/-- **A job is scheduled if the jobs are that it gathers.** -/
theorem isScheduled_eq (h : p.Gathered p' place job' first rest) {m : Job}
    (hm : m ∈ first :: rest) :
    (p'.disposition job'.id).isScheduled = (p.disposition m.id).isScheduled := by
  rw [h.disposition]
  rcases h.body with ⟨rfl, -⟩ | ⟨-, hc, -⟩
  · rw [List.mem_singleton.1 hm]
  · rw [(isCandidate_iff.1 (hc m hm).1).1, (isCandidate_iff.1 (hc first List.mem_cons_self).1).1]

/-- A job compiles if the jobs do that it gathers. -/
theorem isCompile_eq (h : p.Gathered p' place job' first rest) {m : Job}
    (hm : m ∈ first :: rest) : job'.isCompile = m.isCompile := by
  rcases h.body with ⟨rfl, he⟩ | ⟨-, hc, he⟩
  · rw [List.mem_singleton.1 hm, he]
    rfl
  · rw [isCompile_of_isCandidate (hc m hm).1, he]
    rfl

/-- What does not compile is gathered alone. -/
theorem alone (h : p.Gathered p' place job' first rest) {m : Job} (hm : m ∈ first :: rest)
    (hc : m.isCompile = false) :
    m = first ∧ job' = { m with id := job'.id, prerequisites := job'.prerequisites } := by
  rcases h.body with ⟨rfl, he⟩ | ⟨-, hcandidates, -⟩
  · obtain rfl := List.mem_singleton.1 hm
    exact ⟨rfl, he⟩
  · cases hc.symm.trans (isCompile_of_isCandidate (hcandidates m hm).1)

/-- **What gathers jobs that compile inputs one by one does so too**, since the jobs compile
different inputs. -/
theorem oneByOne (h : p.Gathered p' place job' first rest)
    (hunits : ∀ m ∈ first :: rest, m.OneByOne m.units)
    (honce : ∀ m ∈ first :: rest, ∀ m' ∈ first :: rest, ∀ q,
      m.Compiles q → m'.Compiles q → m = m') : job'.OneByOne job'.units where
  kind_eq := by
    rcases h.body with ⟨-, he⟩ | ⟨-, -, he⟩
    · rw [he]
      exact (hunits first List.mem_cons_self).kind_eq
    · rw [he]
      rfl
  distinct := by
    rw [h.units_eq, List.pairwise_flatMap]
    refine ⟨fun m hm => (hunits m hm).distinct, ?_⟩
    refine h.nodup.imp_of_mem fun {m m'} hm hm' hne u hu v hv huv => hne ?_
    exact honce m hm m' hm' v.primary (((hunits m hm).compiles_iff _).2 ⟨u, hu, huv⟩)
      (((hunits m' hm').compiles_iff _).2 ⟨v, hv, Std.ReflOrd.compare_self⟩)
  compiles_iff q := by
    rw [h.compiles_iff, h.units_eq]
    simp only [List.mem_flatMap]
    constructor
    · rintro ⟨m, hm, hq⟩
      obtain ⟨u, hu, huq⟩ := ((hunits m hm).compiles_iff q).1 hq
      exact ⟨u, ⟨m, hm, hu⟩, huq⟩
    · rintro ⟨u, ⟨m, hm, hu⟩, huq⟩
      exact ⟨m, hm, ((hunits m hm).compiles_iff q).2 ⟨u, hu, huq⟩⟩

end BuildPlan.Gathered

namespace BuildPlan.Gathers

variable {p p' : BuildPlan} {place : JobId → JobId} {r : BuildRequest}

/-- Every job is gathered at its place. -/
theorem exists_gathered (h : p.Gathers p' place) {m : Job} (hm : m ∈ p.graph.jobs) :
    ∃ job' ∈ p'.graph.jobs, place m.id = job'.id ∧
      ∃ first rest, p.Gathered p' place job' first rest ∧ m ∈ first :: rest := by
  obtain ⟨job', hjob', hplace⟩ := h.placed m hm
  obtain ⟨first, rest, hgathered⟩ := h.gathered job' hjob'
  exact ⟨job', hjob', hplace, first, rest, hgathered, (hgathered.mem_iff m).2 ⟨hm, hplace⟩⟩

/-- What prepares is gathered alone. -/
theorem exists_prepares (h : p.Gathers p' place) {m : Job} (hm : m ∈ p.graph.jobs)
    (hprepares : m.Prepares) : ∃ job', p'.graph.job? (place m.id) = some job' ∧ job'.Prepares := by
  obtain ⟨job', hjob', hplace, first, rest, hgathered, hmem⟩ := h.exists_gathered hm
  obtain ⟨-, he⟩ := hgathered.alone hmem (Job.not_isCompile_of_prepares hprepares)
  refine ⟨job', h.wellFormed.job?_eq_some_iff.2 ⟨hjob', hplace.symm⟩, ?_⟩
  rw [he]
  exact hprepares

/-- What compiles, or prepares, waits for what prepares: the first of the jobs that it gathers
does. -/
theorem prepared (h : p.Gathers p' place) (hp : p.Serves r) {job' : Job}
    (hjob' : job' ∈ p'.graph.jobs) (hkind : job'.isCompile = true ∨ job'.Prepares) {q : JobId}
    (hq : q ∈ job'.prerequisites.toList) :
    ∃ before, p'.graph.job? q = some before ∧ before.Prepares := by
  obtain ⟨first, rest, hgathered⟩ := h.gathered job' hjob'
  obtain ⟨a, ha, rfl⟩ := (hgathered.mem_prerequisites q).1 hq
  have hfirst := ((hgathered.mem_iff first).1 List.mem_cons_self).1
  have hcompile : job'.isCompile = first.isCompile := hgathered.isCompile_eq List.mem_cons_self
  have hkind : first.isCompile = true ∨ first.Prepares := by
    refine hkind.imp hcompile.symm.trans fun hprepares => ?_
    obtain ⟨-, he⟩ := hgathered.alone List.mem_cons_self
      (hcompile.symm.trans (Job.not_isCompile_of_prepares hprepares))
    rw [he] at hprepares
    exact hprepares
  obtain ⟨before, hbefore, hprepares⟩ := hp.prepared first hfirst hkind a ha
  obtain ⟨hmem, rfl⟩ := hp.wellFormed.job?_eq_some_iff.1 hbefore
  exact h.exists_prepares hmem hprepares

/-- No input is compiled twice: what compiles it is gathered at one place. -/
theorem eq_of_compiles (h : p.Gathers p' place) (hp : p.Serves r) {job' other' : Job}
    (hjob' : job' ∈ p'.graph.jobs) (hother' : other' ∈ p'.graph.jobs) {q : Path}
    (hq : job'.Compiles q) (hq' : other'.Compiles q) : job' = other' := by
  obtain ⟨first, rest, hgathered⟩ := h.gathered job' hjob'
  obtain ⟨first', rest', hgathered'⟩ := h.gathered other' hother'
  obtain ⟨m, hm, hmq⟩ := (hgathered.compiles_iff q).1 hq
  obtain ⟨m', hm', hmq'⟩ := (hgathered'.compiles_iff q).1 hq'
  obtain ⟨hmem, hplace⟩ := (hgathered.mem_iff m).1 hm
  obtain ⟨hmem', hplace'⟩ := (hgathered'.mem_iff m').1 hm'
  obtain rfl := hp.once m hmem m' hmem' q hmq hmq'
  exact h.wellFormed.eq_of_id_eq hjob' hother' (hplace.symm.trans hplace')

/-- Where inputs are compiled one by one, they still are, and what is left out of the plan is
what was left out alone. -/
theorem oneByOne_units (h : p.Gathers p' place) (hp : p.Serves r) (hmode : r.mode = .perFile)
    {job' : Job} (hjob' : job' ∈ p'.graph.jobs) (hc : job'.isCompile = true) :
    job'.OneByOne job'.units ∧ (∀ u ∈ job'.units, ∃ i ∈ r.inputs, i.path = u.primary) ∧
      ((p'.disposition job'.id).isScheduled = false → ∃ u, job'.units = [u]) := by
  obtain ⟨first, rest, hgathered⟩ := h.gathered job' hjob'
  have hmembers (m : Job) (hm : m ∈ first :: rest) : m ∈ p.graph.jobs :=
    ((hgathered.mem_iff m).1 hm).1
  have hunits (m : Job) (hm : m ∈ first :: rest) := hp.oneByOne_units hmode (hmembers m hm)
    ((hgathered.isCompile_eq hm).symm.trans hc)
  refine ⟨hgathered.oneByOne (fun m hm => (hunits m hm).1) fun m hm m' hm' =>
    hp.once m (hmembers m hm) m' (hmembers m' hm'), fun u hu => ?_, fun hd => ?_⟩
  · rw [hgathered.units_eq, List.mem_flatMap] at hu
    obtain ⟨m, hm, hu⟩ := hu
    exact (hunits m hm).2.1 u hu
  · rw [hgathered.isScheduled_eq List.mem_cons_self] at hd
    rcases hgathered.body with ⟨rfl, -⟩ | ⟨-, hcandidates, -⟩
    · rw [hgathered.units_eq, List.flatMap_singleton]
      exact (hunits first List.mem_cons_self).2.2 hd
    · cases hd.symm.trans (isCandidate_iff.1 (hcandidates first List.mem_cons_self).1).1

/-- Where the inputs are compiled together, what compiles them is gathered alone. -/
theorem kind_eq_of_wholeModule (h : p.Gathers p' place) (hp : p.Serves r)
    (hmode : r.mode = .wholeModule) {job' : Job} (hjob' : job' ∈ p'.graph.jobs)
    (hc : job'.isCompile = true) : job'.kind = .compile [] true := by
  obtain ⟨first, rest, hgathered⟩ := h.gathered job' hjob'
  have hfirst := ((hgathered.mem_iff first).1 List.mem_cons_self).1
  have hkind : first.kind = .compile [] true := hp.together hmode first hfirst
    ((hgathered.isCompile_eq List.mem_cons_self).symm.trans hc)
  rcases hgathered.body with ⟨-, he⟩ | ⟨-, hcandidates, -⟩
  · rw [he]
    exact hkind
  · obtain ⟨u, hu⟩ := (isCandidate_iff.1 (hcandidates first List.mem_cons_self).1).2
    cases hu.symm.trans hkind

/-- What precompiles a header is gathered alone. -/
theorem header_of_kind_eq (h : p.Gathers p' place) (hp : p.Serves r) {job' : Job}
    (hjob' : job' ∈ p'.graph.jobs) {q : Path} (hk : job'.kind = .precompileHeader q) :
    (∃ i, r.header = some i ∧ i.path = q) ∧ ∃ a ∈ job'.inputs, a.path = q := by
  obtain ⟨first, rest, hgathered⟩ := h.gathered job' hjob'
  have hcompile : job'.isCompile = false := by
    unfold Job.isCompile
    rw [hk]
  obtain ⟨-, he⟩ := hgathered.alone List.mem_cons_self
    ((hgathered.isCompile_eq List.mem_cons_self).symm.trans hcompile)
  rw [he] at hk ⊢
  exact hp.header first ((hgathered.mem_iff first).1 List.mem_cons_self).1 q hk

/-- **What gathers the jobs of a plan serves what the plan serves.** -/
theorem serves (h : p.Gathers p' place) (hp : p.Serves r) : p'.Serves r where
  wellFormed := h.wellFormed
  prepared job' hjob' hkind q hq := h.prepared hp hjob' hkind hq
  compiled i hi := by
    obtain ⟨m, hm, hcompiles⟩ := hp.compiled i hi
    obtain ⟨job', hjob', -, first, rest, hgathered, hmem⟩ := h.exists_gathered hm
    exact ⟨job', hjob', (hgathered.compiles_iff i.path).2 ⟨m, hmem, hcompiles⟩⟩
  once job' hjob' other' hother' q hq hq' := h.eq_of_compiles hp hjob' hother' hq hq'
  oneByOne hmode job' hjob' hc := ⟨job'.units, h.oneByOne_units hp hmode hjob' hc⟩
  together hmode job' hjob' hc := h.kind_eq_of_wholeModule hp hmode hjob' hc
  sources job' hjob' q hq := by
    obtain ⟨first, rest, hgathered⟩ := h.gathered job' hjob'
    obtain ⟨m, hm, hmq⟩ := (hgathered.compiles_iff q).1 hq
    exact hp.sources m ((hgathered.mem_iff m).1 hm).1 q hmq
  header job' hjob' q hk := h.header_of_kind_eq hp hjob' hk
  headed i hi := by
    obtain ⟨m, hm, hk⟩ := hp.headed i hi
    obtain ⟨job', hjob', -, first, rest, hgathered, hmem⟩ := h.exists_gathered hm
    have hcompile : m.isCompile = false := by
      unfold Job.isCompile
      rw [hk]
    obtain ⟨-, he⟩ := hgathered.alone hmem hcompile
    refine ⟨job', hjob', ?_⟩
    rw [he]
    exact hk

/-! ## Keys -/

/-- A key that a job was planned as is that of a job which it gathers. -/
theorem exists_member (h : p.Gathers p' place)
    (hkeys : ∀ m ∈ p.graph.jobs, m.originKeys = [m.key]) {job' : Job}
    (hjob' : job' ∈ p'.graph.jobs) {key : JobKey} (hkey : key ∈ job'.originKeys) :
    ∃ m ∈ p.graph.jobs, m.key = key ∧ place m.id = job'.id := by
  obtain ⟨first, rest, hgathered⟩ := h.gathered job' hjob'
  obtain ⟨m, hm, hmkey⟩ := (hgathered.mem_originKeys_iff key).1 hkey
  obtain ⟨hmem, hplace⟩ := (hgathered.mem_iff m).1 hm
  rw [hkeys m hmem, List.mem_singleton] at hmkey
  exact ⟨m, hmem, hmkey.symm, hplace⟩

/-- **No two jobs were planned as the same.** -/
theorem eq_of_mem_originKeys (h : p.Gathers p' place)
    (hkeys : ∀ m ∈ p.graph.jobs, m.originKeys = [m.key]) (hp : p.graph.WellFormed)
    {job' other' : Job} (hjob' : job' ∈ p'.graph.jobs) (hother' : other' ∈ p'.graph.jobs)
    {key : JobKey} (hkey : key ∈ job'.originKeys) (hkey' : key ∈ other'.originKeys) :
    job' = other' := by
  obtain ⟨m, hm, hmkey, hplace⟩ := h.exists_member hkeys hjob' hkey
  obtain ⟨m', hm', hmkey', hplace'⟩ := h.exists_member hkeys hother' hkey'
  obtain rfl := hp.eq_of_key_eq hm hm' (hmkey.trans hmkey'.symm)
  exact h.wellFormed.eq_of_id_eq hjob' hother' (hplace.symm.trans hplace')

/-- **A job is done by one that was planned as it**, and scheduled with it. -/
theorem exists_gathering (h : p.Gathers p' place)
    (hkeys : ∀ m ∈ p.graph.jobs, m.originKeys = [m.key]) {m : Job} (hm : m ∈ p.graph.jobs) :
    ∃ job' ∈ p'.graph.jobs, m.key ∈ job'.originKeys ∧
      (p'.disposition job'.id).isScheduled = (p.disposition m.id).isScheduled := by
  obtain ⟨job', hjob', -, first, rest, hgathered, hmem⟩ := h.exists_gathered hm
  refine ⟨job', hjob', (hgathered.mem_originKeys_iff _).2 ⟨m, hmem, ?_⟩,
    hgathered.isScheduled_eq hmem⟩
  rw [hkeys m hm]
  exact List.mem_cons_self

/-- **A job that is not scheduled is known by its own key**: it is no batch. -/
theorem originKeys_eq (h : p.Gathers p' place)
    (hkeys : ∀ m ∈ p.graph.jobs, m.originKeys = [m.key]) {job' : Job}
    (hjob' : job' ∈ p'.graph.jobs) (hs : (p'.disposition job'.id).isScheduled = false) :
    job'.originKeys = [job'.key] := by
  obtain ⟨first, rest, hgathered⟩ := h.gathered job' hjob'
  rcases hgathered.body with ⟨-, he⟩ | ⟨-, hc, -⟩
  · have hfirst := hkeys first ((hgathered.mem_iff first).1 List.mem_cons_self).1
    rw [he]
    exact hfirst
  · have hscheduled := (isCandidate_iff.1 (hc first List.mem_cons_self).1).1
    rw [← hgathered.isScheduled_eq List.mem_cons_self, hs] at hscheduled
    cases hscheduled

end BuildPlan.Gathers

end IncrementalBuild
