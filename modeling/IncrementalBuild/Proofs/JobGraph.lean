import IncrementalBuild.JobGraph
import IncrementalBuild.Proofs.Digraph.Circles
import IncrementalBuild.Proofs.OrderedMap

/-!
# Well-formed job graphs

A job graph that was accepted, in one piece or job by job, is well formed: jobs
stand at the places of their numbers, their keys differ, and prerequisites lie
below in some ranking. A list of jobs that makes a well-formed graph is accepted,
and of all that is checked only a key that is there twice can fail where jobs stand
at their places and are ranked. In a well-formed graph the topological order lists
every job once and behind its prerequisites.
-/

namespace IncrementalBuild

/-- What is found in a result was found without an error. -/
theorem exists_eq_ok_of_toOption {ε α β : Type} {x : Except ε α} {f : α → β} {b : β}
    (h : x.toOption.map f = some b) : ∃ a, x = .ok a ∧ f a = b := by
  cases x with
  | error e => cases h
  | ok a => exact ⟨a, rfl, Option.some.inj h⟩

instance : Std.LawfulEqOrd JobKey where
  eq_of_compare {a b} h := by
    have ht : a.text = b.text := Std.LawfulEqOrd.eq_of_compare (α := String) h
    cases a
    cases b
    exact congrArg JobKey.mk ht

/-- A job that merges a module, for small graphs. -/
def Job.merging (id : JobId) (name : String) (prerequisites : List JobId) : Job :=
  { (default : Job) with
    id, key := ⟨name⟩, kind := .mergeModule name
    prerequisites := OrderedSet.ofList prerequisites }

namespace JobGraph

/-- **Well-formed graphs.** -/
structure WellFormed (g : JobGraph) : Prop where
  /-- Every job stands at the place of its number. -/
  id_eq : ∀ (i : Nat) (job : Job), g.jobs[i]? = some job → job.id = i
  nodup_keys : (g.jobs.map (·.key)).Nodup
  /-- Prerequisites are jobs, and the relation has no circle. -/
  ranked : ∃ rank : JobId → Nat, ∀ job ∈ g.jobs, ∀ p ∈ job.prerequisites.toList,
    p < g.size ∧ rank p < rank job.id

/-! ## Jobs and their numbers -/

section Lookup

variable {g : JobGraph} {id p : JobId} {job : Job}

theorem mem_of_job? (h : g.job? id = some job) : job ∈ g.jobs := List.mem_of_getElem? h

theorem lt_size_of_job? (h : g.job? id = some job) : id < g.size :=
  (List.getElem?_eq_some_iff.1 h).1

theorem exists_job?_of_lt (h : id < g.size) : ∃ job, g.job? id = some job :=
  ⟨g.jobs[id], List.getElem?_eq_getElem h⟩

theorem job?_eq_none_iff : g.job? id = none ↔ g.size ≤ id := List.getElem?_eq_none_iff

/-- A number finds the job that carries it. -/
theorem WellFormed.job?_eq_some_iff (hg : g.WellFormed) :
    g.job? id = some job ↔ job ∈ g.jobs ∧ job.id = id := by
  constructor
  · exact fun h => ⟨mem_of_job? h, hg.id_eq id job h⟩
  · rintro ⟨hmem, rfl⟩
    obtain ⟨i, hi⟩ := List.getElem?_of_mem hmem
    show g.jobs[job.id]? = some job
    rw [hg.id_eq i job hi]
    exact hi

theorem WellFormed.job?_id (hg : g.WellFormed) (h : job ∈ g.jobs) :
    g.job? job.id = some job :=
  hg.job?_eq_some_iff.2 ⟨h, rfl⟩

/-- Numbers tell the jobs of a graph apart. -/
theorem WellFormed.eq_of_id_eq (hg : g.WellFormed) {other : Job} (h : job ∈ g.jobs)
    (h' : other ∈ g.jobs) (he : job.id = other.id) : job = other := by
  have := hg.job?_id h
  rw [he, hg.job?_id h'] at this
  exact (Option.some.inj this).symm

/-- Keys tell the jobs of a graph apart. -/
theorem WellFormed.eq_of_key_eq (hg : g.WellFormed) {other : Job} (h : job ∈ g.jobs)
    (h' : other ∈ g.jobs) (he : job.key = other.key) : job = other :=
  List.inj_on_of_nodup_map hg.nodup_keys h h' he

theorem WellFormed.id_lt (hg : g.WellFormed) (h : job ∈ g.jobs) : job.id < g.size :=
  lt_size_of_job? (hg.job?_id h)

/-- The numbers of the jobs are their places. -/
theorem WellFormed.map_id (hg : g.WellFormed) : g.jobs.map (·.id) = g.ids := by
  refine List.ext_getElem? fun i => ?_
  rw [List.getElem?_map, ids, size]
  by_cases hi : i < g.jobs.length
  · rw [List.getElem?_eq_getElem hi, List.getElem?_range hi, Option.map_some,
      hg.id_eq i _ (List.getElem?_eq_getElem hi)]
  · rw [List.getElem?_eq_none (Nat.le_of_not_lt hi), List.getElem?_eq_none (by simpa using hi)]
    rfl

theorem mem_ids : id ∈ g.ids ↔ id < g.size := List.mem_range

theorem mem_prerequisitesOf :
    p ∈ g.prerequisitesOf id ↔ ∃ job, g.job? id = some job ∧ p ∈ job.prerequisites.toList := by
  unfold prerequisitesOf
  cases h : g.job? id <;> simp

/-- **Dependents are the jobs that wait for a job.** -/
theorem mem_dependentsOf {d : JobId} :
    d ∈ g.dependentsOf p ↔ ∃ job ∈ g.jobs, job.id = d ∧ p ∈ job.prerequisites.toList := by
  unfold dependentsOf
  rw [List.mem_map]
  constructor
  · rintro ⟨job, hjob, rfl⟩
    obtain ⟨hmem, hp⟩ := List.mem_filter.1 hjob
    exact ⟨job, hmem, rfl, OrderedSet.contains_iff_mem_toList.1 hp⟩
  · rintro ⟨job, hmem, rfl, hp⟩
    exact ⟨job, List.mem_filter.2 ⟨hmem, OrderedSet.contains_iff_mem_toList.2 hp⟩, rfl⟩

/-- The jobs that wait for a job stand in the order of their numbers. -/
theorem WellFormed.ascending_dependentsOf (hg : g.WellFormed) :
    (g.dependentsOf p).Pairwise (· < ·) := by
  have h : (g.jobs.map (·.id)).Pairwise (· < ·) := by
    rw [hg.map_id]
    exact List.pairwise_lt_range
  exact h.sublist (List.filter_sublist.map _)

theorem WellFormed.nodup_dependentsOf (hg : g.WellFormed) : (g.dependentsOf p).Nodup :=
  hg.ascending_dependentsOf.imp Nat.ne_of_lt

theorem WellFormed.mem_dependentsOf_iff (hg : g.WellFormed) {d : JobId} :
    d ∈ g.dependentsOf p ↔ p ∈ g.prerequisitesOf d := by
  rw [mem_dependentsOf, mem_prerequisitesOf]
  constructor
  · rintro ⟨job, hmem, rfl, hp⟩
    exact ⟨job, hg.job?_id hmem, hp⟩
  · rintro ⟨job, hjob, hp⟩
    obtain ⟨hmem, hid⟩ := hg.job?_eq_some_iff.1 hjob
    exact ⟨job, hmem, hid, hp⟩

end Lookup

theorem nodup_prerequisitesOf (g : JobGraph) (id : JobId) : (g.prerequisitesOf id).Nodup := by
  unfold prerequisitesOf
  split
  · exact OrderedSet.nodup_toList _
  · exact List.nodup_nil

/-- **A job is counted among the prerequisites of another as often as that one is
counted among its dependents.** -/
theorem WellFormed.count_prerequisitesOf {g : JobGraph} (hg : g.WellFormed) (p d : JobId) :
    (g.prerequisitesOf d).count p = (g.dependentsOf p).count d := by
  rw [(nodup_prerequisitesOf g d).count, hg.nodup_dependentsOf.count]
  simp only [hg.mem_dependentsOf_iff]

/-! ## Everything behind a job -/

section Behind

variable {g : JobGraph} {id d j : JobId}

theorem WellFormed.lt_size_of_mem_dependentsOf (hg : g.WellFormed) (h : d ∈ g.dependentsOf id) :
    d < g.size := by
  obtain ⟨job, hmem, rfl, -⟩ := mem_dependentsOf.1 h
  exact hg.id_lt hmem

/-- The jobs that wait for a job are behind it. -/
theorem WellFormed.mem_transitiveDependents (hg : g.WellFormed) (h : d ∈ g.dependentsOf id) :
    d ∈ (g.transitiveDependents id).toList :=
  OrderedSet.mem_toList_ofList.2 (mem_reachable_of_mem_stack h
    (mem_ids.2 (hg.lt_size_of_mem_dependentsOf h)))

/-- **What waits for a job behind another is behind that one too.** -/
theorem WellFormed.transitiveDependents_closed (hg : g.WellFormed)
    (h : d ∈ (g.transitiveDependents id).toList) (hj : j ∈ g.dependentsOf d) :
    j ∈ (g.transitiveDependents id).toList :=
  OrderedSet.mem_toList_ofList.2 (reachable_closed (OrderedSet.mem_toList_ofList.1 h) hj
    (mem_ids.2 (hg.lt_size_of_mem_dependentsOf hj)))

/-- A property of the jobs that wait for a job, and of those that wait for a job that
has it, is one of all jobs behind it. -/
theorem transitiveDependents_induction {P : JobId → Prop}
    (hfirst : ∀ d ∈ g.dependentsOf id, P d) (hnext : ∀ d j, P d → j ∈ g.dependentsOf d → P j) :
    ∀ d ∈ (g.transitiveDependents id).toList, P d :=
  fun d hd => reachable_induction hfirst hnext d (OrderedSet.mem_toList_ofList.1 hd)

end Behind

/-! ## Accepted graphs are well formed -/

/-- A list of checks passes when each of them does. -/
theorem forM_eq_ok_iff {α ε : Type} {l : List α} {check : α → Except ε Unit} :
    l.forM check = .ok () ↔ ∀ a ∈ l, check a = .ok () := by
  induction l with
  | nil => exact iff_of_true rfl fun a h => absurd h List.not_mem_nil
  | cons a rest ih =>
    rw [List.forall_mem_cons, ← ih]
    show (check a >>= fun _ => rest.forM check) = .ok () ↔ _
    cases check a with
    | error e => simp [bind, Except.bind]
    | ok u => simp [bind, Except.bind]

/-- What passes the check of a prerequisite is another job of the graph. -/
theorem checkPrerequisite_eq_ok_iff {key : JobKey} {id count p : Nat} :
    checkPrerequisite key id count p = .ok () ↔ p ≠ id ∧ p < count := by
  unfold checkPrerequisite
  split
  · rename_i h
    exact iff_of_false (fun e => by cases e) fun e => e.1 h
  · rename_i h
    split
    · rename_i hle
      exact iff_of_false (fun e => by cases e) fun e => Nat.not_lt.2 hle e.2
    · rename_i hle
      exact iff_of_true rfl ⟨h, Nat.lt_of_not_le hle⟩

/-- What adding a job makes of a graph. -/
theorem add_eq_ok_iff {g : JobGraph} {job : Job} {r : JobGraph × JobId} :
    g.add job = .ok r ↔
      r = (⟨g.jobs ++ [{ job with id := g.size }]⟩, g.size) ∧
        job.key ∉ g.jobs.map (·.key) ∧ ∀ p ∈ job.prerequisites.toList, p < g.size := by
  have hcheck : job.prerequisites.toList.forM (checkPrerequisite job.key g.size g.size)
      = .ok () ↔ ∀ p ∈ job.prerequisites.toList, p < g.size := by
    rw [forM_eq_ok_iff]
    refine forall₂_congr fun p _ => checkPrerequisite_eq_ok_iff.trans ?_
    exact ⟨And.right, fun h => ⟨Nat.ne_of_lt h, h⟩⟩
  unfold add
  by_cases hkey : job.key ∈ g.jobs.map (·.key)
  · simp only [if_pos hkey]
    exact iff_of_false (fun e => by cases e) fun e => e.2.1 hkey
  · simp only [if_neg hkey]
    rw [← hcheck]
    cases job.prerequisites.toList.forM (checkPrerequisite job.key g.size g.size) with
    | error e => simp [bind, Except.bind]
    | ok u => simp [bind, Except.bind, pure, Except.pure, hkey, eq_comm]

theorem wellFormed_empty : WellFormed ⟨[]⟩ where
  id_eq i job h := by simp at h
  nodup_keys := List.nodup_nil
  ranked := ⟨id, fun job h => absurd h List.not_mem_nil⟩

/-- **Adding a job keeps a graph well formed.** Ranks are numbers here. -/
theorem WellFormed.add {g g' : JobGraph} {job : Job} {id : JobId}
    (hg : g.WellFormed)
    (hlow : ∀ job ∈ g.jobs, ∀ p ∈ job.prerequisites.toList, p < job.id)
    (h : g.add job = .ok (g', id)) :
    g'.WellFormed ∧ ∀ job ∈ g'.jobs, ∀ p ∈ job.prerequisites.toList, p < job.id := by
  obtain ⟨heq, hkey, hpre⟩ := add_eq_ok_iff.1 h
  obtain ⟨rfl, rfl⟩ := Prod.mk.inj heq
  have hlow' : ∀ j ∈ g.jobs ++ [{ job with id := g.size }],
      ∀ p ∈ j.prerequisites.toList, p < j.id := by
    intro j hj p hp
    rcases List.mem_append.1 hj with hj | hj
    · exact hlow j hj p hp
    · obtain rfl := List.mem_singleton.1 hj
      exact hpre p hp
  refine ⟨⟨fun i j hij => ?_, ?_, ⟨fun p => p, fun j hj p hp => ⟨?_, hlow' j hj p hp⟩⟩⟩, hlow'⟩
  · rcases Nat.lt_or_ge i g.jobs.length with hi | hi
    · rw [List.getElem?_append_left hi] at hij
      exact hg.id_eq i j hij
    · rw [List.getElem?_append_right hi, List.getElem?_singleton] at hij
      split at hij
      · obtain rfl := Option.some.inj hij
        show g.jobs.length = i
        omega
      · cases hij
  · rw [List.map_append, List.nodup_append]
    refine ⟨hg.nodup_keys, List.nodup_singleton _, fun a ha b hb => ?_⟩
    obtain rfl : b = job.key := by simpa using hb
    exact fun hab => hkey (hab ▸ ha)
  · have hsize : g.size < (⟨g.jobs ++ [{ job with id := g.size }]⟩ : JobGraph).size := by
      simp [size]
    rcases List.mem_append.1 hj with hj | hj
    · exact ((hlow j hj p hp).trans (hg.id_lt hj)).trans hsize
    · obtain rfl := List.mem_singleton.1 hj
      exact (hpre p hp).trans hsize

/-- A job passes its check exactly if it stands at its place, has a new key and waits for other
jobs of the list. -/
theorem checkJob_eq_ok_iff {count position : Nat} {before : List JobKey} {job : Job} :
    checkJob count position before job = .ok () ↔ job.id = position ∧ job.key ∉ before ∧
      ∀ p ∈ job.prerequisites.toList, p ≠ job.id ∧ p < count := by
  have hcheck : job.prerequisites.toList.forM (checkPrerequisite job.key job.id count) = .ok () ↔
      ∀ p ∈ job.prerequisites.toList, p ≠ job.id ∧ p < count := by
    rw [forM_eq_ok_iff]
    exact forall₂_congr fun p _ => checkPrerequisite_eq_ok_iff
  unfold checkJob
  by_cases hplace : job.id = position
  · by_cases hkey : job.key ∈ before
    · rw [if_neg (not_not_intro hplace), if_pos hkey]
      exact iff_of_false (fun h => by cases h) fun h => h.2.1 hkey
    · rw [if_neg (not_not_intro hplace), if_neg hkey]
      exact ⟨fun h => ⟨hplace, hkey, hcheck.1 h⟩, fun h => hcheck.2 h.2.2⟩
  · rw [if_pos hplace]
    exact iff_of_false (fun h => by cases h) fun h => hplace h.1

/-- Jobs pass their checks one after the other. -/
theorem checkJobs_cons_eq_ok_iff {count position : Nat} {before : List JobKey} {job : Job}
    {rest : List Job} :
    checkJobs count position before (job :: rest) = .ok () ↔
      checkJob count position before job = .ok () ∧
        checkJobs count (position + 1) (job.key :: before) rest = .ok () := by
  rw [checkJobs]
  cases checkJob count position before job with
  | error e => exact iff_of_false (fun h => by cases h) fun h => by cases h.1
  | ok u => exact ⟨fun h => ⟨rfl, h⟩, And.right⟩

/-- What the check of a list of jobs finds in order. -/
theorem of_checkJobs {count position : Nat} {before : List JobKey} {jobs : List Job}
    (h : checkJobs count position before jobs = .ok ()) :
    (∀ (i : Nat) (job : Job), jobs[i]? = some job → job.id = position + i) ∧
      (∀ job ∈ jobs, job.key ∉ before) ∧ (jobs.map (·.key)).Nodup ∧
      ∀ job ∈ jobs, ∀ p ∈ job.prerequisites.toList, p ≠ job.id ∧ p < count := by
  induction jobs generalizing position before with
  | nil => simp
  | cons job rest ih =>
    obtain ⟨hjob, hrest⟩ := checkJobs_cons_eq_ok_iff.1 h
    obtain ⟨hplace, hnew, hothers⟩ := checkJob_eq_ok_iff.1 hjob
    obtain ⟨hid, hkeys, hnodup, hpre⟩ := ih hrest
    refine ⟨fun i j hij => ?_, ?_, ?_, ?_⟩
    · cases i with
      | zero =>
        obtain rfl : job = j := by simpa using hij
        exact hplace
      | succ i =>
        exact (hid i j (by simpa using hij)).trans (Nat.add_right_comm position 1 i)
    · rintro j hj
      rcases List.mem_cons.1 hj with rfl | hj
      · exact hnew
      · exact fun hb => hkeys j hj (List.mem_cons_of_mem _ hb)
    · rw [List.map_cons, List.nodup_cons]
      refine ⟨fun hmem => ?_, hnodup⟩
      obtain ⟨j, hj, hjk⟩ := List.mem_map.1 hmem
      exact hkeys j hj (by rw [hjk]; exact List.mem_cons_self)
    · intro j hj
      rcases List.mem_cons.1 hj with rfl | hj
      · exact hothers
      · exact hpre j hj

section Relation

/-- What the prerequisites of one job add to the relation. -/
theorem mem_foldl_addEdge {l : List JobId} {id : JobId} {g : Digraph JobId}
    (hg : g.Closed) :
    let r := l.foldl (fun g p => g.addEdge p id) g
    r.Closed ∧ (∀ a, a ∈ g.nodes → a ∈ r.nodes) ∧
      ∀ e, e ∈ r.edges ↔ e ∈ g.edges ∨ e.2 = id ∧ e.1 ∈ l := by
  induction l generalizing g with
  | nil => exact ⟨hg, fun a ha => ha, fun e => by simp⟩
  | cons p rest ih =>
    obtain ⟨hclosed, hnodes, hedges⟩ := ih (hg.addEdge p id)
    refine ⟨hclosed, fun a ha => hnodes a (Digraph.mem_nodes_addEdge.2 (.inr (.inr ha))),
      fun e => (hedges e).trans ?_⟩
    rw [Digraph.mem_edges_addEdge, List.mem_cons]
    constructor
    · rintro ((rfl | h) | ⟨h, h'⟩)
      · exact .inr ⟨rfl, .inl rfl⟩
      · exact .inl h
      · exact .inr ⟨h, .inr h'⟩
    · rintro (h | ⟨h, h' | h'⟩)
      · exact .inl (.inr h)
      · exact .inl (.inl (Prod.ext h' h))
      · exact .inr ⟨h, h'⟩

/-- **The relation of some jobs**: an edge from every prerequisite. -/
theorem relation_spec (jobs : List Job) :
    (relation jobs).Closed ∧ (∀ job ∈ jobs, job.id ∈ (relation jobs).nodes) ∧
      ∀ e, e ∈ (relation jobs).edges ↔
        ∃ job ∈ jobs, e.2 = job.id ∧ e.1 ∈ job.prerequisites.toList := by
  have key (l : List Job) (g : Digraph JobId) (hg : g.Closed) :
      let r := l.foldl (fun g job => job.prerequisites.toList.foldl
        (fun g p => g.addEdge p job.id) (g.addNode job.id)) g
      r.Closed ∧ (∀ a, a ∈ g.nodes ∨ (∃ job ∈ l, job.id = a) → a ∈ r.nodes) ∧
        ∀ e, e ∈ r.edges ↔ e ∈ g.edges ∨
          ∃ job ∈ l, e.2 = job.id ∧ e.1 ∈ job.prerequisites.toList := by
    induction l generalizing g with
    | nil => exact ⟨hg, fun a ha => ha.elim id (by simp), fun e => by simp⟩
    | cons job rest ih =>
      obtain ⟨hc, hn, he⟩ :=
        @mem_foldl_addEdge job.prerequisites.toList job.id _ (hg.addNode job.id)
      obtain ⟨hclosed, hnodes, hedges⟩ := ih _ hc
      refine ⟨hclosed, fun a ha => hnodes a ?_, fun e => (hedges e).trans ?_⟩
      · rcases ha with ha | ⟨j, hj, rfl⟩
        · exact .inl (hn a (Digraph.mem_nodes_addNode.2 (.inr ha)))
        · rcases List.mem_cons.1 hj with rfl | hj
          · exact .inl (hn _ (Digraph.mem_nodes_addNode.2 (.inl rfl)))
          · exact .inr ⟨j, hj, rfl⟩
      · rw [he e, Digraph.edges_addNode]
        simp only [List.mem_cons, exists_eq_or_imp, or_assoc]
  obtain ⟨hc, hn, he⟩ := key jobs Digraph.empty Digraph.closed_empty
  refine ⟨hc, fun job hjob => hn _ (.inr ⟨job, hjob, rfl⟩), fun e => (he e).trans ?_⟩
  exact ⟨fun h => h.resolve_left List.not_mem_nil, .inr⟩

end Relation

/-- **A graph that is accepted in one piece is well formed.** Ranks are places
in a topological order. -/
theorem wellFormed_of_ofJobs {jobs : List Job} {g : JobGraph} (h : ofJobs jobs = .ok g) :
    g.WellFormed := by
  have hjobs := jobs_of_ofJobs h
  unfold ofJobs at h
  cases hc : checkJobs jobs.length 0 [] jobs with
  | error e =>
    rw [hc] at h
    cases h
  | ok u =>
    rw [hc] at h
    cases ht : (relation jobs).toposort with
    | error id =>
      simp only [ht] at h
      cases h
    | ok order =>
      obtain ⟨hid, -, hkeys, hpre⟩ := of_checkJobs hc
      obtain ⟨-, hnode, hedge⟩ := relation_spec jobs
      refine ⟨fun i job hi => ?_, by rw [hjobs]; exact hkeys, ⟨(order.idxOf ·), ?_⟩⟩
      · rw [hjobs] at hi
        rw [hid i job hi, Nat.zero_add]
      · intro job hjob p hp
        rw [hjobs] at hjob
        obtain ⟨hne, hlt⟩ := hpre job hjob p hp
        refine ⟨by rw [size, hjobs]; exact hlt, ?_⟩
        exact Digraph.idxOf_lt_of_toposort ht ((hedge _).2 ⟨job, hjob, rfl, hp⟩)
          (hnode job hjob) hne

/-- What is accepted as it stands is well formed. -/
theorem wellFormed_of_isOk {g : JobGraph} (h : (ofJobs g.jobs).isOk = true) : g.WellFormed := by
  cases hg : ofJobs g.jobs with
  | error e =>
    rw [hg] at h
    cases h
  | ok g' =>
    obtain rfl : g' = g := congrArg mk (jobs_of_ofJobs hg)
    exact wellFormed_of_ofJobs hg

/-! ## Graphs that are accepted -/

/-- **Graphs that are well formed but for their keys.** -/
structure Arranged (g : JobGraph) : Prop where
  /-- Every job stands at the place of its number. -/
  id_eq : ∀ (i : Nat) (job : Job), g.jobs[i]? = some job → job.id = i
  ranked : ∃ rank : JobId → Nat, ∀ job ∈ g.jobs, ∀ p ∈ job.prerequisites.toList,
    p < g.size ∧ rank p < rank job.id

theorem WellFormed.arranged {g : JobGraph} (h : g.WellFormed) : g.Arranged := ⟨h.id_eq, h.ranked⟩

/-- The relation of some jobs has each of its nodes once. -/
theorem nodup_nodes_relation (jobs : List Job) : (relation jobs).nodes.Nodup := by
  have hedges (l : List JobId) (id : JobId) (g : Digraph JobId) (hg : g.nodes.Nodup) :
      (l.foldl (fun g p => g.addEdge p id) g).nodes.Nodup := by
    induction l generalizing g with
    | nil => exact hg
    | cons p rest ih => exact ih _ (Digraph.nodup_nodes_addEdge hg p id)
  have key (l : List Job) (g : Digraph JobId) (hg : g.nodes.Nodup) :
      (l.foldl (fun g job => job.prerequisites.toList.foldl (fun g p => g.addEdge p job.id)
        (g.addNode job.id)) g).nodes.Nodup := by
    induction l generalizing g with
    | nil => exact hg
    | cons job rest ih => exact ih _ (hedges _ _ _ (Digraph.nodup_nodes_addNode hg job.id))
  exact key jobs Digraph.empty List.nodup_nil

/-- **Only a key that is there twice is found fault with** in jobs that stand at their places
and wait for others. -/
theorem checkJobs_cases {count : Nat} {jobs : List Job} (position : Nat)
    (before : List JobKey)
    (hid : ∀ (i : Nat) (job : Job), jobs[i]? = some job → job.id = position + i)
    (hpre : ∀ job ∈ jobs, ∀ p ∈ job.prerequisites.toList, p ≠ job.id ∧ p < count) :
    checkJobs count position before jobs = .ok () ∨
      ∃ l job r, jobs = l ++ job :: r ∧ (job.key ∈ before ∨ job.key ∈ l.map (·.key)) ∧
        checkJobs count position before jobs = .error (.duplicateJob job.key.text) := by
  induction jobs generalizing position before with
  | nil => exact .inl rfl
  | cons job rest ih =>
    have hposition : job.id = position := hid 0 job rfl
    -- The head is the first job that could be at fault, and its key is all that can be wrong
    -- with it.
    by_cases hbefore : job.key ∈ before
    · refine .inr ⟨[], job, rest, rfl, .inl hbefore, ?_⟩
      unfold checkJobs checkJob
      rw [if_neg (not_not_intro hposition), if_pos hbefore]
      rfl
    · have hjob : checkJob count position before job = .ok () :=
        checkJob_eq_ok_iff.2 ⟨hposition, hbefore, hpre job List.mem_cons_self⟩
      have hstep : checkJobs count position before (job :: rest)
          = checkJobs count (position + 1) (job.key :: before) rest := by
        conv_lhs => unfold checkJobs
        rw [hjob]
        rfl
      rw [hstep]
      rcases ih (position + 1) (job.key :: before)
          (fun i other h => (hid (i + 1) other h).trans (Nat.add_right_comm position i 1))
          fun other hother => hpre other (List.mem_cons_of_mem _ hother) with
        hok | ⟨l, other, r, rfl, hkey, herror⟩
      · exact .inl hok
      · refine .inr ⟨job :: l, other, r, rfl, ?_, herror⟩
        rw [List.map_cons]
        rcases hkey with hkey | hkey
        · rcases List.mem_cons.1 hkey with hkey | hkey
          · exact .inr (hkey ▸ List.mem_cons_self)
          · exact .inl hkey
        · exact .inr (List.mem_cons_of_mem _ hkey)

/-- **An arranged graph is accepted, or a key is there twice**, and then it is refused on that
account. -/
theorem Arranged.ofJobs_cases {g : JobGraph} (hg : g.Arranged) :
    ofJobs g.jobs = .ok g ∨ ∃ l job r, g.jobs = l ++ job :: r ∧ job.key ∈ l.map (·.key) ∧
      ofJobs g.jobs = .error (.duplicateJob job.key.text) := by
  obtain ⟨rank, hrank⟩ := hg.ranked
  have hpre : ∀ job ∈ g.jobs, ∀ p ∈ job.prerequisites.toList,
      p ≠ job.id ∧ p < g.jobs.length := by
    intro job hjob p hp
    obtain ⟨hlt, hless⟩ := hrank job hjob p hp
    exact ⟨fun he => absurd (he ▸ hless) (Nat.lt_irrefl _), hlt⟩
  rcases checkJobs_cases 0 []
      (fun i job h => (hg.id_eq i job h).trans (Nat.zero_add i).symm) hpre with
    hok | ⟨l, job, r, hjobs, hkey, herror⟩
  · obtain ⟨hclosed, -, hedges⟩ := relation_spec g.jobs
    have hranked : (relation g.jobs).Ranked rank := by
      intro e he
      obtain ⟨job, hjob, hid, hp⟩ := (hedges e).1 he
      rw [hid]
      exact (hrank job hjob _ hp).2
    obtain ⟨order, horder⟩ :=
      Digraph.exists_toposort_of_ranked hclosed (nodup_nodes_relation g.jobs) hranked
    refine .inl ?_
    unfold ofJobs
    rw [hok]
    simp only [bind, Except.bind, horder]
    rfl
  · refine .inr ⟨l, job, r, hjobs, hkey.resolve_left List.not_mem_nil, ?_⟩
    unfold ofJobs
    rw [herror]
    rfl

/-- **A list of jobs is accepted exactly if its graph is well formed.** -/
theorem ofJobs_eq_ok_iff {g : JobGraph} : ofJobs g.jobs = .ok g ↔ g.WellFormed := by
  refine ⟨wellFormed_of_ofJobs, fun h => h.arranged.ofJobs_cases.resolve_right ?_⟩
  rintro ⟨l, job, r, hjobs, hkey, -⟩
  have hkeys := h.nodup_keys
  rw [hjobs, List.map_append, List.map_cons] at hkeys
  exact List.disjoint_of_nodup_append hkeys hkey List.mem_cons_self

/-! ## The topological order -/

namespace Countdown

/-- **What holds at any time of putting the jobs in order**: the counts and the
ready jobs are what the list of jobs so far makes them, and every job of that
list has its prerequisites behind it. -/
structure Fits (g : JobGraph) (o : Countdown) : Prop where
  count : ∀ job ∈ g.jobs,
    o.remaining.getD job.id 0 = job.prerequisites.toList.countP (· ∉ o.listed)
  ready : ∀ id, o.ready.contains id = true ↔
    id ∉ o.listed ∧ ∃ job, g.job? id = some job ∧ ∀ p ∈ job.prerequisites.toList, p ∈ o.listed
  nodup : o.listed.Nodup
  known : ∀ id ∈ o.listed, id < g.size
  behind : ∀ l id r, o.listed = l ++ id :: r → ∀ p ∈ g.prerequisitesOf id, p ∈ r

/-- Releasing a job takes its count down, and no other. -/
theorem remaining_release (o : Countdown) (a id : JobId) :
    (o.release a).remaining.getD id 0
      = if id = a then o.remaining.getD a 0 - 1 else o.remaining.getD id 0 := by
  show (o.remaining.set a _).getD id 0 = _
  rw [List.getD_eq_getElem?_getD, List.getElem?_set, List.getD_eq_getElem?_getD,
    List.getD_eq_getElem?_getD]
  by_cases hid : a = id
  · subst hid
    by_cases hlt : a < o.remaining.length
    · simp [hlt]
    · simp [hlt]
  · rw [if_neg hid, if_neg (Ne.symm hid)]

/-- Releasing a job makes it ready where its count comes to zero. -/
theorem ready_release (o : Countdown) (a id : JobId) :
    (o.release a).ready.contains id = true ↔
      o.ready.contains id = true ∨ id = a ∧ o.remaining.getD a 0 - 1 = 0 := by
  unfold release
  dsimp only
  split
  · rename_i hz
    rw [OrderedSet.contains_add, Bool.or_eq_true, beq_iff_eq, Std.compare_eq_iff_eq]
    constructor
    · rintro (rfl | h)
      · exact .inr ⟨rfl, hz⟩
      · exact .inl h
    · rintro (h | ⟨rfl, -⟩)
      · exact .inr h
      · exact .inl rfl
  · rename_i hz
    exact ⟨.inl, fun h => h.resolve_right fun h => hz h.2⟩

/-- What releasing some jobs changes: their counts go down by one, and those that
reach zero are ready. -/
theorem foldl_release {ids : List JobId} (hn : ids.Nodup) (o : Countdown) :
    (ids.foldl release o).listed = o.listed ∧
      (∀ id, (ids.foldl release o).remaining.getD id 0
        = if id ∈ ids then o.remaining.getD id 0 - 1 else o.remaining.getD id 0) ∧
      ∀ id, (ids.foldl release o).ready.contains id = true ↔
        o.ready.contains id = true ∨ id ∈ ids ∧ o.remaining.getD id 0 - 1 = 0 := by
  induction ids generalizing o with
  | nil => exact ⟨rfl, fun id => by simp, fun id => by simp⟩
  | cons a rest ih =>
    obtain ⟨ha, hrest⟩ := List.nodup_cons.1 hn
    obtain ⟨hlisted, hremaining, hready⟩ := ih hrest (o.release a)
    refine ⟨hlisted, fun id => ?_, fun id => ?_⟩
    · rw [List.foldl_cons, hremaining, remaining_release]
      by_cases hid : id = a
      · subst hid
        simp [ha]
      · simp [hid]
    · rw [List.foldl_cons, hready, ready_release, remaining_release, List.mem_cons]
      by_cases hid : id = a
      · subst hid
        simp [ha]
      · simp [hid]

theorem fits_start {g : JobGraph} (hg : g.WellFormed) : (start g).Fits g where
  count job hjob := by
    show ((g.jobs.map (·.prerequisites.size)).getD job.id 0) = _
    rw [List.getD_eq_getElem?_getD, List.getElem?_map]
    have : g.jobs[job.id]? = some job := hg.job?_id hjob
    rw [this]
    show job.prerequisites.entries.length = _
    rw [List.countP_eq_length.2 fun p _ => by simp [start]]
    exact (List.length_map _).symm
  ready id := by
    show (OrderedSet.ofList _).contains id = true ↔ id ∉ [] ∧ _
    rw [OrderedSet.contains_iff_mem_toList, OrderedSet.mem_toList_ofList, List.mem_map]
    have hempty (job : Job) : job.prerequisites.isEmpty = true ↔
        ∀ p ∈ job.prerequisites.toList, p ∈ ([] : List JobId) := by
      have hnil : (∀ p ∈ job.prerequisites.toList, p ∈ ([] : List JobId)) ↔
          job.prerequisites.toList = [] := by
        simp [List.eq_nil_iff_forall_not_mem]
      rw [hnil]
      exact List.isEmpty_iff.trans (List.map_eq_nil_iff (f := Prod.fst)).symm
    constructor
    · rintro ⟨job, hjob, rfl⟩
      obtain ⟨hmem, hnone⟩ := List.mem_filter.1 hjob
      exact ⟨List.not_mem_nil, job, hg.job?_id hmem, (hempty job).1 hnone⟩
    · rintro ⟨-, job, hjob, hnone⟩
      obtain ⟨hmem, hid⟩ := hg.job?_eq_some_iff.1 hjob
      exact ⟨job, List.mem_filter.2 ⟨hmem, (hempty job).2 hnone⟩, hid⟩
  nodup := List.nodup_nil
  known id h := absurd h List.not_mem_nil
  behind l id r h := absurd h (by simp [start])

/-- What is not listed, before and after one more is. -/
theorem countP_notMem_cons {l listed : List JobId} (hn : l.Nodup) {a : JobId}
    (ha : a ∉ listed) :
    l.countP (· ∉ a :: listed) + (if a ∈ l then 1 else 0) = l.countP (· ∉ listed) := by
  induction l with
  | nil => rfl
  | cons b rest ih =>
    obtain ⟨hb, hrest⟩ := List.nodup_cons.1 hn
    have ih := ih hrest
    rw [List.countP_cons, List.countP_cons]
    by_cases hab : a = b
    · subst hab
      rw [if_neg hb] at ih
      have hin : decide (a ∉ a :: listed) = false := by simp
      have hout : decide (a ∉ listed) = true := by simpa using ha
      rw [hin, hout, if_pos List.mem_cons_self]
      exact congrArg (· + 1) ih
    · have hba : b ≠ a := Ne.symm hab
      simp only [List.mem_cons, hab, hba, false_or] at ih ⊢
      omega

/-- **What a step of the countdown does.** It lists the smallest of the jobs that are ready, its
dependents wait for one job less, and those of them that wait for no more are ready. -/
theorem of_step {g : JobGraph} (hg : g.WellFormed) {o o' : Countdown} (h : o.step g = some o') :
    ∃ id, o.ready.contains id = true ∧ (∀ other, o.ready.contains other = true → id ≤ other) ∧
      o'.listed = id :: o.listed ∧
      (∀ j, o'.remaining.getD j 0 = if j ∈ g.dependentsOf id then o.remaining.getD j 0 - 1
        else o.remaining.getD j 0) ∧
      ∀ j, o'.ready.contains j = true ↔ (o.ready.erase id).contains j = true ∨
        j ∈ g.dependentsOf id ∧ o.remaining.getD j 0 - 1 = 0 := by
  unfold Countdown.step at h
  split at h
  · cases h
  · rename_i id rest hready
    obtain ⟨hlisted, hremaining, hadd⟩ := foldl_release (hg.nodup_dependentsOf (p := id))
      { o with ready := o.ready.erase id, listed := id :: o.listed }
    rw [Option.some.inj h] at hlisted hremaining hadd
    have hascending : (id :: rest).Pairwise fun a b => compare a b = .lt :=
      hready ▸ o.ready.ascending_toList
    refine ⟨id, OrderedSet.contains_iff_mem_toList.2 (hready ▸ List.mem_cons_self), fun b hb => ?_,
      hlisted, hremaining, hadd⟩
    have hb : b ∈ id :: rest := hready ▸ OrderedSet.contains_iff_mem_toList.1 hb
    rcases List.mem_cons.1 hb with rfl | hb
    · exact Nat.le_refl _
    · exact Nat.le_of_lt (Nat.compare_eq_lt.1 (List.rel_of_pairwise_cons hascending hb))

section Step

variable {g : JobGraph} {o o' : Countdown} {job : Job}

/-- Only the jobs that wait for the listed one have a prerequisite less to wait for. -/
theorem Fits.count_of_listed (hg : g.WellFormed) (ho : o.Fits g) (hnew : job.id ∉ o.listed)
    (hlisted : o'.listed = job.id :: o.listed)
    (hremaining : ∀ j, o'.remaining.getD j 0 = if j ∈ g.dependentsOf job.id
      then o.remaining.getD j 0 - 1 else o.remaining.getD j 0) {j : Job} (hj : j ∈ g.jobs) :
    o'.remaining.getD j.id 0 = j.prerequisites.toList.countP (· ∉ o'.listed) := by
  rw [hremaining, hlisted, ho.count j hj,
    ← countP_notMem_cons (OrderedSet.nodup_toList j.prerequisites) hnew]
  have hd : j.id ∈ g.dependentsOf job.id ↔ job.id ∈ j.prerequisites.toList := by
    rw [hg.mem_dependentsOf_iff, mem_prerequisitesOf, hg.job?_id hj]
    simp
  by_cases hdep : job.id ∈ j.prerequisites.toList
  · rw [if_pos (hd.2 hdep), if_pos hdep, Nat.add_sub_cancel]
  · rw [if_neg (mt hd.1 hdep), if_neg hdep, Nat.add_zero]

/-- A job that has become ready waited for the listed one alone, and was not listed before: a
job is listed behind what it waits for. -/
theorem Fits.ready_of_listed (hg : g.WellFormed) (ho : o.Fits g) (hnew : job.id ∉ o.listed)
    (hlisted : o'.listed = job.id :: o.listed)
    (hwait : ∀ j ∈ g.jobs, job.id ∈ j.prerequisites.toList →
      (o.remaining.getD j.id 0 - 1 = 0 ↔ ∀ p ∈ j.prerequisites.toList, p ∈ o'.listed))
    (hadd : ∀ j, o'.ready.contains j = true ↔ (o.ready.erase job.id).contains j = true ∨
      j ∈ g.dependentsOf job.id ∧ o.remaining.getD j 0 - 1 = 0) (id : JobId) :
    o'.ready.contains id = true ↔ id ∉ o'.listed ∧
      ∃ j, g.job? id = some j ∧ ∀ p ∈ j.prerequisites.toList, p ∈ o'.listed := by
  rw [hadd, OrderedMap.contains_erase, Bool.and_eq_true, bne_iff_ne, ne_eq,
    Std.compare_eq_iff_eq, ho.ready id]
  rw [hlisted] at hwait ⊢
  constructor
  · rintro (⟨hne, hnot, j, hj, hall⟩ | ⟨hdep, hz⟩)
    · exact ⟨fun hc => (List.mem_cons.1 hc).elim (fun e => hne e.symm) hnot, j, hj,
        fun p hp => List.mem_cons_of_mem _ (hall p hp)⟩
    · obtain ⟨j, hj, rfl, hp⟩ := mem_dependentsOf.1 hdep
      refine ⟨fun hc => ?_, j, hg.job?_id hj, (hwait j hj hp).1 hz⟩
      obtain ⟨rank, hrank⟩ := hg.ranked
      rcases List.mem_cons.1 hc with he | hc
      · exact Nat.lt_irrefl _ (he ▸ (hrank j hj _ hp).2)
      · obtain ⟨l, r, hl⟩ := List.append_of_mem hc
        have := ho.behind l _ r hl _ (mem_prerequisitesOf.2 ⟨j, hg.job?_id hj, hp⟩)
        exact hnew (hl ▸ List.mem_append_right l (List.mem_cons_of_mem _ this))
  · rintro ⟨hnot, j, hj, hall⟩
    obtain ⟨hjmem, rfl⟩ := hg.job?_eq_some_iff.1 hj
    rw [List.mem_cons, not_or] at hnot
    by_cases hdep : job.id ∈ j.prerequisites.toList
    · exact .inr ⟨mem_dependentsOf.2 ⟨j, hjmem, rfl, hdep⟩, (hwait j hjmem hdep).2 hall⟩
    · exact .inl ⟨Ne.symm hnot.1, hnot.2, j, hj, fun p hp =>
        (List.mem_cons.1 (hall p hp)).resolve_left fun e => hdep (e ▸ hp)⟩

/-- **Listing a job keeps everything fitting.** -/
theorem Fits.step (hg : g.WellFormed) (ho : o.Fits g) (h : o.step g = some o') :
    o'.Fits g ∧ o'.listed.length = o.listed.length + 1 := by
  obtain ⟨id, hready, -, hlisted, hremaining, hadd⟩ := of_step hg h
  obtain ⟨hnew, job, hjob, hpre⟩ := (ho.ready id).1 hready
  obtain ⟨hmem, rfl⟩ := hg.job?_eq_some_iff.1 hjob
  have hcount (j : Job) (hj : j ∈ g.jobs) :
      o'.remaining.getD j.id 0 = j.prerequisites.toList.countP (· ∉ o'.listed) :=
    ho.count_of_listed hg hnew hlisted hremaining hj
  have hwait (j : Job) (hj : j ∈ g.jobs) (hp : job.id ∈ j.prerequisites.toList) :
      o.remaining.getD j.id 0 - 1 = 0 ↔ ∀ p ∈ j.prerequisites.toList, p ∈ o'.listed := by
    have h := hremaining j.id
    rw [if_pos (mem_dependentsOf.2 ⟨j, hj, rfl, hp⟩), hcount j hj] at h
    rw [← h, List.countP_eq_zero]
    simp
  refine ⟨⟨hcount, ho.ready_of_listed hg hnew hlisted hwait hadd, ?_, ?_, ?_⟩,
    by rw [hlisted]; rfl⟩
  · rw [hlisted]
    exact List.nodup_cons.2 ⟨hnew, ho.nodup⟩
  · rw [hlisted]
    exact List.forall_mem_cons.2 ⟨hg.id_lt hmem, ho.known⟩
  · rw [hlisted]
    intro l id r hl p hp
    cases l with
    | nil =>
      obtain ⟨rfl, rfl⟩ : job.id = id ∧ o.listed = r := by simpa using hl
      obtain ⟨j, hj, hp⟩ := mem_prerequisitesOf.1 hp
      rw [hg.job?_id hmem] at hj
      obtain rfl := Option.some.inj hj
      exact hpre p hp
    | cons c l =>
      have hl : o.listed = l ++ id :: r := (List.cons.inj hl).2
      exact ho.behind l id r hl p hp

end Step

/-- Where no job is ready, all are listed: the first in the ranking of those that
are not would be ready. -/
theorem Fits.all_listed {g : JobGraph} (hg : g.WellFormed) {o : Countdown} (ho : o.Fits g)
    (h : o.step g = none) {id : JobId} (hid : id < g.size) : id ∈ o.listed := by
  have hnone : o.ready.toList = [] := by
    unfold Countdown.step at h
    split at h
    · assumption
    · cases h
  obtain ⟨rank, hrank⟩ := hg.ranked
  by_contra hnot
  induction hr : rank id using Nat.strong_induction_on generalizing id with
  | _ n ih =>
    obtain ⟨job, hjob⟩ := exists_job?_of_lt hid
    obtain ⟨hmem, rfl⟩ := hg.job?_eq_some_iff.1 hjob
    have hready : o.ready.contains job.id = true := by
      refine (ho.ready job.id).2 ⟨hnot, job, hjob, fun p hp => ?_⟩
      by_contra hp'
      obtain ⟨hlt, hless⟩ := hrank job hmem p hp
      exact ih (rank p) (hr ▸ hless) hlt hp' rfl
    have := OrderedSet.contains_iff_mem_toList.1 hready
    rw [hnone] at this
    exact List.not_mem_nil this

/-- However many steps are made, everything fits. -/
theorem Fits.advance {g : JobGraph} (hg : g.WellFormed) (n : Nat) {o : Countdown}
    (ho : o.Fits g) : (advance g n o).Fits g := by
  induction n generalizing o with
  | zero => exact ho
  | succ n ih =>
    unfold Countdown.advance
    split
    · exact ho
    · rename_i o' hstep
      exact ih (ho.step hg hstep).1

/-- After as many steps as there are jobs all of them are listed. -/
theorem Fits.all_listed_advance {g : JobGraph} (hg : g.WellFormed) (n : Nat) {o : Countdown}
    (ho : o.Fits g) (hn : g.size ≤ n + o.listed.length) :
    ∀ id < g.size, id ∈ (Countdown.advance g n o).listed := by
  induction n generalizing o with
  | zero =>
    intro id hid
    have hsub : o.listed ⊆ g.ids := fun a ha => mem_ids.2 (ho.known a ha)
    have hlen : g.ids.length ≤ o.listed.length := by
      rw [ids, List.length_range]
      omega
    exact (ho.nodup.subperm hsub).perm_of_length_le hlen |>.mem_iff.2 (mem_ids.2 hid)
  | succ n ih =>
    unfold Countdown.advance
    split
    · rename_i hnone
      exact fun id hid => ho.all_listed hg hnone hid
    · rename_i o' hstep
      obtain ⟨ho', hlen⟩ := ho.step hg hstep
      exact ih ho' (by omega)

end Countdown

section Order

variable {g : JobGraph}

/-- **The topological order lists every job.** -/
theorem WellFormed.mem_topologicalOrder (hg : g.WellFormed) {id : JobId} :
    id ∈ g.topologicalOrder ↔ id < g.size := by
  have hstart := Countdown.fits_start hg
  exact List.mem_reverse.trans ⟨(hstart.advance hg g.size).known id,
    hstart.all_listed_advance hg g.size (Nat.le_add_right _ _) id⟩

theorem WellFormed.nodup_topologicalOrder (hg : g.WellFormed) : g.topologicalOrder.Nodup :=
  List.nodup_reverse.2 ((Countdown.fits_start hg).advance hg g.size).nodup

/-- **The topological order lists a job behind its prerequisites.** -/
theorem WellFormed.mem_of_topologicalOrder_eq (hg : g.WellFormed) {l r : List JobId}
    {id p : JobId} (h : g.topologicalOrder = l ++ id :: r) (hp : p ∈ g.prerequisitesOf id) :
    p ∈ l := by
  have hfits := (Countdown.fits_start hg).advance hg g.size
  have hlisted : (Countdown.advance g g.size (Countdown.start g)).listed
      = r.reverse ++ id :: l.reverse := by
    rw [← List.reverse_reverse (Countdown.listed _)]
    exact (congrArg List.reverse h).trans (by simp)
  exact List.mem_reverse.1 (hfits.behind _ id _ hlisted p hp)

/-- In topological order no job stands before one of its prerequisites. -/
theorem WellFormed.pairwise_topologicalOrder (hg : g.WellFormed) :
    g.topologicalOrder.Pairwise fun a b => b ∉ g.prerequisitesOf a := by
  rw [List.pairwise_iff_getElem]
  intro i j hi hj hij hmem
  have hsplit : g.topologicalOrder
      = g.topologicalOrder.take i ++ g.topologicalOrder[i] :: g.topologicalOrder.drop (i + 1) := by
    rw [← List.drop_eq_getElem_cons hi, List.take_append_drop]
  obtain ⟨k, hk, heq⟩ := List.mem_iff_getElem.1 (hg.mem_of_topologicalOrder_eq hsplit hmem)
  rw [List.getElem_take] at heq
  have hki : k < i := Nat.lt_of_lt_of_le hk (List.length_take_le _ _)
  have := hg.nodup_topologicalOrder.getElem_inj_iff.1 heq
  omega

end Order

end JobGraph

end IncrementalBuild
