import IncrementalBuild.Proofs.JobGraph.Acceptance
import IncrementalBuild.Proofs.JobGraph.LeastOrder

/-!
# The jobs behind a job

The jobs that wait for a job are read off a table with a list for each job. The table is filled as
the jobs come: each of them enters itself in the lists of its prerequisites, and in the end every
list is sorted. The jobs come in the order of their numbers and name no prerequisite twice, so each
list has its jobs once, and in order before it is sorted.

Everything behind a job is searched for with a stack. A job is put there as often as a job that it
waits for is met, whether it was met before or not, so the stack may grow at a step, and the search
does not end for the reason that the graph has no circle. It ends because only a job that was not
met yet brings others with it, which is what bounds `reachable`: step by step, the search does what
`reachable` does. That there is no circle is needed for one thing only, that no job is behind
itself.
-/

namespace IncrementalBuild.JobGraph

/-! ## The table -/

/-- Enters a job in the lists of its prerequisites. -/
def enter (table : List (List JobId)) (job : Job) : List (List JobId) :=
  job.prerequisites.toList.foldl (fun table p => table.modify p (· ++ [job.id])) table

/-- **For every job the jobs that wait for it**: all jobs are entered, and the lists sorted. -/
def dependentTable (jobs : List Job) : List (List JobId) :=
  (jobs.foldl enter (List.replicate jobs.length [])).map (·.mergeSort (· ≤ ·))

/-- A job is put at the end of the lists that it is entered in, and of no other. -/
theorem getElem?_foldl_modify {ps : List JobId} (hn : ps.Nodup) (id q : JobId)
    (table : List (List JobId)) :
    (ps.foldl (fun table p => table.modify p (· ++ [id])) table)[q]?
      = table[q]?.map (· ++ if q ∈ ps then [id] else []) := by
  induction ps generalizing table with
  | nil => simp
  | cons p rest ih =>
    obtain ⟨hp, hrest⟩ := List.nodup_cons.1 hn
    rw [List.foldl_cons, ih hrest, List.getElem?_modify]
    cases table[q]? with
    | none => rfl
    | some list =>
      by_cases hq : p = q
      · subst hq
        simp [hp]
      · simp [hq, Ne.symm hq]

/-- **A list holds the jobs that were entered in it**, in the order in which they came. -/
theorem getElem?_foldl_enter (jobs : List Job) (q : JobId) (table : List (List JobId)) :
    (jobs.foldl enter table)[q]?
      = table[q]?.map (· ++ (jobs.filter (·.prerequisites.contains q)).map (·.id)) := by
  induction jobs generalizing table with
  | nil => simp
  | cons job rest ih =>
    rw [List.foldl_cons, ih, enter, getElem?_foldl_modify (OrderedSet.nodup_toList _),
      List.filter_cons]
    cases table[q]? with
    | none => rfl
    | some list =>
      by_cases hq : q ∈ job.prerequisites.toList
      · simp [hq, OrderedSet.contains_iff_mem_toList.2 hq]
      · simp [hq, mt OrderedSet.contains_iff_mem_toList.1 hq]

section Table

variable {g : JobGraph} {p : JobId}

theorem WellFormed.dependentsOf_of_size_le (hg : g.WellFormed) (h : g.size ≤ p) :
    g.dependentsOf p = [] := by
  rw [List.eq_nil_iff_forall_not_mem]
  intro d hd
  obtain ⟨job, hjob, -, hp⟩ := mem_dependentsOf.1 hd
  obtain ⟨rank, hrank⟩ := hg.ranked
  exact Nat.not_lt.2 h (hrank job hjob p hp).1

/-- **The table tells of every number which jobs wait for the job of that number.** -/
theorem WellFormed.getD_dependentTable (hg : g.WellFormed) (p : JobId) :
    (dependentTable g.jobs).getD p [] = g.dependentsOf p := by
  have hsorted : (g.dependentsOf p).mergeSort (· ≤ ·) = g.dependentsOf p :=
    List.mergeSort_of_pairwise
      (hg.ascending_dependentsOf.imp fun h => decide_eq_true (Nat.le_of_lt h))
  rw [dependentTable, List.getD_eq_getElem?_getD, List.getElem?_map, getElem?_foldl_enter,
    List.getElem?_replicate]
  by_cases hp : p < g.jobs.length
  · rw [if_pos hp]
    exact hsorted
  · rw [if_neg hp]
    exact (hg.dependentsOf_of_size_le (Nat.le_of_not_lt hp)).symm

end Table

/-! ## The search -/

/-- How far a search for everything behind a job has come. -/
structure Search where
  /-- The jobs met so far. -/
  seen : OrderedSet JobId
  /-- What is still to be looked at, the job that comes next first. -/
  stack : List JobId

namespace Search

/-- The beginning: the jobs that wait for a job are on the stack, the last one on top. -/
def start (g : JobGraph) (id : JobId) : Search := ⟨∅, (g.dependentsOf id).reverse⟩

/-- Takes a job from the stack. One that is met for the first time is noted, and the jobs that wait
for it are put on the stack. -/
def step (g : JobGraph) (s : Search) : Option Search :=
  match s.stack with
  | [] => none
  | id :: rest =>
    some (if s.seen.contains id then { s with stack := rest }
      else { seen := s.seen.add id, stack := (g.dependentsOf id).reverse ++ rest })

/-- Makes at most so many steps. -/
def advance (g : JobGraph) : Nat → Search → Search
  | 0, s => s
  | n + 1, s =>
    match s.step g with
    | none => s
    | some next => advance g n next

variable {g : JobGraph} {seen : OrderedSet JobId} {id : JobId} {rest : List JobId}

theorem advance_succ_of_step {s next : Search} (h : s.step g = some next) (n : Nat) :
    s.advance g (n + 1) = next.advance g n := by
  rw [advance, h]

/-- A job that was met before is passed over. -/
theorem step_of_seen (h : id ∈ seen.toList) : step g ⟨seen, id :: rest⟩ = some ⟨seen, rest⟩ :=
  congrArg some (if_pos (OrderedSet.contains_iff_mem_toList.2 h))

/-- A job that was not met before brings the jobs that wait for it. -/
theorem step_of_new (h : id ∉ seen.toList) :
    step g ⟨seen, id :: rest⟩ = some ⟨seen.add id, (g.dependentsOf id).reverse ++ rest⟩ :=
  congrArg some (if_neg (mt OrderedSet.contains_iff_mem_toList.1 h))

/-- **A search comes to its end**, whatever it has met already, and what it meets on the way is what
can be reached within the jobs that are not met yet. Each step is one of `reachable`. -/
theorem exists_advance_eq (hg : g.WellFormed) {unseen stack : List JobId} (hn : unseen.Nodup)
    (hunseen : ∀ a, a ∈ unseen ↔ a < g.size ∧ a ∉ seen.toList)
    (hstack : ∀ a ∈ stack, a < g.size) :
    ∃ n, advance g n ⟨seen, stack⟩
      = ⟨(reachable (fun a => (g.dependentsOf a).reverse) unseen stack).foldl .add seen, []⟩ := by
  fun_induction reachable (fun a => (g.dependentsOf a).reverse) unseen stack generalizing seen with
  | case1 unseen => exact ⟨0, rfl⟩
  | case2 unseen a rest ha ih =>
    obtain ⟨-, hnew⟩ := (hunseen a).1 ha
    obtain ⟨n, h⟩ := @ih (seen.add a) (hn.erase a)
      (fun b => by
        rw [hn.mem_erase_iff, hunseen, OrderedSet.mem_toList_add, not_or]
        exact and_left_comm)
      (fun b hb => by
        rcases List.mem_append.1 hb with hb | hb
        · exact hg.lt_size_of_mem_dependentsOf (List.mem_reverse.1 hb)
        · exact hstack b (List.mem_cons_of_mem a hb))
    exact ⟨n + 1, (advance_succ_of_step (step_of_new hnew) n).trans h⟩
  | case3 unseen a rest ha ih =>
    have hmet : a ∈ seen.toList := by
      by_contra hnew
      exact ha ((hunseen a).2 ⟨hstack a List.mem_cons_self, hnew⟩)
    obtain ⟨n, h⟩ := ih hn hunseen fun b hb => hstack b (List.mem_cons_of_mem a hb)
    exact ⟨n + 1, (advance_succ_of_step (step_of_seen hmet) n).trans h⟩

/-- **The search behind a job ends with everything behind it**: in which order jobs are taken from
the stack makes no difference to what is met. -/
theorem exists_advance_start (hg : g.WellFormed) (id : JobId) :
    ∃ n, advance g n (start g id) = ⟨g.transitiveDependents id, []⟩ := by
  obtain ⟨n, h⟩ := @exists_advance_eq g ∅ hg g.ids (g.dependentsOf id).reverse List.nodup_range
    (fun a => mem_ids.trans (and_iff_left List.not_mem_nil).symm)
    (fun a ha => hg.lt_size_of_mem_dependentsOf (List.mem_reverse.1 ha))
  refine ⟨n, h.trans (congrArg (Search.mk · []) (OrderedSet.ext_toList fun a => ?_))⟩
  show a ∈ (OrderedSet.ofList _).toList ↔ a ∈ (OrderedSet.ofList _).toList
  rw [OrderedSet.mem_toList_ofList, OrderedSet.mem_toList_ofList]
  exact mem_reachable_congr (fun a b => List.mem_reverse) fun a => List.mem_reverse

end Search

/-! ## What is behind a job -/

section Behind

variable {g : JobGraph} {id j : JobId}

/-- **Behind a job is what can be reached from it**, in one step or several from a job to one that
waits for it. -/
theorem WellFormed.mem_transitiveDependents_iff (hg : g.WellFormed) :
    j ∈ (g.transitiveDependents id).toList ↔
      Relation.TransGen (fun p d => d ∈ g.dependentsOf p) id j := by
  constructor
  · exact transitiveDependents_induction (fun d hd => .single hd) (fun d j hd hj => hd.tail hj) j
  · intro h
    induction h with
    | single hd => exact hg.mem_transitiveDependents hd
    | tail _ hj ih => exact hg.transitiveDependents_closed ih hj

/-- No job is behind itself. -/
theorem WellFormed.not_mem_transitiveDependents_self (hg : g.WellFormed) :
    id ∉ (g.transitiveDependents id).toList := by
  have hrelation : (fun p d => d ∈ g.dependentsOf p) = Precedes g.jobs := by
    funext p d
    exact propext mem_dependentsOf
  rw [hg.mem_transitiveDependents_iff, hrelation]
  exact (wellFormed_iff.1 hg).acyclic id

/-- Behind a number that no job has there is nothing. -/
theorem WellFormed.transitiveDependents_of_size_le (hg : g.WellFormed) (h : g.size ≤ id) :
    g.transitiveDependents id = ∅ := by
  rw [transitiveDependents, hg.dependentsOf_of_size_le h, reachable]
  rfl

end Behind

/-- **What a graph says of the jobs behind a number**, whether a job has that number or not. -/
structure TellsBehind (g : JobGraph) (id : JobId) : Prop where
  /-- The jobs that wait for the job are those that were entered in its list. -/
  entered : (dependentTable g.jobs).getD id [] = g.dependentsOf id
  /-- Each of them stands there once, and they are in order. -/
  ascending : (g.dependentsOf id).Pairwise (· < ·)
  /-- They are the jobs that have it among their prerequisites. -/
  waits : ∀ d, d ∈ g.dependentsOf id ↔
    ∃ job, g.job? d = some job ∧ id ∈ job.prerequisites.toList
  /-- The search for everything behind the job comes to its end, and gives what it has met then. -/
  ends : ∃ n, Search.advance g n (Search.start g id) = ⟨g.transitiveDependents id, []⟩
  /-- That is what can be reached in one step or several. -/
  reached : ∀ j, j ∈ (g.transitiveDependents id).toList ↔
    Relation.TransGen (fun p d => d ∈ g.dependentsOf p) id j
  not_self : id ∉ (g.transitiveDependents id).toList
  /-- Of a number that no job has nothing is said. -/
  outside : g.size ≤ id → g.dependentsOf id = [] ∧ g.transitiveDependents id = ∅

/-- **Every graph that was accepted tells exactly what is behind a job.** The jobs that wait for it
are listed once each and in order, as their prerequisites say, and the search from one to the next
ends with all that can be reached, which the job itself never is. -/
theorem dependents_exact {g : JobGraph} (hg : g.Accepted) (id : JobId) : g.TellsBehind id where
  entered := hg.wellFormed.getD_dependentTable id
  ascending := hg.wellFormed.ascending_dependentsOf
  waits _ := hg.wellFormed.mem_dependentsOf_iff.trans mem_prerequisitesOf
  ends := Search.exists_advance_start hg.wellFormed id
  reached _ := hg.wellFormed.mem_transitiveDependents_iff
  not_self := hg.wellFormed.not_mem_transitiveDependents_self
  outside h := ⟨hg.wellFormed.dependentsOf_of_size_le h,
    hg.wellFormed.transitiveDependents_of_size_le h⟩

/-! A diamond in which every job waits for later ones: the last job is put on the stack from both
sides. -/

def diamond : JobGraph :=
  ⟨[.merging 0 "bottom" [1, 2], .merging 1 "left" [3], .merging 2 "right" [3],
    .merging 3 "top" []]⟩

theorem dependents_exact_diamond :
    diamond.Accepted ∧ (dependentTable diamond.jobs).getD 3 [] = [1, 2] ∧
      (∃ n, Search.advance diamond n ⟨∅, [2, 1]⟩ = ⟨OrderedSet.ofList [0, 1, 2], []⟩) ∧
      Relation.TransGen (fun p d => d ∈ diamond.dependentsOf p) 3 0 ∧ diamond.TellsBehind 7 := by
  have hg : diamond.Accepted :=
    .inl ⟨diamond.jobs, ofJobs_eq_ok_iff.2 (wellFormed_of_isOk (by decide +kernel))⟩
  have hdirect : diamond.dependentsOf 3 = [1, 2] := by decide
  have hbehind : diamond.transitiveDependents 3 = OrderedSet.ofList [0, 1, 2] := by decide +kernel
  have h := dependents_exact hg 3
  refine ⟨hg, h.entered.trans hdirect, ?_, (h.reached 0).1 ?_, dependents_exact hg 7⟩
  · have hends := h.ends
    rw [Search.start, hdirect, hbehind] at hends
    exact hends
  · rw [hbehind]
    decide

end IncrementalBuild.JobGraph
