import IncrementalBuild.Proofs.JobGraph

/-!
# Which lists of jobs make a graph

A list of jobs makes a graph exactly if its jobs stand at the places of their numbers, their keys
differ, they wait for other jobs of the list, and no job has to be done before itself. Where the
last condition alone fails, the job that is named is one that would have to.
-/

namespace IncrementalBuild.JobGraph

/-- Whether one job has to be done before another, as the other says. -/
def Precedes (jobs : List Job) (p id : JobId) : Prop :=
  ∃ job ∈ jobs, job.id = id ∧ p ∈ job.prerequisites.toList

/-- **Lists of jobs that make a graph.** -/
structure Acceptable (jobs : List Job) : Prop where
  /-- Every job stands at the place of its number. -/
  id_eq : ∀ (i : Nat) (job : Job), jobs[i]? = some job → job.id = i
  nodup_keys : (jobs.map (·.key)).Nodup
  /-- Jobs wait for other jobs of the list. -/
  others : ∀ job ∈ jobs, ∀ p ∈ job.prerequisites.toList, p < jobs.length ∧ p ≠ job.id
  /-- No job has to be done before itself. -/
  acyclic : ∀ id, ¬ Relation.TransGen (Precedes jobs) id id

section Acceptance

variable {jobs : List Job} {key : String}

theorem edge_relation : (relation jobs).Edge = Precedes jobs := by
  funext p id
  obtain ⟨-, -, hedges⟩ := relation_spec jobs
  refine propext ((hedges (p, id)).trans ?_)
  exact exists_congr fun job => and_congr_right fun _ => and_congr_left' eq_comm

/-- **A graph is well formed exactly if its jobs can be accepted**: without a circle the jobs are
ranked by what has to be done before them. -/
theorem wellFormed_iff : WellFormed ⟨jobs⟩ ↔ Acceptable jobs := by
  obtain ⟨hclosed, -, hedges⟩ := relation_spec jobs
  constructor
  · intro h
    obtain ⟨rank, hrank⟩ := h.ranked
    have hranked : (relation jobs).Ranked rank := by
      intro e he
      obtain ⟨job, hjob, hid, hp⟩ := (hedges e).1 he
      exact hid ▸ (hrank job hjob _ hp).2
    refine ⟨h.id_eq, h.nodup_keys, fun job hjob p hp => ?_, edge_relation ▸ hranked.acyclic⟩
    obtain ⟨hlt, hless⟩ := hrank job hjob p hp
    exact ⟨hlt, fun he => Nat.lt_irrefl _ (he ▸ hless)⟩
  · intro h
    obtain ⟨rank, hrank⟩ :=
      Digraph.exists_ranked_of_acyclic hclosed fun id => edge_relation ▸ h.acyclic id
    refine ⟨h.id_eq, h.nodup_keys, rank, fun job hjob p hp => ⟨(h.others job hjob p hp).1, ?_⟩⟩
    exact hrank (p, job.id) ((hedges _).2 ⟨job, hjob, rfl, hp⟩)

theorem exists_ofJobs_iff : (∃ g, ofJobs jobs = .ok g) ↔ Acceptable jobs := by
  rw [← wellFormed_iff, ← ofJobs_eq_ok_iff]
  exact ⟨fun ⟨g, hg⟩ => hg.trans (congrArg Except.ok (congrArg mk (jobs_of_ofJobs hg))),
    fun h => ⟨_, h⟩⟩

/-! ## What is said about a circle -/

/-- What is wrong with a list of checks is wrong with one of them. -/
theorem exists_of_forM_eq_error {α ε : Type} {l : List α} {check : α → Except ε Unit} {e : ε}
    (h : l.forM check = .error e) : ∃ a ∈ l, check a = .error e := by
  induction l with
  | nil => cases h
  | cons a rest ih =>
    have h : (check a >>= fun _ => rest.forM check) = .error e := h
    cases ha : check a with
    | error e' =>
      rw [ha] at h
      exact ⟨a, List.mem_cons_self, ha.trans h⟩
    | ok u =>
      rw [ha] at h
      obtain ⟨b, hb, he⟩ := ih h
      exact ⟨b, List.mem_cons_of_mem _ hb, he⟩

theorem checkJob_ne_jobCycle {count position : Nat} {before : List JobKey} {job : Job} :
    checkJob count position before job ≠ .error (.jobCycle key) := by
  intro h
  unfold checkJob at h
  by_cases hid : job.id = position
  · by_cases hkey : job.key ∈ before
    · simp only [ne_eq, hid, not_true_eq_false, if_false, if_pos hkey] at h
      cases h
    · simp only [ne_eq, hid, not_true_eq_false, if_false, if_neg hkey] at h
      obtain ⟨p, -, hp⟩ := exists_of_forM_eq_error h
      unfold checkPrerequisite at hp
      split at hp
      · cases hp
      · split at hp <;> cases hp
  · simp only [ne_eq, hid, not_false_eq_true, if_true] at h
    cases h

/-- The check of the single jobs speaks of no circle. -/
theorem checkJobs_ne_jobCycle {count position : Nat} {before : List JobKey} :
    checkJobs count position before jobs ≠ .error (.jobCycle key) := by
  induction jobs generalizing position before with
  | nil => exact fun h => by cases h
  | cons job rest ih =>
    intro h
    unfold checkJobs at h
    cases hjob : checkJob count position before job with
    | error e =>
      rw [hjob] at h
      exact checkJob_ne_jobCycle (hjob.trans h)
    | ok u =>
      rw [hjob] at h
      exact ih h

/-- Where a circle is found, the single jobs have passed their check, and the order is what could
not be had. -/
theorem of_ofJobs_eq_jobCycle (h : ofJobs jobs = .error (.jobCycle key)) :
    checkJobs jobs.length 0 [] jobs = .ok () ∧ ∃ id, (relation jobs).toposort = .error id ∧
      key = ((jobs[id]?).map (·.key.text)).getD "" := by
  unfold ofJobs at h
  cases hcheck : checkJobs jobs.length 0 [] jobs with
  | error e =>
    rw [hcheck] at h
    obtain rfl : e = .jobCycle key := Except.error.inj h
    exact absurd hcheck checkJobs_ne_jobCycle
  | ok u =>
    rw [hcheck] at h
    refine ⟨rfl, ?_⟩
    cases hsort : (relation jobs).toposort with
    | ok order =>
      simp only [hsort] at h
      cases h
    | error id =>
      simp only [hsort] at h
      exact ⟨id, rfl, (PlanningError.jobCycle.inj (Except.error.inj h)).symm⟩

/-- **The checks of a list of jobs are exact.** The list is accepted if its jobs stand at the
places of their numbers, their keys differ, they wait for other jobs of the list and none of them
has to be done before itself, and in no other case. A job that is named as part of a circle is the
only one with its key, and has to be done before itself. -/
theorem ofJobs_exact (jobs : List Job) :
    ((∃ g, ofJobs jobs = .ok g) ↔ Acceptable jobs) ∧
      ∀ key, ofJobs jobs = .error (.jobCycle key) →
        ∃ job ∈ jobs, job.key.text = key ∧ (∀ other ∈ jobs, other.key.text = key → other = job) ∧
          Relation.TransGen (Precedes jobs) job.id job.id := by
  refine ⟨exists_ofJobs_iff, fun key h => ?_⟩
  obtain ⟨hcheck, id, hsort, rfl⟩ := of_ofJobs_eq_jobCycle h
  obtain ⟨hid, -, hkeys, -⟩ := of_checkJobs hcheck
  have hcircle : Relation.TransGen (Precedes jobs) id id := edge_relation ▸
    Digraph.onCircle_of_toposort_eq_error (relation_spec jobs).1 (nodup_nodes_relation jobs) hsort
  -- The circle comes back to the node by an edge, so the node is the number of a job.
  obtain ⟨_, -, job, hjob, rfl, -⟩ := Relation.TransGen.tail'_iff.1 hcircle
  obtain ⟨i, hi⟩ := List.getElem?_of_mem hjob
  have hplace : jobs[job.id]? = some job := by rw [hid i job hi, Nat.zero_add, hi]
  refine ⟨job, hjob, by simp [hplace], fun other hother he => ?_, hcircle⟩
  have hkey : other.key = job.key := by
    have he : other.key.text = job.key.text := by simpa [hplace] using he
    exact congrArg JobKey.mk he
  exact List.inj_on_of_nodup_map hkeys hother hjob hkey

end Acceptance

/-! Three jobs in a circle, and one that waits for it. -/

def circle : List Job :=
  [.merging 0 "behind" [1], .merging 1 "first" [3], .merging 2 "second" [1],
    .merging 3 "third" [2]]

theorem ofJobs_exact_circle :
    ofJobs circle = .error (.jobCycle "third") ∧ ¬ Acceptable circle ∧
      ∃ job ∈ circle, job.key.text = "third" ∧
        Relation.TransGen (Precedes circle) job.id job.id := by
  obtain ⟨haccepted, hcircle⟩ := ofJobs_exact circle
  have hrefused : ofJobs circle = .error (.jobCycle "third") := by
    have h : (ofJobs circle).map (fun _ => ()) = .error (.jobCycle "third") := by decide +kernel
    cases hr : ofJobs circle with
    | ok g =>
      rw [hr] at h
      cases h
    | error e =>
      rw [hr] at h
      exact congrArg Except.error (Except.error.inj h)
  obtain ⟨job, hjob, hkey, -, hbefore⟩ := hcircle "third" hrefused
  refine ⟨hrefused, fun h => ?_, job, hjob, hkey, hbefore⟩
  obtain ⟨g, hg⟩ := haccepted.2 h
  exact absurd (hrefused.symm.trans hg) (by simp)

end IncrementalBuild.JobGraph
