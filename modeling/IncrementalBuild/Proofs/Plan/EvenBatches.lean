import IncrementalBuild.Proofs.Plan.BatchKeys
import IncrementalBuild.Proofs.Plan.Regroup
import Mathlib.Algebra.Order.BigOperators.Group.List
import Mathlib.Algebra.Order.Floor.Div

/-!
# Batches are few and even

The jobs that may be in one batch are a group: scheduled jobs that compile one input, with the same
prerequisites, tool and shared arguments. However the groups of a plan lie between one another, each
is cut by itself, in the order of the plan, into as few runs as the size allows. With `n` members
and `r` runs, the first `n % r` runs have one member more than the others, which have `n / r`; so no
run is empty, none is too long, and the longer ones come first.

A run of more than one job becomes a job in the place of its first member, and no other job is
moved. The places of the first members and of all jobs in no longer run, told in the order of the
plan, are therefore 0, 1, 2 and so on: **that one list says that the order is kept and that the new
numbers leave no gap**.
-/

namespace IncrementalBuild

/-! ## Cutting into runs -/

section Runs

variable {α : Type} {size : Nat} {l : List α} {lengths : List Nat}

/-- **Whether a list is cut evenly into as few runs as possible** of at most a size. -/
structure CutsEvenly (size : Nat) (l : List α) (runs : List (List α)) : Prop where
  flatten_eq : runs.flatten = l
  length_eq : runs.length = l.length ⌈/⌉ size
  fewest : ∀ other : List (List α), other.flatten = l → (∀ run ∈ other, run.length ≤ size) →
    runs.length ≤ other.length
  nonempty : ∀ run ∈ runs, run ≠ []
  bounded : ∀ run ∈ runs, run.length ≤ size
  /-- No run is longer than one before it, and none is longer by two than one behind it. -/
  balanced : runs.Pairwise fun a b => b.length ≤ a.length ∧ a.length ≤ b.length + 1

theorem flatten_cutRuns (h : lengths.sum = l.length) : (cutRuns lengths l).flatten = l := by
  induction lengths generalizing l with
  | nil => exact (List.eq_nil_of_length_eq_zero h.symm).symm
  | cons n rest ih =>
    rw [List.sum_cons] at h
    rw [cutRuns, List.flatten_cons, ih (by rw [List.length_drop]; omega), List.take_append_drop]

theorem map_length_cutRuns (h : lengths.sum ≤ l.length) :
    (cutRuns lengths l).map List.length = lengths := by
  induction lengths generalizing l with
  | nil => rfl
  | cons n rest ih =>
    rw [List.sum_cons] at h
    rw [cutRuns, List.map_cons, ih (by rw [List.length_drop]; omega), List.length_take,
      Nat.min_eq_left (by omega)]

/-- What the runs hold if the first `extra` of them have one more than the others. -/
theorem sum_map_range (base extra runs : Nat) :
    ((List.range runs).map fun i => base + (if i < extra then 1 else 0)).sum
      = runs * base + min extra runs := by
  induction runs with
  | zero => simp
  | succ runs ih =>
    rw [List.range_succ, List.map_append, List.sum_append, ih, Nat.succ_mul]
    simp only [List.map_cons, List.map_nil, List.sum_cons, List.sum_nil]
    split <;> omega

theorem runLengths_of_pos {count : Nat} (hcount : 0 < count) (size : Nat) :
    runLengths count size = (List.range (count ⌈/⌉ size)).map fun i =>
      count / (count ⌈/⌉ size) + (if i < count % (count ⌈/⌉ size) then 1 else 0) :=
  if_neg (Nat.ne_of_gt hcount)

/-- **The lengths of the runs**, from how many there are. -/
structure EvenLengths (size count : Nat) (lengths : List Nat) : Prop where
  sum_eq : lengths.sum = count
  length_eq : lengths.length = count ⌈/⌉ size
  pos : ∀ n ∈ lengths, 0 < n
  le_size : ∀ n ∈ lengths, n ≤ size
  balanced : lengths.Pairwise fun a b => b ≤ a ∧ a ≤ b + 1

theorem evenLengths_runLengths (hsize : 0 < size) (count : Nat) :
    EvenLengths size count (runLengths count size) := by
  rcases Nat.eq_zero_or_pos count with rfl | hcount
  · exact ⟨rfl, (zero_ceilDiv size).symm, List.forall_mem_nil _, List.forall_mem_nil _, .nil⟩
  rw [runLengths_of_pos hcount]
  generalize hruns : count ⌈/⌉ size = runs
  have hfits : count ≤ size * runs := (ceilDiv_le_iff_le_mul hsize).1 hruns.le
  have hfew : runs ≤ count :=
    hruns ▸ (ceilDiv_le_iff_le_mul hsize).2 (Nat.le_mul_of_pos_left count hsize)
  have hpos : 0 < runs := by
    rcases Nat.eq_zero_or_pos runs with rfl | hpos
    · omega
    · exact hpos
  have hdiv := Nat.div_add_mod count runs
  have hmod := Nat.mod_lt count hpos
  have hbase : 0 < count / runs := Nat.div_pos hfew hpos
  -- A run with one member more is one of those that do not come out even.
  have hlong : 0 < count % runs → count / runs + 1 ≤ size := by
    intro hextra
    refine Nat.lt_of_mul_lt_mul_left (a := runs) ?_
    rw [Nat.mul_comm runs size]
    omega
  have hbase' : count / runs ≤ size :=
    Nat.div_le_of_le_mul (Nat.mul_comm size runs ▸ hfits)
  refine ⟨?_, by simp [hruns], fun n hn => ?_, fun n hn => ?_, ?_⟩
  · rw [sum_map_range, Nat.min_eq_left hmod.le, hdiv]
  · obtain ⟨i, -, rfl⟩ := List.mem_map.1 hn
    omega
  · obtain ⟨i, -, rfl⟩ := List.mem_map.1 hn
    split
    · exact hlong (by omega)
    · exact hbase'
  · refine List.pairwise_map.2 (List.pairwise_lt_range.imp fun {i j} hij => ?_)
    split <;> split <;> omega

/-- **Runs of the lengths for a size cut a list evenly.** -/
theorem cutsEvenly_cutRuns (hsize : 0 < size) (l : List α) :
    CutsEvenly size l (cutRuns (runLengths l.length size) l) := by
  have heven := evenLengths_runLengths hsize l.length
  have hlengths := map_length_cutRuns (l := l) heven.sum_eq.le
  have hlength {run : List α} (hrun : run ∈ cutRuns (runLengths l.length size) l) :
      run.length ∈ runLengths l.length size := hlengths ▸ List.mem_map_of_mem hrun
  have hcount : (cutRuns (runLengths l.length size) l).length = l.length ⌈/⌉ size := by
    rw [← heven.length_eq, ← congrArg List.length hlengths, List.length_map]
  refine ⟨flatten_cutRuns heven.sum_eq, hcount, fun other hother hbound => ?_, fun run hrun => ?_,
    fun run hrun => heven.le_size _ (hlength hrun), ?_⟩
  · rw [hcount, ceilDiv_le_iff_le_mul hsize, ← hother, List.length_flatten, Nat.mul_comm]
    refine (List.sum_le_card_nsmul _ size fun n hn => ?_).trans_eq (by simp)
    obtain ⟨run, hrun, rfl⟩ := List.mem_map.1 hn
    exact hbound run hrun
  · rintro rfl
    exact absurd (heven.pos _ (hlength hrun)) (Nat.lt_irrefl 0)
  · have hbalanced := heven.balanced
    rw [← hlengths, List.pairwise_map] at hbalanced
    exact hbalanced

end Runs

namespace BuildPlan

/-! ## Groups -/

/-- **The jobs that may be in one batch**, in the order of the plan: scheduled jobs that compile one
input, with the same prerequisites, tool and shared arguments. -/
def group (p : BuildPlan) (key : BatchKey) : List Job :=
  p.graph.jobs.filter fun job =>
    (p.disposition job.id).isScheduled && !job.isWholeModule && job.units.length == 1
      && job.batchKey == key

/-- The runs that a group is cut into. -/
def runsOf (p : BuildPlan) (size : Nat) (key : BatchKey) : List (List Job) :=
  cutRuns (runLengths (p.group key).length size) (p.group key)

variable {p p' : BuildPlan} {size : Nat} {key : BatchKey} {job : Job}

theorem isCandidate_eq (p : BuildPlan) (job : Job) : p.isCandidate job =
    ((p.disposition job.id).isScheduled && !job.isWholeModule && job.units.length == 1) := by
  unfold isCandidate Job.isWholeModule Job.units
  rw [Bool.and_assoc]
  congr 1
  cases job.kind <;> rfl

theorem group_eq (p : BuildPlan) (key : BatchKey) :
    p.group key = (p.graph.jobs.filter p.isCandidate).filter (·.batchKey == key) := by
  rw [List.filter_filter]
  refine List.filter_congr fun job _ => ?_
  rw [isCandidate_eq, Bool.and_comm]

theorem mem_group : job ∈ p.group key ↔
    job ∈ p.graph.jobs ∧ p.isCandidate job = true ∧ job.batchKey = key := by
  rw [group_eq, List.mem_filter, List.mem_filter, beq_iff_eq, and_assoc]

theorem nodup_group (hg : p.graph.WellFormed) (key : BatchKey) : (p.group key).Nodup :=
  (nodup_jobs hg).filter _

theorem mem_group_of_mem_runsOf {run : List Job} (hrun : run ∈ p.runsOf size key)
    (hjob : job ∈ run) : job ∈ p.group key :=
  (flatten_cutRuns_sublist _ _).subset (List.mem_flatten.2 ⟨run, hrun, hjob⟩)

/-- **The batches of a plan are the runs of its groups** that have more than one member. -/
theorem mem_batches_iff {run : List Job} :
    run ∈ p.batches size ↔ (∃ key, run ∈ p.runsOf size key) ∧ 1 < run.length := by
  unfold batches
  rw [List.mem_filter, decide_eq_true_iff, List.mem_flatMap]
  refine and_congr_left fun hseveral => ⟨?_, ?_⟩
  · rintro ⟨group, hgroup, hrun⟩
    obtain ⟨key, rfl⟩ := exists_of_mem_classesBy hgroup
    rw [← group_eq] at hrun
    exact ⟨key, hrun⟩
  · rintro ⟨key, hrun⟩
    obtain ⟨job, hjob⟩ := List.exists_mem_of_length_pos (Nat.lt_of_succ_lt hseveral)
    obtain ⟨hmem, hfits, hkey⟩ := mem_group.1 (mem_group_of_mem_runsOf hrun hjob)
    have hcandidate : job ∈ p.graph.jobs.filter p.isCandidate :=
      List.mem_filter.2 ⟨hmem, hfits⟩
    obtain ⟨c, hc, hjobc⟩ := List.mem_flatten.1
      ((classesBy_perm Job.batchKey _).mem_iff.2 hcandidate)
    obtain ⟨key', rfl⟩ := exists_of_mem_classesBy hc
    refine ⟨_, hc, ?_⟩
    obtain rfl : key = key' := hkey.symm.trans (eq_of_beq (List.mem_filter.1 hjobc).2)
    rw [← group_eq]
    exact hrun

/-- A job alone in a run is in no batch. -/
theorem batchOf?_of_alone (hg : p.graph.WellFormed) (hsize : 0 < size)
    (h : [job] ∈ p.runsOf size key) : batchOf? (p.batches size) job.id = none := by
  cases hb : batchOf? (p.batches size) job.id with
  | none => rfl
  | some run =>
    exfalso
    have hr := runs_batches hg size
    have hcut := cutsEvenly_cutRuns hsize (p.group key)
    obtain ⟨hjob, -, hkey⟩ :=
      mem_group.1 (mem_group_of_mem_runsOf h (List.mem_singleton_self job))
    obtain ⟨hrun, m, hm, hid⟩ := mem_of_batchOf? hb
    obtain rfl := hg.eq_of_id_eq (hr.candidates run hrun m hm).1 hjob hid
    obtain ⟨⟨key', hrun'⟩, hseveral⟩ := mem_batches_iff.1 hrun
    obtain rfl : key = key' :=
      hkey.symm.trans (mem_group.1 (mem_group_of_mem_runsOf hrun' hm)).2.2
    -- The two runs of one group that hold the job are one.
    have hnodup : (p.runsOf size key).flatten.Nodup :=
      hcut.flatten_eq.symm ▸ nodup_group hg key
    have hne : run ≠ [m] := by
      rintro rfl
      exact absurd hseveral (Nat.lt_irrefl 1)
    have : Std.Symm (List.Disjoint (α := Job)) := ⟨fun _ _ h => h.symm⟩
    exact (List.nodup_flatten.1 hnodup).2.forall hrun' h hne hm (List.mem_singleton_self m)

/-! ## Places -/

/-- The jobs that are the first of those sent to their place, in the order of the plan. -/
def firsts (p : BuildPlan) (place : JobId → JobId) : List Job :=
  p.graph.jobs.filter fun job =>
    (p.membersAt place (place job.id)).head?.any (·.id == job.id)

/-- **Whether a plan is another with batches that are few and even.** -/
structure BatchesEvenly (p p' : BuildPlan) (size : Nat) (place : JobId → JobId) : Prop where
  regroups : p.Regroups p' place
  /-- Each group is cut for itself, and the members of a run are sent to a place of their own. -/
  runs : ∀ key, ∃ runs, CutsEvenly size (p.group key) runs ∧
    ∀ run ∈ runs, ∀ job ∈ run, p.membersAt place (place job.id) = run
  /-- A job of no group is sent to a place of its own. -/
  others : ∀ job ∈ p.graph.jobs, job ∉ p.group job.batchKey →
    p.membersAt place (place job.id) = [job]
  /-- The places are numbered as the first jobs that are sent there stand in the plan. -/
  dense : (p.firsts place).map (fun job => place job.id) = List.range p'.graph.size
  commands : ∀ job' ∈ p'.graph.jobs, 1 < (p.membersAt place job'.id).length →
    Command.merge ((p.membersAt place job'.id).map (·.command)) = some job'.command

namespace Runs

variable {batches : List (List Job)}

/-- To the place of a member of a batch the members of the batch are sent. -/
theorem membersAt_eq (hr : p.Runs batches) (hg : p.graph.WellFormed) {run : List Job}
    (hrun : run ∈ batches) (hjob : job ∈ run) :
    p.membersAt (p.newId batches) (p.newId batches job.id) = run := by
  refine filter_eq_of_sublist (hr.ordered run hrun) (nodup_jobs hg) fun m => ?_
  constructor
  · intro hm
    have hmem := (hr.candidates run hrun m hm).1
    exact ⟨hmem, beq_iff_eq.2 ((hr.newId_eq_iff_mem hg hrun hjob hmem).2 hm)⟩
  · rintro ⟨hmem, hplace⟩
    exact (hr.newId_eq_iff_mem hg hrun hjob hmem).1 (eq_of_beq hplace)

/-- To the place of a job of no batch no other job is sent. -/
theorem membersAt_eq_singleton (hr : p.Runs batches) (hg : p.graph.WellFormed)
    (hjob : job ∈ p.graph.jobs) (h : batchOf? batches job.id = none) :
    p.membersAt (p.newId batches) (p.newId batches job.id) = [job] := by
  refine filter_eq_of_sublist (List.singleton_sublist.2 hjob) (nodup_jobs hg) fun m => ?_
  rw [List.mem_singleton]
  constructor
  · rintro rfl
    exact ⟨hjob, beq_self_eq_true _⟩
  · rintro ⟨hmem, hplace⟩
    exact (hr.newId_eq_iff_of_none hg hjob h hmem).1 (eq_of_beq hplace)

/-- **The jobs that keep a place are the first ones at their places.** -/
theorem firsts_newId (hr : p.Runs batches) (hg : p.graph.WellFormed) :
    p.firsts (p.newId batches) = p.kept batches := by
  refine List.filter_congr fun job hjob => ?_
  cases hb : batchOf? batches job.id with
  | none =>
    rw [hr.membersAt_eq_singleton hg hjob hb, leader_eq_self hb]
    simp
  | some run =>
    obtain ⟨hrun, m, hm, hid⟩ := mem_of_batchOf? hb
    obtain rfl := hg.eq_of_id_eq (hr.candidates run hrun m hm).1 hjob hid
    obtain ⟨first, rest, rfl⟩ := List.exists_cons_of_ne_nil (List.ne_nil_of_mem hm)
    rw [hr.membersAt_eq hg hrun hm, hr.leader_eq hg hrun hm]
    rfl

/-- The jobs that keep a place are numbered in their order. -/
theorem map_newId_kept (hr : p.Runs batches) (hg : p.graph.WellFormed) :
    (p.kept batches).map (fun job => p.newId batches job.id)
      = List.range (p.kept batches).length := by
  have hnodup : (p.kept batches).Nodup := (nodup_jobs hg).filter _
  refine List.ext_getElem (by simp) fun i hi _ => ?_
  rw [List.length_map] at hi
  rw [List.getElem_map, List.getElem_range]
  have hplace := hr.getElem?_newId_of_kept hg (List.getElem_mem hi)
  exact ((List.getElem?_inj hi hnodup).1 ((List.getElem?_eq_getElem hi).trans hplace.symm)).symm

end Runs

/-- The command of a job that joins others is made from theirs. -/
theorem Gathers.merge_eq {place : JobId → JobId} (h : p.Gathers p' place)
    (hg : p.graph.WellFormed) {job' : Job} (hjob' : job' ∈ p'.graph.jobs)
    (hseveral : 1 < (p.membersAt place job'.id).length) :
    Command.merge ((p.membersAt place job'.id).map (·.command)) = some job'.command := by
  obtain ⟨first, rest, hgathered⟩ := h.gathered job' hjob'
  rw [hgathered.membersAt_eq hg] at hseveral ⊢
  rcases hgathered.body with ⟨rfl, -⟩ | ⟨-, -, he⟩
  · exact absurd hseveral (Nat.lt_irrefl 1)
  · rw [he]
    show Command.merge _
      = some ((Command.merge ((first :: rest).map (·.command))).getD first.command)
    rw [List.map_cons, Command.merge_cons]
    rfl

/-- What comes of a plan when batches are formed: what it was, or the jobs that keep a place. -/
theorem cases_of_partition (hg : p.graph.WellFormed) {size : Option Nat}
    (h : p.partition size = .ok p') :
    p.batchesOf size = [] ∧ p' = p ∨
      p.Gathers p' (p.newId (p.batchesOf size)) ∧
        p'.graph.size = (p.kept (p.batchesOf size)).length := by
  by_cases hnone : p.batchesOf size = []
  · exact .inl ⟨hnone, Except.ok.inj (h.symm.trans (partition_of_nil hnone))⟩
  replace h := (if_neg (mt List.isEmpty_iff.1 hnone)).symm.trans h
  split at h
  · cases h
  rename_i graph hgraph
  obtain rfl := Except.ok.inj h
  refine .inr ⟨gathers_of_ofJobs hg (runs_batchesOf hg size) hgraph _, ?_⟩
  show graph.jobs.length = _
  rw [JobGraph.jobs_of_ofJobs hgraph, List.length_map]
  rfl

/-- A run that is no batch is a single job of the plan. -/
theorem exists_of_notMem_batches (hsize : 0 < size) {run : List Job}
    (hrun : run ∈ p.runsOf size key) (hno : run ∉ p.batches size) :
    ∃ job ∈ p.graph.jobs, run = [job] := by
  have hpos := List.length_pos_of_ne_nil ((cutsEvenly_cutRuns hsize _).nonempty run hrun)
  have hone : ¬ 1 < run.length := fun hseveral => hno (mem_batches_iff.2 ⟨⟨key, hrun⟩, hseveral⟩)
  obtain ⟨job, rfl⟩ := List.length_eq_one_iff.1 (show run.length = 1 by omega)
  exact ⟨job, (mem_group.1 (mem_group_of_mem_runsOf hrun (List.mem_singleton_self job))).1, rfl⟩

theorem batchesEvenly_self (hg : p.graph.WellFormed) (hsize : 0 < size)
    (hnone : p.batches size = []) : p.BatchesEvenly p size id := by
  have halone : ∀ job ∈ p.graph.jobs, p.membersAt id job.id = [job] := by
    intro job hjob
    refine filter_eq_of_sublist (List.singleton_sublist.2 hjob) (nodup_jobs hg) fun m => ?_
    rw [List.mem_singleton, beq_iff_eq]
    constructor
    · rintro rfl
      exact ⟨hjob, rfl⟩
    · rintro ⟨hm, hid⟩
      exact hg.eq_of_id_eq hm hjob hid
  refine ⟨(gathers_self hg).regroups hg, fun key => ⟨p.runsOf size key,
    cutsEvenly_cutRuns hsize (p.group key), fun run hrun job hjob => ?_⟩,
    fun job hjob _ => halone job hjob, ?_, fun job' hjob' hseveral => ?_⟩
  · obtain ⟨only, hmem, rfl⟩ := exists_of_notMem_batches hsize hrun (hnone ▸ List.not_mem_nil)
    obtain rfl := List.mem_singleton.1 hjob
    exact halone job hmem
  · have hfirsts : p.firsts id = p.graph.jobs := by
      refine List.filter_eq_self.2 fun job hjob => ?_
      show (p.membersAt id job.id).head?.any (·.id == job.id) = true
      rw [halone job hjob]
      exact beq_self_eq_true job.id
    rw [hfirsts]
    exact hg.map_id
  · rw [halone job' hjob'] at hseveral
    exact absurd hseveral (Nat.lt_irrefl 1)

theorem batchesEvenly_of_gathers (hg : p.graph.WellFormed) (hsize : 0 < size)
    (h : p.Gathers p' (p.newId (p.batches size)))
    (hcount : p'.graph.size = (p.kept (p.batches size)).length) :
    p.BatchesEvenly p' size (p.newId (p.batches size)) := by
  have hr := runs_batches hg size
  refine ⟨h.regroups hg, fun key => ⟨p.runsOf size key, cutsEvenly_cutRuns hsize (p.group key),
    fun run hrun job hjob => ?_⟩, fun job hjob hno => ?_, ?_, fun _ => h.merge_eq hg⟩
  · by_cases hbatch : run ∈ p.batches size
    · exact hr.membersAt_eq hg hbatch hjob
    · obtain ⟨only, hmem, rfl⟩ := exists_of_notMem_batches hsize hrun hbatch
      obtain rfl := List.mem_singleton.1 hjob
      exact hr.membersAt_eq_singleton hg hmem (batchOf?_of_alone hg hsize hrun)
  · refine hr.membersAt_eq_singleton hg hjob ?_
    cases hb : batchOf? (p.batches size) job.id with
    | none => rfl
    | some run =>
      obtain ⟨hrun, m, hm, hid⟩ := mem_of_batchOf? hb
      obtain ⟨hmem, hcandidate⟩ := hr.candidates run hrun m hm
      obtain rfl := hg.eq_of_id_eq hmem hjob hid
      exact absurd (mem_group.2 ⟨hjob, hcandidate, rfl⟩) hno
  · rw [hr.firsts_newId hg, hr.map_newId_kept hg, hcount]

/-- **Batches are few and even**, for every well-formed plan and every size that lets two jobs
together, wherever batches can be formed. -/
theorem batchesEvenly_of_partition (hg : p.graph.WellFormed) (hsize : 1 < size)
    (h : p.partition (some size) = .ok p') : ∃ place, p.BatchesEvenly p' size place := by
  have hbatches : p.batchesOf (some size) = p.batches size := if_pos hsize
  have hcases := cases_of_partition hg h
  rw [hbatches] at hcases
  rcases hcases with ⟨hnone, rfl⟩ | ⟨hgathers, hcount⟩
  · exact ⟨id, batchesEvenly_self hg (Nat.lt_of_succ_lt hsize) hnone⟩
  · exact ⟨_, batchesEvenly_of_gathers hg (Nat.lt_of_succ_lt hsize) hgathers hcount⟩

end BuildPlan

/-! ### Two groups that lie between one another -/

namespace Interleaved

/-- Five jobs that wait for nothing and three that wait for the first, in turns, and a job at the
end that compiles nothing. -/
def eight : BuildPlan :=
  .allScheduled ⟨[compiling 0 "a" [], compiling 1 "u" [0], compiling 2 "b" [],
    compiling 3 "c" [], compiling 4 "v" [0], compiling 5 "d" [], compiling 6 "e" [],
    compiling 7 "w" [0], { linking with id := 8 }]⟩

theorem batchesEvenly_of_partition_eight : ∃ (p' : BuildPlan) (place : JobId → JobId),
    eight.partition (some 2) = .ok p' ∧ eight.BatchesEvenly p' 2 place ∧
      p'.graph.jobs.map (fun job => (job.key.text, job.units.map (·.primary.text),
        job.prerequisites.toList))
        = [("batch:a..b", ["a", "b"], []), ("batch:u..v", ["u", "v"], [0]),
          ("batch:c..d", ["c", "d"], []), ("compile:e", ["e"], []),
          ("compile:w", ["w"], [0]), ("link:app", [], [0])] := by
  have hwell : eight.graph.WellFormed := JobGraph.wellFormed_of_isOk (by decide +kernel)
  obtain ⟨p', hplan, hjobs⟩ := exists_eq_ok_of_toOption (x := eight.partition (some 2))
    (f := fun p' => p'.graph.jobs.map fun job => (job.key.text, job.units.map (·.primary.text),
      job.prerequisites.toList))
    (b := [("batch:a..b", ["a", "b"], []), ("batch:u..v", ["u", "v"], [0]),
      ("batch:c..d", ["c", "d"], []), ("compile:e", ["e"], []),
      ("compile:w", ["w"], [0]), ("link:app", [], [0])])
    (by decide +kernel)
  obtain ⟨place, heven⟩ := BuildPlan.batchesEvenly_of_partition hwell (by decide) hplan
  exact ⟨p', place, hplan, heven, hjobs⟩

end Interleaved

end IncrementalBuild
