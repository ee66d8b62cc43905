import IncrementalBuild.Proofs.JobGraph
import Mathlib.Data.List.Lex

/-!
# The least order of the jobs

Of all the lists that have every job once, and behind its prerequisites, the topological order is
the least: at the first place where another one differs from it, the other has the greater number.

The countdown sees to that one job at a time. The ready jobs are those that can come next in any
list that begins with what is listed already, and the smallest of them is taken. That they are the
right ones is up to the counts, and no count is taken down once too often: a job that is listed was
not listed before, so whatever waits for it still counts it.
-/

namespace IncrementalBuild.JobGraph

/-- Graphs that are built job by job. -/
inductive Grown : JobGraph → Prop
  | empty : Grown ⟨[]⟩
  | add {g g' : JobGraph} {job : Job} {id : JobId} :
    g.Grown → g.add job = .ok (g', id) → Grown g'

/-- **Graphs that were accepted**, in one piece or job by job. -/
def Accepted (g : JobGraph) : Prop := (∃ jobs, ofJobs jobs = .ok g) ∨ g.Grown

/-- Whether a list comes before another or is the same, as lists of numbers are compared from the
front. -/
def ComesFirst (l l' : List JobId) : Prop := l = l' ∨ List.Lex (· < ·) l l'

/-- **Orders of the jobs**: every job stands there once, and behind its prerequisites. -/
structure Orders (g : JobGraph) (l : List JobId) : Prop where
  perm : l.Perm (g.jobs.map (·.id))
  behind : ∀ before id after, l = before ++ id :: after → ∀ p ∈ g.prerequisitesOf id, p ∈ before

/-- A beginning of a list comes before it. -/
theorem comesFirst_append (l r : List JobId) : ComesFirst l (l ++ r) := by
  cases r with
  | nil => exact .inl (List.append_nil l).symm
  | cons a r =>
    have h : List.Lex (· < ·) (l ++ []) (l ++ a :: r) := List.Lex.append_left _ .nil l
    rw [List.append_nil] at h
    exact .inr h

section Accepted

variable {g : JobGraph}

/-- A graph that was grown is well formed, and its jobs wait for earlier ones only. -/
theorem Grown.wellFormed (h : g.Grown) :
    g.WellFormed ∧ ∀ job ∈ g.jobs, ∀ p ∈ job.prerequisites.toList, p < job.id := by
  induction h with
  | empty => exact ⟨wellFormed_empty, fun job h => absurd h List.not_mem_nil⟩
  | add _ hadd ih => exact ih.1.add ih.2 hadd

/-- An accepted graph is well formed, whichever way it was made. -/
theorem Accepted.wellFormed (h : g.Accepted) : g.WellFormed := by
  rcases h with ⟨jobs, h⟩ | h
  · exact wellFormed_of_ofJobs h
  · exact h.wellFormed.1

/-- The jobs in topological order are in order. -/
theorem WellFormed.orders_topologicalOrder (hg : g.WellFormed) : g.Orders g.topologicalOrder where
  perm := by
    rw [hg.map_id]
    refine (List.perm_ext_iff_of_nodup hg.nodup_topologicalOrder List.nodup_range).2 ?_
    exact fun id => hg.mem_topologicalOrder.trans mem_ids.symm
  behind _ _ _ h _ hp := hg.mem_of_topologicalOrder_eq h hp

/-- An order of the jobs has all of them. -/
theorem Orders.mem_iff {l : List JobId} {id : JobId} (hg : g.WellFormed) (h : g.Orders l) :
    id ∈ l ↔ id < g.size := by
  rw [h.perm.mem_iff, hg.map_id, mem_ids]

/-- An order of the jobs has each of them once. -/
theorem Orders.nodup {l : List JobId} (hg : g.WellFormed) (h : g.Orders l) : l.Nodup := by
  rw [h.perm.nodup_iff, hg.map_id]
  exact List.nodup_range

end Accepted

namespace Countdown

variable {g : JobGraph} {o o' : Countdown}

/-! ## Counts that are taken down -/

/-- Whether every count is positive when it is taken down, as some jobs are released in turn. -/
def ReleasesExactly (o : Countdown) : List JobId → Prop
  | [] => True
  | id :: rest => 0 < o.remaining.getD id 0 ∧ (o.release id).ReleasesExactly rest

/-- **Whether every count is positive when it is taken down**, as the next job is listed. -/
def StepsExactly (g : JobGraph) (o : Countdown) : Prop :=
  ∀ id rest, o.ready.toList = id :: rest →
    ReleasesExactly { o with ready := o.ready.erase id, listed := id :: o.listed }
      (g.dependentsOf id)

/-- Different jobs have their own counts. -/
theorem releasesExactly_of_pos {ids : List JobId} (hn : ids.Nodup)
    (h : ∀ id ∈ ids, 0 < o.remaining.getD id 0) : o.ReleasesExactly ids := by
  induction ids generalizing o with
  | nil => trivial
  | cons a rest ih =>
    obtain ⟨ha, hrest⟩ := List.nodup_cons.1 hn
    refine ⟨h a List.mem_cons_self, ih hrest fun id hid => ?_⟩
    rw [remaining_release, if_neg fun e : id = a => ha (e ▸ hid)]
    exact h id (List.mem_cons_of_mem a hid)

/-- **What waits for a ready job still counts it**, as it is not listed yet. -/
theorem Fits.stepsExactly (hg : g.WellFormed) (ho : o.Fits g) : o.StepsExactly g := by
  intro id rest hready
  refine releasesExactly_of_pos hg.nodup_dependentsOf fun d hd => ?_
  obtain ⟨job, hjob, rfl, hp⟩ := mem_dependentsOf.1 hd
  have hnew : id ∉ o.listed :=
    ((ho.ready id).1 (OrderedSet.contains_iff_mem_toList.2 (hready ▸ List.mem_cons_self))).1
  show 0 < o.remaining.getD job.id 0
  rw [ho.count job hjob, List.countP_pos_iff]
  exact ⟨id, hp, by simpa using hnew⟩

/-! ## The smallest job that is ready -/

/-- What is listed stays listed. -/
theorem exists_listed_advance (hg : g.WellFormed) (n : Nat) (o : Countdown) :
    ∃ l, (advance g n o).listed = l ++ o.listed := by
  induction n generalizing o with
  | zero => exact ⟨[], rfl⟩
  | succ n ih =>
    unfold Countdown.advance
    split
    · exact ⟨[], rfl⟩
    · rename_i o' hstep
      obtain ⟨id, -, -, hlisted, -⟩ := of_step hg hstep
      obtain ⟨l, hl⟩ := ih o'
      exact ⟨l ++ [id], by rw [hl, hlisted, List.append_assoc]; rfl⟩

/-- The job that comes next in an order that begins with what is listed is ready. -/
theorem Fits.ready_of_orders (hg : g.WellFormed) (ho : o.Fits g) {id : JobId} {rest : List JobId}
    (h : g.Orders (o.listed.reverse ++ id :: rest)) : o.ready.contains id = true := by
  obtain ⟨job, hjob⟩ :=
    exists_job?_of_lt ((h.mem_iff hg).1 (List.mem_append_right _ List.mem_cons_self))
  refine (ho.ready id).2 ⟨fun hid => ?_, job, hjob, fun p hp => ?_⟩
  · exact List.disjoint_of_nodup_append (h.nodup hg) (List.mem_reverse.2 hid) List.mem_cons_self
  · exact List.mem_reverse.1 (h.behind _ id rest rfl p (mem_prerequisitesOf.2 ⟨job, hjob, hp⟩))

/-- **No order that begins with what is listed is less than what the countdown makes of it.** Such
an order goes on with a ready job: with the one that is listed next, or with a greater one. -/
theorem Fits.comesFirst (hg : g.WellFormed) (n : Nat) (ho : o.Fits g) {rest : List JobId}
    (h : g.Orders (o.listed.reverse ++ rest)) :
    ComesFirst (Countdown.advance g n o).listed.reverse (o.listed.reverse ++ rest) := by
  induction n generalizing o rest with
  | zero => exact comesFirst_append _ _
  | succ n ih =>
    unfold Countdown.advance
    split
    · exact comesFirst_append _ _
    · rename_i o' hstep
      obtain ⟨id, hready, hleast, hlisted, -⟩ := of_step hg hstep
      cases rest with
      | nil =>
        -- All jobs are listed, and the ready one is not.
        obtain ⟨hnew, job, hjob, -⟩ := (ho.ready id).1 hready
        have hid := (h.mem_iff hg).2 (lt_size_of_job? hjob)
        exact absurd (by simpa using hid) hnew
      | cons b rest =>
        rcases Nat.lt_or_eq_of_le (hleast b (ho.ready_of_orders hg h)) with hlt | rfl
        · obtain ⟨l, hl⟩ := exists_listed_advance hg n o'
          rw [hl, hlisted, List.reverse_append, List.reverse_cons, List.append_assoc]
          exact .inr (List.Lex.append_left _ (.rel hlt) _)
        · have heq : o.listed.reverse ++ id :: rest = o'.listed.reverse ++ rest := by
            rw [hlisted, List.reverse_cons, List.append_assoc]
            rfl
          rw [heq] at h ⊢
          exact ih (ho.step hg hstep).1 h

end Countdown

/-- **The topological order is the least order of the jobs**, as lists of numbers are compared from
the front, and no count falls below zero on the way, at whatever step. -/
theorem topologicalOrder_least {g : JobGraph} (hg : g.Accepted) :
    g.Orders g.topologicalOrder ∧ (∀ l, g.Orders l → ComesFirst g.topologicalOrder l) ∧
      ∀ n, (Countdown.advance g n (Countdown.start g)).StepsExactly g := by
  have hg := hg.wellFormed
  have hstart := Countdown.fits_start hg
  refine ⟨hg.orders_topologicalOrder, fun l hl => ?_, fun n => ?_⟩
  · have hl : g.Orders ((Countdown.start g).listed.reverse ++ l) := hl
    exact hstart.comesFirst hg g.size hl
  · exact (hstart.advance hg n).stepsExactly hg

/-! Jobs that wait for jobs behind them. -/

/-- The first job in the list waits for the two last ones, so the order has to turn it around. -/
def forward : JobGraph :=
  ⟨[.merging 0 "last" [2, 3], .merging 1 "free" [], .merging 2 "middle" [3],
    .merging 3 "first" []]⟩

/-- The order begins with the job that waits for nothing and has the least number. -/
theorem topologicalOrder_least_forward :
    forward.Accepted ∧ forward.Orders [1, 3, 2, 0]
      ∧ (∀ l, forward.Orders l → ComesFirst [1, 3, 2, 0] l)
      ∧ ∀ n, (Countdown.advance forward n (Countdown.start forward)).StepsExactly forward := by
  have hg : forward.Accepted :=
    .inl ⟨forward.jobs, ofJobs_eq_ok_iff.2 (wellFormed_of_isOk (by decide +kernel))⟩
  have horder : forward.topologicalOrder = [1, 3, 2, 0] := by decide +kernel
  obtain ⟨horders, hleast, hexact⟩ := topologicalOrder_least hg
  rw [horder] at horders hleast
  exact ⟨hg, horders, hleast, hexact⟩

end IncrementalBuild.JobGraph
