import IncrementalBuild.Proofs.Plan.Batch

/-!
# Batches keep the plan

Putting jobs into batches sends each job of a plan to a job of the new one, onto all of them.
What is sent to one place is the job that stands there, or is joined in it: its units and
products one behind the other, what it reads without repetition. Prerequisites go along, and a
job is scheduled as what is sent to it is.

That the prerequisites of the first member speak for all of them, and its disposition too, is
due to how batches are formed: the members of a batch wait for the same jobs, and each is
scheduled. The jobs that are sent to a place are taken in the order of the plan, which is the
order in which they are joined because a batch is cut out of a class, and a class keeps the
order of what it is made from.
-/

namespace IncrementalBuild

/-- **Whether some artifacts are the union of a list**: all that is in the list, each once, in
the order in which they come up. -/
structure Artifact.IsUnion (union all : List Artifact) : Prop where
  sublist : union.Sublist all
  distinct : union.Pairwise fun a b => (a == b) = false
  covers : ∀ a ∈ all, ∃ b ∈ union, (a == b) = true

theorem Artifact.beq_comm (a b : Artifact) : (a == b) = (b == a) := by
  rw [Bool.eq_iff_iff, beq_iff, beq_iff, Std.OrientedCmp.eq_comm, @eq_comm _ a.fileType]

/-- Taking what has not been taken yet makes a union. -/
theorem Artifact.isUnion_foldl (all : List Artifact) :
    IsUnion (all.foldl (fun seen a => if seen.contains a then seen else seen ++ [a]) []) all := by
  have hstep {seen done : List Artifact} (h : IsUnion seen done) (a : Artifact) :
      IsUnion (if seen.contains a then seen else seen ++ [a]) (done ++ [a]) := by
    by_cases ha : seen.contains a = true
    · rw [if_pos ha]
      refine ⟨h.sublist.trans (List.sublist_append_left done [a]), h.distinct, fun b hb => ?_⟩
      rcases List.mem_append.1 hb with hb | hb
      · exact h.covers b hb
      · rw [List.mem_singleton.1 hb]
        exact List.contains_iff_exists_mem_beq.1 ha
    · rw [if_neg ha]
      refine ⟨h.sublist.append_right [a], ?_, fun b hb => ?_⟩
      · refine List.pairwise_append.2 ⟨h.distinct, List.pairwise_singleton _ a, fun b hb c hc => ?_⟩
        rw [List.mem_singleton.1 hc, beq_comm, ← Bool.not_eq_true]
        exact fun hab => ha (List.contains_iff_exists_mem_beq.2 ⟨b, hb, hab⟩)
      · rcases List.mem_append.1 hb with hb | hb
        · obtain ⟨c, hc, hbc⟩ := h.covers b hb
          exact ⟨c, List.mem_append_left _ hc, hbc⟩
        · refine ⟨a, List.mem_append_right _ List.mem_cons_self, ?_⟩
          rw [List.mem_singleton.1 hb, beq_iff]
          exact ⟨Std.ReflOrd.compare_self, rfl⟩
  have key (l seen done : List Artifact) (h : IsUnion seen done) :
      IsUnion (l.foldl (fun seen a => if seen.contains a then seen else seen ++ [a]) seen)
        (done ++ l) := by
    induction l generalizing seen done with
    | nil =>
      rw [List.append_nil]
      exact h
    | cons a rest ih =>
      rw [List.append_cons done a rest]
      exact ih _ _ (hstep h a)
  exact key all [] [] ⟨.slnil, .nil, fun a ha => absurd ha List.not_mem_nil⟩

/-- **Whether a job does what several jobs do together**, each of which compiles one input. -/
structure Job.Joins (job' : Job) (members : List Job) : Prop where
  single : ∀ m ∈ members, ∃ u, m.kind = .compile [u] false
  kind : job'.kind = .compile (members.flatMap Job.units) false
  outputs : job'.outputs = members.flatMap (·.outputs)
  inputs : Artifact.IsUnion job'.inputs (members.flatMap (·.inputs))

theorem Job.Joins.units_eq {job' : Job} {members : List Job} (h : job'.Joins members) :
    job'.units = members.flatMap Job.units := by
  conv_lhs => unfold Job.units
  rw [h.kind]

theorem Job.originKeys_of_units {job : Job} (h : job.units ≠ []) :
    job.originKeys = job.units.map (·.origin) := by
  unfold originKeys
  split
  · contradiction
  · rfl

namespace BuildPlan

/-- The jobs of a plan that are sent to a place, in the order of the plan. -/
def membersAt (p : BuildPlan) (place : JobId → JobId) (id : JobId) : List Job :=
  p.graph.jobs.filter (fun job => place job.id == id)

/-- **Whether a plan keeps the jobs of another**, each sent to a place. -/
structure Regroups (p p' : BuildPlan) (place : JobId → JobId) : Prop where
  wellFormed : p'.graph.WellFormed
  placed : ∀ job ∈ p.graph.jobs, ∃ job' ∈ p'.graph.jobs, place job.id = job'.id
  onto : ∀ job' ∈ p'.graph.jobs, p.membersAt place job'.id ≠ []
  scheduled : ∀ job ∈ p.graph.jobs,
    (p'.disposition (place job.id)).isScheduled = (p.disposition job.id).isScheduled
  prerequisites : ∀ job ∈ p.graph.jobs, ∀ job' ∈ p'.graph.jobs, place job.id = job'.id →
    ∀ id, id ∈ job'.prerequisites.toList ↔ ∃ q ∈ job.prerequisites.toList, place q = id
  /-- A job that is clean, or that compiles the whole module, or that does not compile, is
  sent to a place of its own. -/
  alone : ∀ job ∈ p.graph.jobs, (p.disposition job.id).isScheduled = false ∨
    job.isWholeModule = true ∨ job.isCompile = false → p.membersAt place (place job.id) = [job]
  /-- A job that is sent to a place of its own stays as it is, but for its number and those of
  its prerequisites. -/
  same : ∀ job' ∈ p'.graph.jobs, ∀ job, p.membersAt place job'.id = [job] →
    job' = { job with id := job'.id, prerequisites := job'.prerequisites }
  joins : ∀ job' ∈ p'.graph.jobs, 1 < (p.membersAt place job'.id).length →
    job'.Joins (p.membersAt place job'.id)

variable {p p' : BuildPlan} {place : JobId → JobId}

theorem mem_membersAt {job : Job} {id : JobId} :
    job ∈ p.membersAt place id ↔ job ∈ p.graph.jobs ∧ place job.id = id := by
  unfold membersAt
  rw [List.mem_filter, beq_iff_eq]

/-- A part of a list without repetitions is what is chosen in it, in its order. -/
theorem filter_eq_of_sublist {α : Type} {part l : List α} (h : part.Sublist l) (hn : l.Nodup)
    {P : α → Bool} (hP : ∀ a, a ∈ part ↔ a ∈ l ∧ P a = true) : l.filter P = part := by
  have hsub : part.Sublist (l.filter P) := by
    have := h.filter P
    rwa [List.filter_eq_self.2 fun a ha => ((hP a).1 ha).2] at this
  have hperm : part.Perm (l.filter P) := (List.perm_ext_iff_of_nodup (hn.sublist h)
    (hn.filter P)).2 fun a => (hP a).trans List.mem_filter.symm
  exact (hsub.eq_of_length hperm.length_eq).symm

/-- **The jobs that are gathered are those that are sent to the place**, in the order of the
plan. -/
theorem Gathered.membersAt_eq (hg : p.graph.WellFormed) {job' first : Job} {rest : List Job}
    (h : p.Gathered p' place job' first rest) : p.membersAt place job'.id = first :: rest :=
  filter_eq_of_sublist h.ordered (nodup_jobs hg) fun m => by rw [h.mem_iff, beq_iff_eq]

/-- The members of a batch wait for the same jobs. -/
theorem Gathered.prerequisites_eq {job' first m : Job} {rest : List Job}
    (h : p.Gathered p' place job' first rest) (hm : m ∈ first :: rest) :
    m.prerequisites = first.prerequisites := by
  rcases h.body with ⟨rfl, -⟩ | ⟨-, hall, -⟩
  · rw [List.mem_singleton.1 hm]
  · exact congrArg BatchKey.prerequisites (hall m hm).2

theorem Gathered.joins {job' first : Job} {rest : List Job}
    (h : p.Gathered p' place job' first rest) (hrest : rest ≠ []) :
    job'.Joins (first :: rest) := by
  obtain ⟨-, hall, he⟩ := h.body.resolve_left fun hno => hrest hno.1
  rw [he]
  exact ⟨fun m hm => (isCandidate_iff.1 (hall m hm).1).2, rfl, rfl, Artifact.isUnion_foldl _⟩

/-- **What gathers the jobs of a plan keeps them.** -/
theorem Gathers.regroups (h : p.Gathers p' place) (hg : p.graph.WellFormed) :
    p.Regroups p' place where
  wellFormed := h.wellFormed
  placed := h.placed
  onto job' hjob' := by
    obtain ⟨first, rest, hgathered⟩ := h.gathered job' hjob'
    rw [hgathered.membersAt_eq hg]
    exact List.cons_ne_nil first rest
  scheduled job hjob := by
    obtain ⟨job', -, hplace, first, rest, hgathered, hmem⟩ := h.exists_gathered hjob
    rw [hplace]
    exact hgathered.isScheduled_eq hmem
  prerequisites job hjob job' hjob' hplace id := by
    obtain ⟨first, rest, hgathered⟩ := h.gathered job' hjob'
    rw [hgathered.prerequisites_eq ((hgathered.mem_iff job).2 ⟨hjob, hplace⟩)]
    exact hgathered.mem_prerequisites id
  alone job hjob hkind := by
    obtain ⟨job', -, hplace, first, rest, hgathered, hmem⟩ := h.exists_gathered hjob
    rw [hplace, hgathered.membersAt_eq hg]
    rcases hgathered.body with ⟨rfl, -⟩ | ⟨-, hall, -⟩
    · rw [List.mem_singleton.1 hmem]
    · obtain ⟨hscheduled, u, hu⟩ := isCandidate_iff.1 (hall job hmem).1
      rcases hkind with hclean | hwhole | hother
      · exact absurd (hclean.symm.trans hscheduled) Bool.false_ne_true
      · unfold Job.isWholeModule at hwhole
        rw [hu] at hwhole
        cases hwhole
      · unfold Job.isCompile at hother
        rw [hu] at hother
        cases hother
  same job' hjob' job hmembers := by
    obtain ⟨first, rest, hgathered⟩ := h.gathered job' hjob'
    rw [hgathered.membersAt_eq hg] at hmembers
    obtain ⟨rfl, rfl⟩ := List.cons.inj hmembers
    exact (hgathered.body.resolve_right fun hno => hno.1 rfl).2
  joins job' hjob' hseveral := by
    obtain ⟨first, rest, hgathered⟩ := h.gathered job' hjob'
    rw [hgathered.membersAt_eq hg] at hseveral ⊢
    refine hgathered.joins ?_
    rintro rfl
    exact absurd hseveral (Nat.lt_irrefl 1)

namespace Regroups

/-- **No job is lost or sent to two places.** -/
theorem flatMap_membersAt_perm (h : p.Regroups p' place) (hg : p.graph.WellFormed) :
    (p'.graph.jobs.flatMap fun job' => p.membersAt place job'.id).Perm p.graph.jobs := by
  refine (List.perm_ext_iff_of_nodup ?_ (nodup_jobs hg)).2 fun job => ?_
  · refine List.nodup_flatMap.2 ⟨fun job' _ => (nodup_jobs hg).filter _, ?_⟩
    have hids : (p'.graph.jobs.map (·.id)).Nodup := by
      rw [h.wellFormed.map_id]
      exact List.nodup_range
    refine (List.pairwise_map.1 hids).imp fun {a b} hab job hjob hjob' => hab ?_
    exact (mem_membersAt.1 hjob).2.symm.trans (mem_membersAt.1 hjob').2
  · rw [List.mem_flatMap]
    constructor
    · rintro ⟨job', -, hjob⟩
      exact (mem_membersAt.1 hjob).1
    · intro hjob
      obtain ⟨job', hjob', hplace⟩ := h.placed job hjob
      exact ⟨job', hjob', mem_membersAt.2 ⟨hjob, hplace⟩⟩

section Collected

variable {α : Type} {f : Job → List α}
  (hsame : ∀ (job : Job) (id : JobId) (prerequisites : OrderedSet JobId),
    f { job with id, prerequisites } = f job)
  (hjoins : ∀ (job' : Job) (members : List Job), members ≠ [] → job'.Joins members →
    f job' = members.flatMap f)

include hsame hjoins

/-- What is collected from a job is collected from what is sent to it, where it is collected from
a job that stays, and from one that joins others. -/
theorem eq_flatMap_membersAt (h : p.Regroups p' place) {job' : Job}
    (hjob' : job' ∈ p'.graph.jobs) : f job' = (p.membersAt place job'.id).flatMap f := by
  cases hmembers : p.membersAt place job'.id with
  | nil => exact absurd hmembers (h.onto job' hjob')
  | cons first rest =>
    cases rest with
    | nil => rw [h.same job' hjob' first hmembers, hsame, List.flatMap_singleton]
    | cons second rest =>
      rw [← hmembers]
      refine hjoins job' _ (h.onto job' hjob') (h.joins job' hjob' ?_)
      rw [hmembers]
      simp

/-- What is collected from the jobs at all places is collected from the jobs of the plan. -/
theorem flatMap_perm (h : p.Regroups p' place) (hg : p.graph.WellFormed) :
    (p'.graph.jobs.flatMap f).Perm (p.graph.jobs.flatMap f) := by
  rw [List.flatMap_congr fun _ => h.eq_flatMap_membersAt hsame hjoins, ← List.flatMap_assoc]
  exact (h.flatMap_membersAt_perm hg).flatMap_right f

end Collected

/-- **The units of a job are those of what is sent to it.** -/
theorem mem_units_iff (h : p.Regroups p' place) {job' : Job} (hjob' : job' ∈ p'.graph.jobs)
    {u : CompileUnit} :
    u ∈ job'.units ↔ ∃ job ∈ p.graph.jobs, place job.id = job'.id ∧ u ∈ job.units := by
  rw [h.eq_flatMap_membersAt (fun _ _ _ => rfl) (fun _ _ _ hjoins => hjoins.units_eq) hjob',
    List.mem_flatMap]
  refine exists_congr fun job => ?_
  rw [mem_membersAt, and_assoc]

/-- **No input, record or origin is lost or repeated.** -/
theorem units_perm (h : p.Regroups p' place) (hg : p.graph.WellFormed) :
    (p'.graph.jobs.flatMap Job.units).Perm (p.graph.jobs.flatMap Job.units) :=
  h.flatMap_perm (fun _ _ _ => rfl) (fun _ _ _ hjoins => hjoins.units_eq) hg

/-- **No product is lost or repeated.** -/
theorem outputs_perm (h : p.Regroups p' place) (hg : p.graph.WellFormed) :
    (p'.graph.jobs.flatMap (·.outputs)).Perm (p.graph.jobs.flatMap (·.outputs)) :=
  h.flatMap_perm (fun _ _ _ => rfl) (fun _ _ _ hjoins => hjoins.outputs) hg

theorem originKeys_perm (h : p.Regroups p' place) (hg : p.graph.WellFormed) :
    (p'.graph.jobs.flatMap Job.originKeys).Perm (p.graph.jobs.flatMap Job.originKeys) := by
  refine h.flatMap_perm (fun _ _ _ => rfl) (fun job' members hne hjoins => ?_) hg
  have hsingle : ∀ m ∈ members, m.units ≠ [] := by
    intro m hm
    obtain ⟨u, hu⟩ := hjoins.single m hm
    rw [Job.units_of_kind_eq hu]
    exact List.cons_ne_nil u []
  obtain ⟨first, hfirst⟩ := List.exists_mem_of_ne_nil members hne
  have hne' : members.flatMap Job.units ≠ [] := fun hnil =>
    hsingle first hfirst (List.flatMap_eq_nil_iff.1 hnil first hfirst)
  rw [Job.originKeys_of_units (hjoins.units_eq ▸ hne'), hjoins.units_eq, List.map_flatMap]
  exact List.flatMap_congr fun m hm => (Job.originKeys_of_units (hsingle m hm)).symm

end Regroups

/-- **Putting jobs into batches keeps the plan**, for every well-formed graph, whatever its jobs
are and whichever of them are scheduled. -/
theorem regroups_of_partition (hg : p.graph.WellFormed) {size : Option Nat}
    (h : p.partition size = .ok p') : ∃ place, p.Regroups p' place ∧
      (p'.graph.jobs.flatMap Job.units).Perm (p.graph.jobs.flatMap Job.units) ∧
      (p'.graph.jobs.flatMap Job.originKeys).Perm (p.graph.jobs.flatMap Job.originKeys) := by
  obtain ⟨place, hgathers⟩ := exists_gathers_of_partition hg h
  have hregroups := hgathers.regroups hg
  exact ⟨place, hregroups, hregroups.units_perm hg, hregroups.originKeys_perm hg⟩

end BuildPlan

/-! ### Two batches, one of which waits for the other -/

namespace Interleaved

/-- A job that compiles one input. -/
def compiling (id : JobId) (name : String) (prerequisites : List JobId) : Job where
  id
  key := .compile ⟨name⟩
  kind := .compile [⟨⟨name⟩, [⟨⟨name ++ ".o"⟩, .object⟩], none, .compile ⟨name⟩⟩] false
  inputs := [⟨⟨name⟩, .source⟩, ⟨⟨"h"⟩, .header⟩]
  outputs := [⟨⟨name ++ ".o"⟩, .object⟩]
  command := ⟨"cc", ["-c", Command.primaryFlag, name, Command.outputFlag, name ++ ".o"]⟩
  prerequisites := OrderedSet.ofList prerequisites

/-- A job that stays as it is, at the end. -/
def linking : Job where
  id := 4
  key := .link ⟨"app"⟩
  kind := .link .executable
  inputs := [⟨⟨"x.o"⟩, .object⟩, ⟨⟨"x.o"⟩, .object⟩]
  outputs := [⟨⟨"app"⟩, .linkedBinary⟩]
  command := ⟨"ld", ["x.o", "x.o"]⟩
  prerequisites := OrderedSet.ofList [0, 2]

/-- The first and the third job wait for the second and the fourth. -/
def plan : BuildPlan :=
  .cleanWhere ⟨[compiling 0 "x" [1, 3], compiling 1 "u" [], compiling 2 "y" [1, 3],
    compiling 3 "v" [], linking]⟩ (· == 4)

theorem regroups_of_partition_interleaved : ∃ (p' : BuildPlan) (place : JobId → JobId),
    plan.partition (some 2) = .ok p' ∧ plan.Regroups p' place ∧
      p'.graph.jobs.map (fun job => (job.key.text, job.inputs.map (·.path.text),
        job.prerequisites.toList, (p'.disposition job.id).isScheduled))
        = [("batch:x..y", ["x", "h", "y"], [1], true), ("batch:u..v", ["u", "h", "v"], [], true),
          ("link:app", ["x.o", "x.o"], [0], false)] := by
  have hwell : plan.graph.WellFormed := JobGraph.wellFormed_of_isOk (by decide +kernel)
  obtain ⟨p', hplan, hjobs⟩ := exists_eq_ok_of_toOption (x := plan.partition (some 2))
    (f := fun p' => p'.graph.jobs.map fun job => (job.key.text, job.inputs.map (·.path.text),
      job.prerequisites.toList, (p'.disposition job.id).isScheduled))
    (b := [("batch:x..y", ["x", "h", "y"], [1], true),
      ("batch:u..v", ["u", "h", "v"], [], true), ("link:app", ["x.o", "x.o"], [0], false)])
    (by decide +kernel)
  obtain ⟨place, hregroups, -⟩ := BuildPlan.regroups_of_partition hwell hplan
  exact ⟨p', place, hplan, hregroups, hjobs⟩

end Interleaved

end IncrementalBuild
