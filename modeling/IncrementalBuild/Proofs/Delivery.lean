import IncrementalBuild.Proofs.Course
import IncrementalBuild.Proofs.SimulatedTools

/-!
# What well-mannered tools deliver along an execution

Where nothing is set for any path, and no two jobs write the same file, every job that
comes to an end has succeeded, and what it delivered is there from then on: when the core
is told of the end, and still when the execution stands anywhere later.
-/

namespace IncrementalBuild

/-- **Whether the products of a plan are pairwise distinct.** -/
def BuildPlan.DistinctOutputs (plan : BuildPlan) : Prop :=
  (plan.graph.jobs.flatMap (·.outputs)).Pairwise fun a b => compare a.path b.path ≠ .eq

instance (plan : BuildPlan) : Decidable plan.DistinctOutputs :=
  inferInstanceAs (Decidable (List.Pairwise _ _))

namespace BuildPlan.DistinctOutputs

variable {plan : BuildPlan}

/-- The outputs of one job are at different paths. -/
theorem of_job (h : plan.DistinctOutputs) {job : Job} (hjob : job ∈ plan.graph.jobs) :
    (job.outputs.map (·.path)).Pairwise fun p q => compare p q ≠ .eq :=
  List.pairwise_map.2 ((List.pairwise_flatMap.1 h).1 job hjob)

/-- The outputs of different jobs are at different paths. -/
theorem of_ne (h : plan.DistinctOutputs) {job other : Job} (hjob : job ∈ plan.graph.jobs)
    (hother : other ∈ plan.graph.jobs) (hne : other ≠ job) {a b : Artifact}
    (ha : a ∈ other.outputs) (hb : b ∈ job.outputs) : compare a.path b.path ≠ .eq := by
  have hjobs := (List.pairwise_flatMap.1 h).2
  have : Std.Symm fun j k : Job => ∀ a ∈ j.outputs, ∀ b ∈ k.outputs,
      compare a.path b.path ≠ .eq :=
    ⟨fun _ _ hjk a ha b hb he => hjk b hb a ha (Std.OrientedCmp.eq_symm he)⟩
  exact hjobs.forall hother hjob hne a ha b hb

end BuildPlan.DistinctOutputs

section Course

variable {σ : Type} {observe : WorldObserver SimulatedTools σ} {plan : BuildPlan}
  {policy : FailurePolicy} {concurrency : Nat} {world : SimulatedTools} {observed : σ}
  {told : List (Told SimulatedTools)} {e : Execution SimulatedTools σ}

/-- **What is true of the files wherever an execution stands.** -/
structure Execution.Delivered (plan : BuildPlan) (world : SimulatedTools)
    (told : List (Told SimulatedTools)) (e : Execution SimulatedTools σ) : Prop where
  script : e.world.script = .empty
  stays : ∀ p, FileSystem.pathExists world p = true → FileSystem.pathExists e.world p = true
  /-- What has happened and is not told. -/
  pending : ∀ id outcome, .jobFinished id outcome ∈ e.events → outcome = .succeeded ∧
    ∃ job, plan.graph.job? id = some job ∧ e.world.Delivers job
  told : ∀ x ∈ told, ∀ id outcome, x.event = .jobFinished id outcome → outcome = .succeeded ∧
    ∃ job, plan.graph.job? id = some job ∧ x.world.Delivers job ∧ e.world.Delivers job

/-- **Well-mannered tools deliver**, in whatever order the jobs run and the core is told. -/
theorem Course.delivered (hg : plan.graph.WellFormed)
    (hspelled : ∀ job ∈ plan.graph.jobs, job.Spelled) (hd : plan.DistinctOutputs)
    (hscript : world.script = .empty)
    (h : Course (.ofProcesses SimulatedTools) observe
      (.start plan policy concurrency world observed) told e) :
    e.Delivered plan world told := by
  induction h with
  | start =>
    exact ⟨hscript, fun p hp => hp, fun id outcome he => absurd he List.not_mem_nil,
      fun x hx => absurd hx List.not_mem_nil⟩
  | @settle told e id job run hcourse hid hjob hrun ih =>
    obtain rfl := hrun
    rw [(hcourse.sound hg).plan_eq] at hjob
    obtain ⟨hmem, rfl⟩ := hg.job?_eq_some_iff.1 hjob
    obtain ⟨hempty, -, output, hresult, hcode⟩ := SimulatedTools.run_of_empty ih.script job.command
    have houtcome : (Execution.outcomeOf job (ProcessWorld.run e.world job.command).result).1
        = .succeeded := Execution.outcomeOf_eq_succeeded_iff.2 ⟨output, hresult, hcode⟩
    -- The job itself delivers now, and every other one keeps what it has.
    have hkeep {id' : JobId} {other : Job} (hother : plan.graph.job? id' = some other)
        (hbefore : e.world.Delivers other) :
        (SimulatedTools.run e.world job.command).world.Delivers other := by
      have hmem' := (hg.job?_eq_some_iff.1 hother).1
      by_cases hne : job = other
      · subst hne
        exact SimulatedTools.delivers_run ih.script (hspelled job hmem) (hd.of_job hmem)
      · exact hbefore.run ih.script (hspelled other hmem') (hspelled job hmem)
          fun a ha b hb => hd.of_ne hmem' hmem hne ha hb
    refine ⟨hempty, fun p hp => ?_, fun id' outcome hevent => ?_, fun x hx id' outcome he => ?_⟩
    · exact (SimulatedTools.grown_run ih.script (hspelled job hmem)).stays p (ih.stays p hp)
    · rcases Execution.jobFinished_mem_settle.1 hevent with hevent | ⟨rfl, rfl⟩
      · obtain ⟨hout, other, hother, hbefore⟩ := ih.pending id' outcome hevent
        exact ⟨hout, other, hother, hkeep hother hbefore⟩
      · exact ⟨houtcome, job, hjob,
          SimulatedTools.delivers_run ih.script (hspelled job hmem) (hd.of_job hmem)⟩
    · obtain ⟨hout, other, hother, hthen, hbefore⟩ := ih.told x hx id' outcome he
      exact ⟨hout, other, hother, hthen, hkeep hother hbefore⟩
  | cancel _ ih =>
    refine ⟨ih.script, ih.stays, fun id outcome hevent => ?_, ih.told⟩
    rcases List.mem_append.1 hevent with hevent | hevent
    · exact ih.pending id outcome hevent
    · cases List.mem_singleton.1 hevent
  | drift _ hdrift _ => exact hdrift.elim
  | @handle told e event _ _ hevent ih =>
    refine ⟨ih.script, ih.stays, fun id outcome he => ?_, fun x hx id outcome he => ?_⟩
    · exact ih.pending id outcome (List.mem_of_mem_erase he)
    · rcases List.mem_append.1 hx with hx | hx
      · exact ih.told x hx id outcome he
      · obtain rfl := List.mem_singleton.1 hx
        have he : event = .jobFinished id outcome := he
        obtain ⟨hout, job, hjob, hdelivers⟩ := ih.pending id outcome (he ▸ hevent)
        exact ⟨hout, job, hjob, hdelivers, hdelivers⟩

end Course

/-- **The core was told of every job that has succeeded.** -/
theorem Course.told_of_succeeded {ω σ : Type} {env : Environment ω} {observe : WorldObserver ω σ}
    {plan : BuildPlan} {policy : FailurePolicy} {concurrency : Nat} {world : ω} {observed : σ}
    {told : List (Told ω)} {e : Execution ω σ} (hg : plan.graph.WellFormed)
    (h : Course env observe (.start plan policy concurrency world observed) told e) {id : JobId}
    (hid : e.core.scheduler.stateOf? id = some .succeeded) :
    ∃ x ∈ told, x.event = .jobFinished id .succeeded := by
  refine h.induction (P := fun told s _ => ∀ id, s.stateOf? id = some .succeeded →
    ∃ x ∈ told, x.event = .jobFinished id .succeeded) hg (fun s _ _ hno id hid => ?_)
    (fun told w s x hP id hid => ?_)
    (fun told w s s' x j outcome dispatched hP hs _ _ hturn id hid => ?_) id hid
  · exact absurd hid (hno id)
  · obtain ⟨y, hy, he⟩ := hP id hid
    exact ⟨y, List.mem_append_left _ hy, he⟩
  · by_cases hj : id = j
    · subst hj
      have houtcome : outcome = .succeeded := by
        rw [hturn.ended] at hid
        cases outcome with
        | succeeded => rfl
        | failed kind => cases hid
      exact ⟨_, List.mem_append_right _ List.mem_cons_self, by rw [houtcome]⟩
    · obtain ⟨y, hy, he⟩ := hP id ((hturn.succeeded_iff id hj).1 hid)
      exact ⟨y, List.mem_append_left _ hy, he⟩

end IncrementalBuild
