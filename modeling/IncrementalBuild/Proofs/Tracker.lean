import IncrementalBuild.Tracker
import IncrementalBuild.Proofs.DependencyGraph
import IncrementalBuild.Proofs.Plan

/-!
# What the tracker makes of a success

The tracker answers the success of a compile job in two passes. The first takes over
what the compiler reported for each unit, and touches the units' own inputs alone; the
second makes dirty whatever the reports reach. For any other input this leaves two
cases: nothing has changed for it, or its compile job is among the answered roots.
-/

namespace IncrementalBuild

namespace Tracker

/-- Whether there is a dependency record, and of a given source. -/
def Names (record : Option DependencyRecord) (p : Path) : Prop :=
  ∃ d, record = some d ∧ (d.source == p) = true

/-- A record names an input exactly if it is kept when records of other inputs are sorted out. -/
theorem names_iff_isSome {record : Option DependencyRecord} {p : Path} :
    Names record p ↔ (record.filter fun d => d.source == p).isSome = true := by
  unfold Names
  cases record with
  | none => simp
  | some d => simp [Option.isSome_filter]

instance (record : Option DependencyRecord) (p : Path) : Decidable (Names record p) :=
  decidable_of_iff' _ names_iff_isSome

end Tracker

namespace BuildState

/-- **What taking over a report does to the inputs**: the compiled one has its
fingerprint exactly if the record is of it, and all others keep theirs. -/
theorem get?_integrate (s : BuildState) (p q : Path) (f : Fingerprint)
    (record : Option DependencyRecord) :
    (s.integrate p f record).1.inputs.get? q
      = if compare p q = .eq then some (if Tracker.Names record p then some f else none)
        else s.inputs.get? q := by
  unfold integrate
  cases hr : record.filter (fun r => r.source == p) with
  | none =>
    have hnot : ¬ Tracker.Names record p := fun h => by
      rw [Tracker.names_iff_isSome, hr] at h
      cases h
    rw [if_neg hnot]
    exact OrderedMap.get?_insert s.inputs p q none
  | some d =>
    have hnames : Tracker.Names record p := by
      rw [Tracker.names_iff_isSome, hr]
      rfl
    rw [if_pos hnames]
    exact OrderedMap.get?_insert s.inputs p q (some f)

/-- What taking over a report leaves alone. -/
theorem integrate_rest (s : BuildState) (p : Path) (f : Fingerprint)
    (record : Option DependencyRecord) :
    (s.integrate p f record).1.staleJobs = s.staleJobs ∧
      (s.integrate p f record).1.options = s.options ∧
      (s.integrate p f record).1.commands = s.commands := by
  unfold integrate
  cases record.filter (fun r => r.source == p) <;> exact ⟨rfl, rfl, rfl⟩

/-- **A file that a report does not reach sees no difference.** -/
theorem agreesFor_integrate {s : BuildState} {p q : Path}
    (f : Fingerprint) (record : Option DependencyRecord) (hpq : compare p q ≠ .eq)
    (h : (s.integrate p f record).2.files.contains q = false) :
    s.graph.AgreesFor (s.integrate p f record).1.graph q := by
  unfold integrate at h ⊢
  cases hr : record.filter (fun r => r.source == p) with
  | none => exact .refl _ q
  | some d =>
    rw [hr] at h
    exact DependencyGraph.agreesFor_replace d.declarations hpq h

end BuildState

namespace Tracker

section Units

variable {ω : Type} [FileSystem ω] {world : ω}

/-- What a unit's record names, as the tracker reads it. -/
abbrev Reported (world : ω) (u : CompileUnit) : Prop := Names (recordOf? world u) u.primary

/-- What does not change while reports are taken over. -/
structure Retains (t t' : Tracker) : Prop where
  plan : t'.plan = t.plan
  dirty : t'.dirty = t.dirty
  fingerprints : t'.fingerprints = t.fingerprints
  staleJobs : t'.state.staleJobs = t.state.staleJobs
  options : t'.state.options = t.state.options
  commands : t'.state.commands = t.state.commands

/-- A tracker retains itself. -/
theorem Retains.refl (t : Tracker) : t.Retains t := ⟨rfl, rfl, rfl, rfl, rfl, rfl⟩

/-- What is retained twice is retained. -/
theorem Retains.trans {t₁ t₂ t₃ : Tracker} (h : t₁.Retains t₂) (h' : t₂.Retains t₃) :
    t₁.Retains t₃ :=
  ⟨h'.plan.trans h.plan, h'.dirty.trans h.dirty, h'.fingerprints.trans h.fingerprints,
    h'.staleJobs.trans h.staleJobs, h'.options.trans h.options, h'.commands.trans h.commands⟩

/-- Taking over one report, for a tracked input. -/
theorem integrateUnit_of_tracked {t : Tracker} {reached : OrderedSet Path} {u : CompileUnit}
    {f : Fingerprint} (h : t.fingerprints.get? u.primary = some f) :
    integrateUnit world (t, reached) u
      = ({ t with state := (t.state.integrate u.primary f (recordOf? world u)).1 },
        reached.union (t.state.integrate u.primary f (recordOf? world u)).2.files) := by
  unfold integrateUnit
  simp only [h]

/-- The record of an input that is not tracked is not looked at. -/
theorem integrateUnit_of_untracked {t : Tracker} {reached : OrderedSet Path} {u : CompileUnit}
    (h : t.fingerprints.get? u.primary = none) :
    integrateUnit world (t, reached) u = (t, reached) := by
  unfold integrateUnit
  simp only [h]

/-- Taking in the record of one input retains the rest, and takes nothing back that was reached. -/
theorem retains_integrateUnit (world : ω) (t : Tracker) (reached : OrderedSet Path)
    (u : CompileUnit) :
    t.Retains (integrateUnit world (t, reached) u).1 ∧
      ∀ q, reached.contains q = true →
        (integrateUnit world (t, reached) u).2.contains q = true := by
  cases h : t.fingerprints.get? u.primary with
  | none =>
    rw [integrateUnit_of_untracked h]
    exact ⟨.refl t, fun q hq => hq⟩
  | some f =>
    rw [integrateUnit_of_tracked h]
    obtain ⟨hstale, hoptions, hcommands⟩ :=
      t.state.integrate_rest u.primary f (recordOf? world u)
    refine ⟨⟨rfl, rfl, rfl, hstale, hoptions, hcommands⟩, fun q hq => ?_⟩
    rw [OrderedSet.contains_union, hq]
    rfl

/-- Taking in the records of several inputs retains the rest as well. -/
theorem retains_foldl_integrateUnit (world : ω) (units : List CompileUnit) (t : Tracker)
    (reached : OrderedSet Path) :
    t.Retains (units.foldl (integrateUnit world) (t, reached)).1 ∧
      ∀ q, reached.contains q = true →
        (units.foldl (integrateUnit world) (t, reached)).2.contains q = true := by
  induction units generalizing t reached with
  | nil => exact ⟨.refl t, fun q hq => hq⟩
  | cons u rest ih =>
    obtain ⟨hkeep, hmono⟩ := retains_integrateUnit world t reached u
    obtain ⟨hkeep', hmono'⟩ := ih (integrateUnit world (t, reached) u).1
      (integrateUnit world (t, reached) u).2
    exact ⟨hkeep.trans hkeep', fun q hq => hmono' q (hmono q hq)⟩

/-- Reports leave inputs of no unit as they are. -/
theorem get?_foldl_integrateUnit_of_not (world : ω) {units : List CompileUnit} (t : Tracker)
    (reached : OrderedSet Path) {q : Path} (h : ∀ u ∈ units, compare u.primary q ≠ .eq) :
    (units.foldl (integrateUnit world) (t, reached)).1.state.inputs.get? q
      = t.state.inputs.get? q := by
  induction units generalizing t reached with
  | nil => rfl
  | cons u rest ih =>
    have hrest := fun v hv => h v (List.mem_cons_of_mem u hv)
    rw [List.foldl_cons]
    cases hf : t.fingerprints.get? u.primary with
    | none =>
      rw [integrateUnit_of_untracked hf]
      exact ih t reached hrest
    | some f =>
      rw [integrateUnit_of_tracked hf, ih _ _ hrest]
      exact (BuildState.get?_integrate _ _ _ _ _).trans (if_neg (h u List.mem_cons_self))

/-- **After the reports a compiled input has its fingerprint exactly if its own
record is of it.** -/
theorem get?_foldl_integrateUnit (world : ω) {units : List CompileUnit}
    (hd : units.Pairwise fun u v => compare u.primary v.primary ≠ .eq) (t : Tracker)
    (reached : OrderedSet Path) {u : CompileUnit} (hu : u ∈ units) {f : Fingerprint}
    (hf : t.fingerprints.get? u.primary = some f) :
    (units.foldl (integrateUnit world) (t, reached)).1.state.inputs.get? u.primary
      = some (if Reported world u then some f else none) := by
  induction units generalizing t reached with
  | nil => exact absurd hu List.not_mem_nil
  | cons v rest ih =>
    obtain ⟨hhead, hrest⟩ := List.pairwise_cons.1 hd
    rw [List.foldl_cons]
    rcases List.mem_cons.1 hu with rfl | hu
    · rw [integrateUnit_of_tracked hf, get?_foldl_integrateUnit_of_not world _ _ fun w hw he =>
        hhead w hw (Std.OrientedCmp.eq_symm he)]
      exact (BuildState.get?_integrate _ _ _ _ _).trans (if_pos Std.ReflOrd.compare_self)
    · cases hv : t.fingerprints.get? v.primary with
      | none =>
        rw [integrateUnit_of_untracked hv]
        exact ih hrest t reached hu hf
      | some g =>
        rw [integrateUnit_of_tracked hv]
        exact ih hrest _ _ hu hf

/-- **An input that no report reaches sees no difference.** -/
theorem agreesFor_foldl_integrateUnit (world : ω) {units : List CompileUnit} {t : Tracker}
    (reached : OrderedSet Path) {q : Path} (h : ∀ u ∈ units, compare u.primary q ≠ .eq)
    (hout : (units.foldl (integrateUnit world) (t, reached)).2.contains q = false) :
    t.state.graph.AgreesFor
      (units.foldl (integrateUnit world) (t, reached)).1.state.graph q := by
  induction units generalizing t reached with
  | nil => exact .refl _ q
  | cons u rest ih =>
    have hrest := fun v hv => h v (List.mem_cons_of_mem u hv)
    rw [List.foldl_cons] at hout ⊢
    cases hf : t.fingerprints.get? u.primary with
    | none =>
      rw [integrateUnit_of_untracked hf] at hout ⊢
      exact ih reached hrest hout
    | some f =>
      rw [integrateUnit_of_tracked hf] at hout ⊢
      have hhere : (t.state.integrate u.primary f (recordOf? world u)).2.files.contains q
          = false := by
        rw [← Bool.not_eq_true] at hout ⊢
        refine fun hin => hout ((retains_foldl_integrateUnit world rest _ _).2 q ?_)
        rw [OrderedSet.contains_union, hin, Bool.or_true]
      exact .trans (t.state.agreesFor_integrate f _ (h u List.mem_cons_self) hhere)
        (ih _ hrest hout)

end Units

section Invalidation

/-- An input is compiled by the same job in every spelling. -/
theorem compileOf?_congr {t t' : Tracker} (ht : t'.plan = t.plan) {p q : Path}
    (h : compare p q = .eq) : t'.compileOf? p = t.compileOf? q := by
  have hcontains (job : Job) : job.primaries.contains p = job.primaries.contains q := by
    rw [Bool.eq_iff_iff, List.contains_iff_exists_mem_beq, List.contains_iff_exists_mem_beq]
    refine exists_congr fun s => and_congr_right fun _ => ?_
    rw [Path.beq_iff, Path.beq_iff, Path.compare_eq_iff.1 h]
  unfold compileOf?
  rw [ht]
  simp only [hcontains]

/-- Whether the job that compiles an input was left out of the plan. -/
def LeftOut (t : Tracker) (p : Path) (id : JobId) : Prop :=
  t.compileOf? p = some id ∧ (t.plan.disposition id).isScheduled = false

/-- What was left out was so before, since neither the plan nor the inputs have changed. -/
theorem Retains.leftOut_iff {t t' : Tracker} (h : t.Retains t') {p : Path} {id : JobId} :
    t'.LeftOut p id ↔ t.LeftOut p id := by
  unfold LeftOut
  rw [compileOf?_congr h.plan Std.ReflOrd.compare_self, h.plan]

/-- **What invalidating some inputs leaves**: each input is as it was, or has become
dirty and lost its fingerprint, and then its compile job is among the roots. -/
structure Invalidated (paths : List Path) (t t' : Tracker) (roots : OrderedSet JobId) :
    Prop where
  plan : t'.plan = t.plan
  fingerprints : t'.fingerprints = t.fingerprints
  graph : t'.state.graph = t.state.graph
  staleJobs : t'.state.staleJobs = t.state.staleJobs
  options : t'.state.options = t.state.options
  commands : t'.state.commands = t.state.commands
  cases : ∀ q,
    (t'.dirty.contains q = t.dirty.contains q ∧
      t'.state.inputs.get? q = t.state.inputs.get? q) ∨
    (t.dirty.contains q = false ∧ t'.dirty.contains q = true ∧
      t'.state.inputs.get? q = some none ∧ ∃ id ∈ roots.toList, t.LeftOut q id)
  covered : ∀ p ∈ paths, ∀ id, t.LeftOut p id → t'.dirty.contains p = true
  origin : ∀ id ∈ roots.toList, ∃ p ∈ paths, t.LeftOut p id ∧ t'.dirty.contains p = true

/-- Without a path nothing becomes invalid. -/
theorem Invalidated.refl (t : Tracker) : Invalidated [] t t ∅ where
  plan := rfl
  fingerprints := rfl
  graph := rfl
  staleJobs := rfl
  options := rfl
  commands := rfl
  cases _ := .inl ⟨rfl, rfl⟩
  covered _ h := absurd h List.not_mem_nil
  origin _ h := absurd h List.not_mem_nil

/-- One input more is covered already if its job was not left out, or if it is dirty. -/
theorem Invalidated.stay {paths : List Path} {t t' : Tracker} {roots : OrderedSet JobId}
    (h : Invalidated paths t t' roots) {p : Path}
    (hp : ∀ id, t.LeftOut p id → t'.dirty.contains p = true) :
    Invalidated (paths ++ [p]) t t' roots :=
  { h with
    covered := fun q hq id hid => by
      rcases List.mem_append.1 hq with hq | hq
      · exact h.covered q hq id hid
      · obtain rfl := List.mem_singleton.1 hq
        exact hp id hid
    origin := fun id hid => by
      obtain ⟨q, hq, hrest⟩ := h.origin id hid
      exact ⟨q, List.mem_append_left _ hq, hrest⟩ }

/-- Otherwise it becomes dirty and loses its fingerprint, and its job is a root. -/
theorem Invalidated.mark {paths : List Path} {t t' : Tracker} {roots : OrderedSet JobId}
    (h : Invalidated paths t t' roots) {p : Path} {id : JobId} (hleft : t.LeftOut p id)
    (hclean : t'.dirty.contains p = false) :
    Invalidated (paths ++ [p]) t
      { t' with
        dirty := (DirtySet.add t'.dirty p .interfaceChanged).1
        state := t'.state.markNeedsRebuild p } (OrderedSet.add roots id) := by
  have hdirty (q : Path) := DirtySet.contains_add t'.dirty p q .interfaceChanged
  have hget (q : Path) : (t'.state.markNeedsRebuild p).inputs.get? q
      = if compare p q = .eq then some none else t'.state.inputs.get? q :=
    OrderedMap.get?_insert _ p q none
  have hroots : id ∈ (OrderedSet.add roots id).toList := OrderedSet.mem_toList_add.2 (.inl rfl)
  have hmarked : (DirtySet.add t'.dirty p .interfaceChanged).1.contains p = true := by
    rw [hdirty, Std.ReflOrd.compare_self, beq_self_eq_true, Bool.or_true]
  have hstill {q : Path} (hq : t'.dirty.contains q = true) :
      (DirtySet.add t'.dirty p .interfaceChanged).1.contains q = true := by
    rw [hdirty, hq, Bool.true_or]
  refine ⟨h.plan, h.fingerprints, h.graph, h.staleJobs, h.options, h.commands, fun q => ?_,
    fun q hq id' hid' => ?_, fun id' hid' => ?_⟩
  · by_cases hq : compare p q = .eq
    · refine .inr ⟨?_, ?_, (hget q).trans (if_pos hq), id, hroots,
        (compileOf?_congr rfl hq).symm.trans hleft.1, hleft.2⟩
      · rw [OrderedMap.contains_congr _ hq] at hclean
        rcases h.cases q with hc | hc
        · exact hc.1.symm.trans hclean
        · exact hc.1
      · rw [← OrderedMap.contains_congr _ hq]
        exact hmarked
    · have hsame : (DirtySet.add t'.dirty p .interfaceChanged).1.contains q
          = t'.dirty.contains q := by
        rw [hdirty, beq_eq_false_iff_ne.2 hq, Bool.or_false]
      rcases h.cases q with hc | ⟨hc, hc', hc'', id', hid', hleft'⟩
      · exact .inl ⟨hsame.trans hc.1, ((hget q).trans (if_neg hq)).trans hc.2⟩
      · exact .inr ⟨hc, hsame.trans hc', ((hget q).trans (if_neg hq)).trans hc'', id',
          OrderedSet.mem_toList_add.2 (.inr hid'), hleft'⟩
  · rcases List.mem_append.1 hq with hq | hq
    · exact hstill (h.covered q hq id' hid')
    · obtain rfl := List.mem_singleton.1 hq
      exact hmarked
  · rcases OrderedSet.mem_toList_add.1 hid' with rfl | hid'
    · exact ⟨p, List.mem_append_right _ List.mem_cons_self, hleft, hmarked⟩
    · obtain ⟨q, hqp, hq, hqd⟩ := h.origin id' hid'
      exact ⟨q, List.mem_append_left _ hqp, hq, hstill hqd⟩

/-- **Invalidating one input more.** -/
theorem Invalidated.step {paths : List Path} {t t' : Tracker} {roots : OrderedSet JobId}
    (h : Invalidated paths t t' roots) (p : Path) :
    Invalidated (paths ++ [p]) t (invalidate (t', roots) p).1 (invalidate (t', roots) p).2 := by
  have hcompile : t'.compileOf? p = t.compileOf? p :=
    compileOf?_congr h.plan Std.ReflOrd.compare_self
  unfold invalidate
  dsimp only
  rw [hcompile]
  cases hid : t.compileOf? p with
  | none => exact h.stay fun id hleft => by cases hid.symm.trans hleft.1
  | some id =>
    dsimp only
    split
    · rename_i hor
      refine h.stay fun id' hleft => ?_
      obtain rfl : id = id' := Option.some.inj (hid.symm.trans hleft.1)
      rw [h.plan, hleft.2, Bool.false_or] at hor
      exact hor
    · rename_i hor
      rw [Bool.not_eq_true, Bool.or_eq_false_iff, h.plan] at hor
      exact h.mark ⟨hid, hor.1⟩ hor.2

/-- **Paths become invalid one after the other**, and the roots are gathered. -/
theorem invalidated_foldl (t : Tracker) (paths : List Path) :
    Invalidated paths t (paths.foldl invalidate (t, ∅)).1 (paths.foldl invalidate (t, ∅)).2 := by
  have key (rest done : List Path) (acc : Tracker × OrderedSet JobId)
      (h : Invalidated done t acc.1 acc.2) :
      Invalidated (done ++ rest) t (rest.foldl invalidate acc).1 (rest.foldl invalidate acc).2 := by
    induction rest generalizing done acc with
    | nil => rwa [List.append_nil]
    | cons p rest ih =>
      rw [List.append_cons]
      exact ih _ _ (h.step p)
  exact key paths [] (t, ∅) (.refl t)

/-- **What is invalidated is revived**: an input that was not dirty loses its place among what is
left out. -/
theorem Invalidated.mem_roots {reached : OrderedSet Path} {t t' : Tracker}
    {roots : OrderedSet JobId} (h : Invalidated reached.toList t t' roots) {q : Path} {id : JobId}
    (hq : reached.contains q = true) (hleft : t.LeftOut q id)
    (hclean : t.dirty.contains q = false) : id ∈ roots.toList := by
  obtain ⟨p, hp, hpq⟩ := OrderedMap.contains_iff_keys.1 hq
  have hcovered := h.covered p hp id ⟨(compileOf?_congr rfl hpq).trans hleft.1, hleft.2⟩
  rw [OrderedMap.contains_congr _ hpq] at hcovered
  rcases h.cases q with hsame | ⟨-, -, -, id', hid', hleft'⟩
  · rw [hcovered, hclean] at hsame
    cases hsame.1
  · rwa [← Option.some.inj (hleft'.1.symm.trans hleft.1)]

end Invalidation

/-! ## Successes of any job -/

/-- Remembers the contents of one input, if it is tracked. -/
def recordOne (t : Tracker) (s : BuildState) (p : Path) : BuildState :=
  match t.fingerprints.get? p with
  | some f => s.recordFingerprint p f
  | none => s

/-- Recording several inputs changes the state only, one input at a time. -/
theorem recordAll_state (t : Tracker) (paths : List Path) :
    (t.recordAll paths).state = paths.foldl t.recordOne t.state := rfl

/-- What remembering some contents leaves alone. -/
theorem recordAll_rest (t : Tracker) (paths : List Path) :
    (t.recordAll paths).state.graph = t.state.graph ∧
      (t.recordAll paths).state.staleJobs = t.state.staleJobs ∧
      (t.recordAll paths).state.options = t.state.options ∧
      (t.recordAll paths).state.commands = t.state.commands := by
  rw [recordAll_state]
  generalize t.state = s
  induction paths generalizing s with
  | nil => exact ⟨rfl, rfl, rfl, rfl⟩
  | cons p rest ih =>
    have hone : (t.recordOne s p).graph = s.graph ∧ (t.recordOne s p).staleJobs = s.staleJobs ∧
        (t.recordOne s p).options = s.options ∧ (t.recordOne s p).commands = s.commands := by
      unfold recordOne
      cases t.fingerprints.get? p <;> exact ⟨rfl, rfl, rfl, rfl⟩
    obtain ⟨h₁, h₂, h₃, h₄⟩ := ih (t.recordOne s p)
    exact ⟨h₁.trans hone.1, h₂.trans hone.2.1, h₃.trans hone.2.2.1, h₄.trans hone.2.2.2⟩

/-- **What remembering the contents of some inputs does**: those that are tracked have
their fingerprints, and all others keep theirs. -/
theorem get?_recordAll (t : Tracker) (paths : List Path) (q : Path) :
    (t.recordAll paths).state.inputs.get? q
      = if (∃ p ∈ paths, compare p q = .eq) ∧ (t.fingerprints.get? q).isSome then
          some (t.fingerprints.get? q)
        else t.state.inputs.get? q := by
  rw [recordAll_state]
  generalize t.state = s
  induction paths generalizing s with
  | nil => simp
  | cons p rest ih =>
    have hone : (t.recordOne s p).inputs.get? q
        = if compare p q = .eq ∧ (t.fingerprints.get? q).isSome then some (t.fingerprints.get? q)
          else s.inputs.get? q := by
      unfold recordOne
      by_cases hpq : compare p q = .eq
      · rw [OrderedMap.get?_congr t.fingerprints hpq]
        cases t.fingerprints.get? q with
        | none => simp
        | some f => exact (OrderedMap.get?_insert _ p q (some f)).trans (by simp [hpq])
      · rw [if_neg fun h => hpq h.1]
        cases t.fingerprints.get? p with
        | none => rfl
        | some f => exact (OrderedMap.get?_insert _ p q (some f)).trans (if_neg hpq)
    rw [List.foldl_cons, ih, hone]
    by_cases hf : (t.fingerprints.get? q).isSome = true
    · by_cases hrest : ∃ p ∈ rest, compare p q = .eq
      · simp [hf, hrest]
      · by_cases hpq : compare p q = .eq <;> simp [hf, hrest, hpq]
    · simp [hf]

/-- The inputs of which the success of a job is noted. -/
def notedBy (job : Job) : List Path :=
  match job.kind with
  | .compile _ true => job.sourceInputs
  | .compile units false => units.map (·.primary)
  | .precompileHeader header => [header]
  | _ => []

/-- **What the tracker answers to a success.** An input becomes dirty only if its
compile job was left out and is now a root. Fingerprints change for the inputs that the
job is noted for and for those that become dirty. And an input whose compile job was
left out and is no root sees no difference in the declarations. -/
structure Answered (job : Job) (t t' : Tracker) (roots : List JobId) : Prop where
  plan : t'.plan = t.plan
  fingerprints : t'.fingerprints = t.fingerprints
  staleJobs : t'.state.staleJobs = t.state.staleJobs
  options : t'.state.options = t.state.options
  commands : t'.state.commands = t.state.commands
  dirty : ∀ q, t'.dirty.contains q = t.dirty.contains q ∨
    t.dirty.contains q = false ∧ t'.dirty.contains q = true ∧ ∃ id ∈ roots, t.LeftOut q id
  kept : ∀ q, (∀ p ∈ notedBy job, compare p q ≠ .eq) →
    t'.dirty.contains q = t.dirty.contains q → t'.state.inputs.get? q = t.state.inputs.get? q
  lost : ∀ q, t'.dirty.contains q ≠ t.dirty.contains q → t'.state.inputs.get? q = some none
  origin : ∀ id ∈ roots, ∃ p, t.LeftOut p id ∧ t'.dirty.contains p = true
  uniqueKeys : t.state.graph.UniqueKeys → t'.state.graph.UniqueKeys
  agrees : t.state.graph.UniqueKeys → ∀ q id, (∀ p ∈ job.primaries, compare p q ≠ .eq) →
    t.LeftOut q id → t.dirty.contains q = false → id ∉ roots →
    t.state.graph.AgreesFor t'.state.graph q

section Answer

variable {ω : Type} [FileSystem ω]

/-- Recording inputs that a job notes is an answer to its success. -/
theorem answered_recordAll (job : Job) (t : Tracker) {paths : List Path}
    (h : ∀ p ∈ paths, p ∈ notedBy job) : Answered job t (t.recordAll paths) [] := by
  obtain ⟨hgraph, hstale, hoptions, hcommands⟩ := recordAll_rest t paths
  refine ⟨rfl, rfl, hstale, hoptions, hcommands, fun q => .inl rfl, fun q hq _ => ?_,
    fun q hne => absurd rfl hne, fun id hid => absurd hid List.not_mem_nil, fun hu => ?_,
    fun hu q id _ _ _ _ => ?_⟩
  · rw [get?_recordAll, if_neg]
    rintro ⟨⟨p, hp, hpq⟩, -⟩
    exact hq p (h p hp) hpq
  · rw [hgraph]
    exact hu
  · rw [hgraph]
    exact .refl _ q

/-- The two passes over the units of a compile job. -/
theorem jobSucceeded_units (world : ω) (t : Tracker) {job : Job} {units : List CompileUnit}
    (hk : job.kind = .compile units false) :
    ∃ t₁ reached t₂ roots,
      units.foldl (integrateUnit world) (t, ∅) = (t₁, reached) ∧
      Invalidated reached.toList t₁ t₂ roots ∧
      jobSucceeded world t job = (t₂, roots.toList) := by
  have h := invalidated_foldl (units.foldl (integrateUnit world) (t, ∅)).1
    (units.foldl (integrateUnit world) (t, ∅)).2.toList
  refine ⟨_, _, _, _, rfl, h, ?_⟩
  unfold jobSucceeded
  rw [hk]

/-- Where a job has no units of its own, its success changes no declarations and revives
nothing. -/
theorem jobSucceeded_of_units_eq_nil (world : ω) (t : Tracker) {job : Job} (h : job.units = []) :
    (jobSucceeded world t job).2 = [] ∧
      (jobSucceeded world t job).1.state.graph = t.state.graph := by
  unfold Job.units at h
  unfold jobSucceeded
  cases hk : job.kind with
  | compile units wholeModule =>
    rw [hk] at h
    dsimp only at h
    subst h
    cases wholeModule with
    | true => exact ⟨rfl, (recordAll_rest t job.sourceInputs).1⟩
    | false => exact ⟨rfl, rfl⟩
  | precompileHeader header => exact ⟨rfl, (recordAll_rest t [header]).1⟩
  | mergeModule name | generateInterface name | buildModule name | link output => exact ⟨rfl, rfl⟩

/-- Taking in what a compile job has written is an answer to its success. -/
theorem answered_units (world : ω) (t : Tracker) {job : Job} {units : List CompileUnit}
    (hk : job.kind = .compile units false) :
    Answered job t (jobSucceeded world t job).1 (jobSucceeded world t job).2 := by
  obtain ⟨t₁, reached, t₂, roots, hfirst, hsecond, hanswer⟩ := jobSucceeded_units world t hk
  have hretains := (retains_foldl_integrateUnit world units t ∅).1
  have hprimaries : job.primaries = units.map (·.primary) := by
    unfold Job.primaries Job.units
    rw [hk]
  rw [hfirst] at hretains
  rw [hanswer]
  refine ⟨hsecond.plan.trans hretains.plan, hsecond.fingerprints.trans hretains.fingerprints,
    hsecond.staleJobs.trans hretains.staleJobs, hsecond.options.trans hretains.options,
    hsecond.commands.trans hretains.commands, fun q => ?_, fun q hq hsame => ?_,
    fun q hne => ?_, fun id hid => ?_, fun hu => ?_, fun hu q id hq hout hclean hno => ?_⟩
  · rw [← hretains.dirty]
    rcases hsecond.cases q with h | ⟨h, h', -, id, hid, hl⟩
    · exact .inl h.1
    · exact .inr ⟨h, h', id, hid, hretains.leftOut_iff.1 hl⟩
  · rw [← hretains.dirty] at hsame
    rcases hsecond.cases q with h | ⟨h, h', -⟩
    · have hnoted : ∀ u ∈ units, compare u.primary q ≠ .eq := fun u hu => hq u.primary (by
        unfold notedBy
        rw [hk]
        exact List.mem_map.2 ⟨u, hu, rfl⟩)
      have := get?_foldl_integrateUnit_of_not world t ∅ hnoted
      rw [hfirst] at this
      exact h.2.trans this
    · rw [h, h'] at hsame
      cases hsame
  · rw [← hretains.dirty] at hne
    rcases hsecond.cases q with h | h
    · exact absurd h.1 hne
    · exact h.2.2.1
  · obtain ⟨p, -, hp, hd⟩ := hsecond.origin id hid
    exact ⟨p, hretains.leftOut_iff.1 hp, hd⟩
  · exact DependencyGraph.uniqueKeys _
  · have hunits : ∀ u ∈ units, compare u.primary q ≠ .eq := fun u hu =>
      hq u.primary (hprimaries ▸ List.mem_map.2 ⟨u, hu, rfl⟩)
    have hagrees := agreesFor_foldl_integrateUnit world (t := t) ∅ hunits
    rw [hfirst] at hagrees
    rw [hsecond.graph]
    refine hagrees ?_
    -- Had a report reached the input, its job would be among the roots.
    rw [← Bool.not_eq_true]
    intro hreached
    exact hno (hsecond.mem_roots hreached (hretains.leftOut_iff.2 hout)
      ((congrArg (OrderedMap.contains · q) hretains.dirty).trans hclean))

/-- **Whatever job succeeds, the tracker answers so.** -/
theorem answered_jobSucceeded (world : ω) (t : Tracker) (job : Job) :
    Answered job t (jobSucceeded world t job).1 (jobSucceeded world t job).2 := by
  have hnone : ∀ p ∈ ([] : List Path), p ∈ notedBy job := fun p hp => absurd hp List.not_mem_nil
  have hnothing : Answered job t t [] := answered_recordAll job t hnone
  cases hk : job.kind with
  | compile units wholeModule =>
    cases wholeModule with
    | true =>
      have : jobSucceeded world t job = (t.recordAll job.sourceInputs, []) := by
        unfold jobSucceeded
        rw [hk]
      rw [this]
      refine answered_recordAll job t fun p hp => ?_
      unfold notedBy
      rwa [hk]
    | false => exact answered_units world t hk
  | precompileHeader header =>
    have : jobSucceeded world t job = (t.recordAll [header], []) := by
      unfold jobSucceeded
      rw [hk]
    rw [this]
    refine answered_recordAll job t fun p hp => ?_
    unfold notedBy
    rwa [hk]
  | mergeModule name | generateInterface name | buildModule name | link output =>
    have : jobSucceeded world t job = (t, []) := by
      unfold jobSucceeded
      rw [hk]
    rw [this]
    exact hnothing

/-- **What holds of the declarations** and is kept when those of a record take the place of
their file's, holds after a success. -/
theorem graph_jobSucceeded {P : DependencyGraph → Prop} (world : ω) (t : Tracker) {job : Job}
    (ht : P t.state.graph)
    (hstep : ∀ u ∈ job.units, ∀ d, recordOf? world u = some d → ∀ g, P g →
      P (g.replace u.primary d.declarations).1) :
    P (jobSucceeded world t job).1.state.graph := by
  -- Unit by unit, where only a record that is read and names the unit's file changes the graph.
  have hunits (units : List CompileUnit) (hu : ∀ u ∈ units, u ∈ job.units) (t : Tracker)
      (reached : OrderedSet Path) (ht : P t.state.graph) :
      P (units.foldl (integrateUnit world) (t, reached)).1.state.graph := by
    induction units generalizing t reached with
    | nil => exact ht
    | cons u rest ih =>
      have hrest := ih fun v hv => hu v (List.mem_cons_of_mem u hv)
      rw [List.foldl_cons]
      cases hf : t.fingerprints.get? u.primary with
      | none =>
        rw [integrateUnit_of_untracked hf]
        exact hrest t reached ht
      | some f =>
        rw [integrateUnit_of_tracked hf]
        refine hrest _ _ ?_
        show P (t.state.integrate u.primary f (recordOf? world u)).1.graph
        unfold BuildState.integrate
        cases hd : (recordOf? world u).filter (fun d => d.source == u.primary) with
        | none => exact ht
        | some d =>
          exact hstep u (hu u List.mem_cons_self) d (Option.filter_eq_some_iff.1 hd).1 _ ht
  cases hk : job.kind with
  | compile units wholeModule =>
    have hof : ∀ u ∈ units, u ∈ job.units := by
      unfold Job.units
      rw [hk]
      exact fun u hu => hu
    cases wholeModule with
    | true =>
      unfold jobSucceeded
      rw [hk]
      dsimp only
      rw [(recordAll_rest t job.sourceInputs).1]
      exact ht
    | false =>
      -- The second pass, over the files that were reached, does not touch the graph.
      obtain ⟨t₁, reached, t₂, roots, hfirst, hsecond, hanswer⟩ := jobSucceeded_units world t hk
      have := hunits units hof t ∅ ht
      rw [hfirst] at this
      rw [hanswer]
      exact hsecond.graph ▸ this
  | precompileHeader header =>
    unfold jobSucceeded
    rw [hk]
    dsimp only
    rw [(recordAll_rest t [header]).1]
    exact ht
  | mergeModule name | generateInterface name | buildModule name | link output =>
    unfold jobSucceeded
    rw [hk]
    exact ht

/-- **After its compilation an input has its fingerprint exactly if its record is of
it**, provided it has not become dirty meanwhile. -/
theorem get?_jobSucceeded_oneByOne (world : ω) (t : Tracker) {job : Job}
    {units : List CompileUnit} (hjob : job.OneByOne units) {u : CompileUnit} (hu : u ∈ units)
    {f : Fingerprint} (hf : t.fingerprints.get? u.primary = some f)
    (hdirty : (jobSucceeded world t job).1.dirty.contains u.primary
      = t.dirty.contains u.primary) :
    (jobSucceeded world t job).1.state.inputs.get? u.primary
      = some (if Reported world u then some f else none) := by
  obtain ⟨t₁, reached, t₂, roots, hfirst, hsecond, hanswer⟩ :=
    jobSucceeded_units world t hjob.kind_eq
  have hretains := (retains_foldl_integrateUnit world units t ∅).1
  have hget := get?_foldl_integrateUnit world hjob.distinct t ∅ hu hf
  rw [hfirst] at hretains hget
  rw [hanswer] at hdirty ⊢
  rcases hsecond.cases u.primary with h | ⟨h, h', -⟩
  · exact h.2.trans hget
  · rw [← hretains.dirty, h, h'] at hdirty
    cases hdirty

/-- After the module was compiled as a whole every input has its fingerprint. -/
theorem get?_jobSucceeded_together (world : ω) (t : Tracker) {job : Job}
    {units : List CompileUnit} (hk : job.kind = .compile units true) {q : Path}
    (hq : ∃ p ∈ job.sourceInputs, compare p q = .eq) {f : Fingerprint}
    (hf : t.fingerprints.get? q = some f) :
    (jobSucceeded world t job).1.state.inputs.get? q = some (some f) := by
  have : jobSucceeded world t job = (t.recordAll job.sourceInputs, []) := by
    unfold jobSucceeded
    rw [hk]
  rw [this]
  show (t.recordAll job.sourceInputs).state.inputs.get? q = _
  rw [get?_recordAll, if_pos ⟨hq, by rw [hf]; rfl⟩, hf]

/-- After the header was compiled it has its fingerprint. -/
theorem get?_jobSucceeded_header (world : ω) (t : Tracker) {job : Job} {p q : Path}
    (hk : job.kind = .precompileHeader p) (hq : compare p q = .eq) {f : Fingerprint}
    (hf : t.fingerprints.get? q = some f) :
    (jobSucceeded world t job).1.state.inputs.get? q = some (some f) := by
  have : jobSucceeded world t job = (t.recordAll [p], []) := by
    unfold jobSucceeded
    rw [hk]
  rw [this]
  show (t.recordAll [p]).state.inputs.get? q = _
  rw [get?_recordAll, if_pos ⟨⟨p, List.mem_cons_self, hq⟩, by rw [hf]; rfl⟩, hf]

end Answer

end Tracker

end IncrementalBuild
