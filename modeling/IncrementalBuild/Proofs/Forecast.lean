import IncrementalBuild.Proofs.Tracking

/-!
# What a build compiles, told beforehand

Which inputs a build compiles is decided while it runs: a report may revive a compile job that
was left out, and whom it reaches depends on what was reported before. Most of this is settled
beforehand, though. Every unit reports once, so the keys that its report changes are those that
differ from what its input declared at first, whenever the report comes; and what is built on the
interface of a changed key is reached at any time. Only a key that is given up reaches those that
merely use it at one time and not at another, as it does so while no file declares it.

So a unit is *due* if it is scheduled, or if some due units could have reported so that the last
report reaches it. This does not speak of jobs or of time. Whatever a build compiles is due, and
where no key moves from one file to another, whatever is due is compiled.
-/

namespace IncrementalBuild

/-- Which keys a file declares can be told from its declarations. -/
theorem DeclarationStore.Declares.of_eq {s s' : DeclarationStore} {p : Path} {key : String}
    {f : Fingerprint} (h : s.Declares p key f) (he : s'.declarationsOf p = s.declarationsOf p) :
    s'.Declares p key f := by
  unfold Declares at h ⊢
  rwa [he]

namespace DependencyGraph

/-- **Whether a key moves** between two graphs: it is declared in both, but no file declares it
in both. -/
def Moves (g g' : DependencyGraph) (key : String) : Prop :=
  g.Provides key ∧ g'.Provides key ∧ ∀ p f f', g.Declares p key f → ¬ g'.Declares p key f'

/-- What is removed was there. -/
theorem exists_get?_of_removed_mem {old new : OrderedMap String Fingerprint} {change : KeyChange}
    (h : change ∈ keyChanges old new) (hk : change.kind = .removed) :
    ∃ f, old.get? change.key = some f := by
  rcases List.mem_append.1 h with h | h
  · obtain ⟨⟨key, f⟩, -, he⟩ := List.mem_filterMap.1 h
    dsimp only at he
    split at he
    · obtain rfl := Option.some.inj he
      cases hk
    · split at he
      · cases he
      · obtain rfl := Option.some.inj he
        cases hk
  · obtain ⟨key, hkey, rfl⟩ := List.mem_map.1 h
    refine Option.isSome_iff_exists.1 ?_
    rw [OrderedMap.isSome_get?]
    exact OrderedMap.contains_iff_mem_keys.2 (List.mem_filter.1 hkey).1

end DependencyGraph

/-- **What can be told of a build beforehand**: what is declared at first, and the record that is
read once a unit has been compiled. -/
structure Forecast where
  graph : DependencyGraph
  record : CompileUnit → Option DependencyRecord

namespace Forecast

open DependencyGraph

section Reports

variable (F : Forecast)

/-- The record of a unit, if it is of the input. -/
def usable (u : CompileUnit) : Option DependencyRecord :=
  (F.record u).filter (fun d => d.source == u.primary)

/-- What an input declares once it has been compiled. -/
def declared (u : CompileUnit) : List Declaration :=
  match F.usable u with
  | some d => mergeDeclarations d.declarations
  | none => F.graph.declarationsOf u.primary

/-- The keys that change when an input is compiled. -/
def changes (u : CompileUnit) : List KeyChange :=
  match F.usable u with
  | some d => keyChanges (fingerprintsByKey (F.graph.declarationsOf u.primary))
      (fingerprintsByKey (mergeDeclarations d.declarations))
  | none => (F.graph.declarationsOf u.primary).map (⟨·.key, .modified⟩)

/-- **Whether some declarations are what is left when some units have reported**, in whatever
order. -/
structure Follows (reported : CompileUnit → Prop) (g : DependencyGraph) : Prop where
  taken : ∀ u, reported u → g.declarationsOf u.primary = F.declared u
  kept : ∀ q, (∀ u, reported u → compare u.primary q ≠ .eq) →
    g.declarationsOf q = F.graph.declarationsOf q

/-- Whether the report of a unit reaches a file where some declarations are left. -/
def Reaches (g : DependencyGraph) (u : CompileUnit) (q : Path) : Prop :=
  compare u.primary q ≠ .eq ∧ ∃ d ∈ g.declarationsOf q, ∃ change ∈ F.changes u, g.Reaches change d

/-- Whether something that a file declares at first is built on the interface of a key that the
report of a unit changes. -/
def Touches (u : CompileUnit) (q : Path) : Prop :=
  ∃ d ∈ F.graph.declarationsOf q, ∃ change ∈ F.changes u, change.key ∈ d.provides

variable {F} {reported : CompileUnit → Prop} {g : DependencyGraph} {u : CompileUnit} {q : Path}

theorem Follows.congr {reported' : CompileUnit → Prop} (h : F.Follows reported g)
    (hr : ∀ u, reported u ↔ reported' u) : F.Follows reported' g := by
  obtain rfl : reported = reported' := funext fun u => propext (hr u)
  exact h

/-- **With fewer reports a file declares** what it declares at first or what it does with all of
them. -/
theorem Follows.eq_or_eq {reported' : CompileUnit → Prop} {g' : DependencyGraph}
    (h : F.Follows reported g) (h' : F.Follows reported' g')
    (hsub : ∀ u, reported' u → reported u) (q : Path) :
    g'.declarationsOf q = F.graph.declarationsOf q ∨ g'.declarationsOf q = g.declarationsOf q := by
  by_cases hq : ∃ u, reported' u ∧ compare u.primary q = .eq
  · obtain ⟨u, hu, huq⟩ := hq
    right
    rw [← g'.declarationsOf_congr huq, ← g.declarationsOf_congr huq, h'.taken u hu,
      h.taken u (hsub u hu)]
  · exact .inl (h'.kept q fun u hu huq => hq ⟨u, hu, huq⟩)

/-- **A key that moves with fewer reports moves with all of them.** -/
theorem Follows.moves {reported' : CompileUnit → Prop} {g' : DependencyGraph}
    (h : F.Follows reported g) (h' : F.Follows reported' g')
    (hsub : ∀ u, reported' u → reported u) {key : String} (hm : F.graph.Moves g' key) :
    F.graph.Moves g key := by
  obtain ⟨hbefore, ⟨q, f', hq⟩, hno⟩ := hm
  refine ⟨hbefore, ⟨q, f', ?_⟩, fun p f f'' hp hp' => ?_⟩
  · rcases h.eq_or_eq h' hsub q with he | he
    · exact absurd hq (hno q f' f' (.of_eq hq he.symm))
    · exact .of_eq hq he.symm
  · rcases h.eq_or_eq h' hsub p with he | he
    · exact hno p f f hp (.of_eq hp he)
    · exact hno p f f'' hp (.of_eq hp' he)

/-- What is removed was declared at first. -/
theorem declares_of_removed {change : KeyChange} (h : change ∈ F.changes u)
    (hk : change.kind = .removed) : ∃ f, F.graph.Declares u.primary change.key f := by
  unfold changes at h
  split at h
  · obtain ⟨f, hf⟩ := exists_get?_of_removed_mem h hk
    exact ⟨f, (get?_fingerprintsByKey (F.graph.uniqueKeys u.primary)).1 hf⟩
  · obtain ⟨d, -, rfl⟩ := List.mem_map.1 h
    cases hk

/-- **Taking over a report** that has not come yet goes as told beforehand. -/
theorem integrate_spec {s : BuildState}
    (h : s.graph.declarationsOf u.primary = F.graph.declarationsOf u.primary) (f : Fingerprint) :
    (∀ q, (s.integrate u.primary f (F.record u)).1.graph.declarationsOf q
      = if compare u.primary q = .eq then F.declared u else s.graph.declarationsOf q) ∧
    (s.integrate u.primary f (F.record u)).2.files
      = (s.integrate u.primary f (F.record u)).1.graph.filesAffectedBy (F.changes u)
        u.primary := by
  unfold BuildState.integrate declared changes usable
  cases (F.record u).filter (fun d => d.source == u.primary) with
  | some d =>
    refine ⟨fun q => declarationsOf_replace s.graph u.primary q d.declarations, ?_⟩
    rw [← h]
    rfl
  | none =>
    refine ⟨fun q => ?_, ?_⟩
    · show s.graph.declarationsOf q = _
      split
      · rename_i he
        rw [← h, s.graph.declarationsOf_congr he]
      · rfl
    · rw [← h]

/-- **One report more.** -/
theorem Follows.integrate {s : BuildState} (h : F.Follows reported s.graph)
    (hnew : ∀ v, reported v → compare v.primary u.primary ≠ .eq) (f : Fingerprint) :
    F.Follows (fun v => reported v ∨ v = u) (s.integrate u.primary f (F.record u)).1.graph := by
  obtain ⟨hgraph, -⟩ := integrate_spec (h.kept u.primary hnew) f
  refine ⟨fun v hv => ?_, fun q hq => ?_⟩
  · rw [hgraph]
    rcases hv with hv | rfl
    · rw [if_neg fun he => hnew v hv (Std.OrientedCmp.eq_symm he), h.taken v hv]
    · rw [if_pos Std.ReflOrd.compare_self]
  · rw [hgraph, if_neg (hq u (.inr rfl)), h.kept q fun v hv => hq v (.inl hv)]

/-- What a report touches it reaches, as long as the file has not reported itself. -/
theorem Touches.reaches (h : F.Touches u q) (hf : F.Follows reported g)
    (hq : ∀ v, reported v → compare v.primary q ≠ .eq) (hu : compare u.primary q ≠ .eq) :
    F.Reaches g u q := by
  obtain ⟨d, hd, change, hchange, hkey⟩ := h
  exact ⟨hu, d, (hf.kept q hq).symm ▸ hd, change, hchange, .inl hkey⟩

/-- The files that the report of a unit reaches. -/
theorem contains_files_integrate {s : BuildState} (h : F.Follows reported s.graph)
    (hnew : ∀ v, reported v → compare v.primary u.primary ≠ .eq) (f : Fingerprint) :
    (s.integrate u.primary f (F.record u)).2.files.contains q = true ↔
      F.Reaches (s.integrate u.primary f (F.record u)).1.graph u q := by
  rw [(integrate_spec (h.kept u.primary hnew) f).2]
  exact (consistent _).contains_filesAffectedBy

end Reports

/-! ## Reports of one job -/

section Units

variable {ω : Type} [FileSystem ω] {world : ω} {F : Forecast} {units : List CompileUnit}
  {reported : CompileUnit → Prop} {t : Tracker}

/-- Whether the report of one of some units reaches a file, after others of them and some units
that have reported before. -/
def ReachedBy (F : Forecast) (reported : CompileUnit → Prop) (units : List CompileUnit)
    (q : Path) : Prop :=
  ∃ u ∈ units, ∃ (before : CompileUnit → Prop) (g : DependencyGraph), before u ∧
    (∀ v, before v → reported v ∨ v ∈ units) ∧ F.Follows before g ∧ F.Reaches g u q

/-- **The reports of a job** leave what they do beforehand, and reach whom they do. -/
theorem follows_foldl (reached : OrderedSet Path)
    (hd : units.Pairwise fun u v => compare u.primary v.primary ≠ .eq)
    (hf : F.Follows reported t.state.graph)
    (hnew : ∀ u ∈ units, ∀ v, reported v → compare v.primary u.primary ≠ .eq)
    (htracked : ∀ u ∈ units, (t.fingerprints.get? u.primary).isSome = true)
    (hread : ∀ u ∈ units, Tracker.recordOf? world u = F.record u) :
    F.Follows (fun v => reported v ∨ v ∈ units)
        (units.foldl (Tracker.integrateUnit world) (t, reached)).1.state.graph ∧
      (∀ q, (units.foldl (Tracker.integrateUnit world) (t, reached)).2.contains q = true →
        reached.contains q = true ∨ F.ReachedBy reported units q) ∧
      ∀ q, (∀ v, reported v ∨ v ∈ units → compare v.primary q ≠ .eq) →
        (reached.contains q = true ∨ ∃ u ∈ units, F.Touches u q) →
        (units.foldl (Tracker.integrateUnit world) (t, reached)).2.contains q = true := by
  induction units generalizing reported t reached with
  | nil =>
    refine ⟨hf.congr fun u => by simp, fun q hq => .inl hq, fun q _ h => ?_⟩
    exact h.resolve_right fun ⟨u, hu, _⟩ => absurd hu List.not_mem_nil
  | cons u rest ih =>
    obtain ⟨hhead, hrest⟩ := List.pairwise_cons.1 hd
    obtain ⟨f, hget⟩ := Option.isSome_iff_exists.1 (htracked u List.mem_cons_self)
    have hnewu := hnew u List.mem_cons_self
    have hmem (v : CompileUnit) :
        (reported v ∨ v = u) ∨ v ∈ rest ↔ reported v ∨ v ∈ u :: rest := by
      rw [List.mem_cons, or_assoc]
    -- The first report leaves what it does beforehand; the others come to a graph in which it
    -- was made.
    have hafter := hf.integrate hnewu f
    rw [List.foldl_cons, Tracker.integrateUnit_of_tracked hget, hread u List.mem_cons_self]
    obtain ⟨hfollows, hfrom, hto⟩ := ih
      (reached.union (t.state.integrate u.primary f (F.record u)).2.files)
      (t := { t with state := (t.state.integrate u.primary f (F.record u)).1 }) hrest hafter
      (fun v hv w hw => hw.elim (hnew v (List.mem_cons_of_mem u hv) w) fun e => e ▸ hhead v hv)
      (fun v hv => htracked v (List.mem_cons_of_mem u hv))
      fun v hv => hread v (List.mem_cons_of_mem u hv)
    refine ⟨hfollows.congr hmem, fun q hq => ?_, fun q hq h => ?_⟩
    -- Whoever is reached was reached by the first report or by a later one.
    · rcases hfrom q hq with h | ⟨v, hv, before, g, hbv, hbefore, hg, hreach⟩
      · rw [OrderedSet.contains_union, Bool.or_eq_true, contains_files_integrate hf hnewu] at h
        refine h.imp_right fun h => ⟨u, List.mem_cons_self, _, _, .inr rfl, fun v hv => ?_,
          hafter, h⟩
        exact (hmem v).1 (.inl hv)
      · exact .inr ⟨v, List.mem_cons_of_mem u hv, before, g, hbv,
          fun w hw => (hmem w).1 (hbefore w hw), hg, hreach⟩
    -- Whoever is touched by the first report is reached by it, if no report is its own.
    · refine hto q (fun v hv => hq v ((hmem v).1 hv)) ?_
      rw [OrderedSet.contains_union, Bool.or_eq_true, contains_files_integrate hf hnewu]
      rcases h with h | ⟨v, hv, htouches⟩
      · exact .inl (.inl h)
      rcases List.mem_cons.1 hv with rfl | hv
      · exact .inl (.inr (htouches.reaches hafter
          (fun w hw => hq w ((hmem w).1 (.inl hw))) (hq v (.inr List.mem_cons_self))))
      · exact .inr ⟨v, hv, htouches⟩

/-- **A success** leaves what it does beforehand, and revives jobs that are reached; and a job that
was left out and is not revived is not touched. -/
theorem follows_jobSucceeded {r : BuildRequest} {t t' : Tracker} {roots : List JobId} {job : Job}
    (hs : t.plan.Serves r) (hjob : job ∈ t.plan.graph.jobs)
    (htracked : ∀ i ∈ r.inputs, (t.fingerprints.get? i.path).isSome = true)
    (hf : F.Follows reported t.state.graph)
    (hnew : ∀ u ∈ job.units, ∀ v, reported v → compare v.primary u.primary ≠ .eq)
    (hread : ∀ u ∈ job.units, Tracker.recordOf? world u = F.record u)
    (hanswer : Tracker.jobSucceeded world t job = (t', roots)) :
    F.Follows (fun v => reported v ∨ v ∈ job.units) t'.state.graph ∧
      (∀ id ∈ roots, ∃ q, t.LeftOut q id ∧ F.ReachedBy reported job.units q) ∧
      ∀ q id, t.LeftOut q id → t.dirty.contains q = false → id ∉ roots →
        (∀ v, reported v ∨ v ∈ job.units → compare v.primary q ≠ .eq) →
        ∀ u ∈ job.units, ¬ F.Touches u q := by
  -- A job without units has no report to make.
  by_cases hunits : job.units = []
  · obtain ⟨hroots, hgraph⟩ := Tracker.jobSucceeded_of_units_eq_nil world t hunits
    rw [hanswer] at hroots hgraph
    subst hroots
    rw [hgraph, hunits]
    exact ⟨hf.congr fun v => by simp, fun id hid => absurd hid List.not_mem_nil,
      fun q id _ _ _ _ u hu => absurd hu List.not_mem_nil⟩
  · obtain ⟨u, hu⟩ := List.exists_mem_of_ne_nil _ hunits
    obtain ⟨-, hone, hof⟩ := hs.oneByOne_of_mem_units hjob hu
    obtain ⟨t₁, reached, t₂, roots', hfirst, hsecond, hanswer'⟩ :=
      Tracker.jobSucceeded_units world t hone.kind_eq
    obtain ⟨rfl, rfl⟩ := Prod.mk.inj (hanswer.symm.trans hanswer')
    have hretains := (Tracker.retains_foldl_integrateUnit world job.units t ∅).1
    obtain ⟨hfollows, hfrom, hto⟩ := follows_foldl ∅ hone.distinct hf hnew
      (fun v hv => by
        obtain ⟨i, hi, he⟩ := hof v hv
        exact he ▸ htracked i hi) hread
    rw [hfirst] at hretains hfollows hfrom hto
    refine ⟨hsecond.graph ▸ hfollows, fun id hid => ?_, fun q id hout hclean hno hq u hu ht => ?_⟩
    · obtain ⟨q, hq, hout, -⟩ := hsecond.origin id hid
      have hreached : reached.contains q = true :=
        OrderedMap.contains_iff_keys.2 ⟨q, hq, Std.ReflOrd.compare_self⟩
      exact ⟨q, hretains.leftOut_iff.1 hout, (hfrom q hreached).resolve_left Bool.false_ne_true⟩
    -- A job that was left out is a root if its input is reached, and a touched input is reached.
    · exact hno (hsecond.mem_roots (hto q hq (.inr ⟨u, hu, ht⟩)) (hretains.leftOut_iff.2 hout)
        ((congrArg (OrderedMap.contains · q) hretains.dirty).trans hclean))

end Units

end Forecast

/-! ## What is due -/

namespace BuildPlan

/-- The inputs that a plan compiles one by one. -/
def units (plan : BuildPlan) : List CompileUnit := plan.graph.jobs.flatMap Job.units

/-- Whether the job that compiles an input is scheduled. -/
def Schedules (plan : BuildPlan) (u : CompileUnit) : Prop :=
  ∃ job ∈ plan.graph.jobs, u ∈ job.units ∧ (plan.disposition job.id).isScheduled = true

/-- Whether the job that compiles an input has succeeded. -/
def Compiled (plan : BuildPlan) (s : Scheduler) (u : CompileUnit) : Prop :=
  ∃ job ∈ plan.graph.jobs, u ∈ job.units ∧ s.stateOf? job.id = some .succeeded

end BuildPlan

namespace Forecast

/-- **Whether an input is due**: it is scheduled, or it is reached by the report of an input that
is due, after some reports of inputs that are due. -/
inductive Due (F : Forecast) (plan : BuildPlan) : CompileUnit → Prop
  | scheduled {u} (h : plan.Schedules u) : Due F plan u
  | reached {u v before g} (hu : u ∈ plan.units) (hdue : ∀ w, before w → Due F plan w)
      (hv : before v) (hg : F.Follows before g) (hreach : F.Reaches g v u.primary) : Due F plan u

/-- What is due depends on the inputs that are planned and those that are scheduled, not on how
they are gathered in jobs. -/
theorem Due.of_same {F : Forecast} {plan plan' : BuildPlan} {u : CompileUnit} (h : F.Due plan u)
    (hunits : ∀ u ∈ plan.units, u ∈ plan'.units)
    (hscheduled : ∀ u, plan.Schedules u → plan'.Schedules u) : F.Due plan' u := by
  induction h with
  | scheduled h => exact .scheduled (hscheduled _ h)
  | reached hu _ hv hg hreach ih => exact .reached (hunits _ hu) ih hv hg hreach

theorem Reaches.congr {F : Forecast} {g : DependencyGraph} {u : CompileUnit} {p q : Path}
    (h : F.Reaches g u p) (hpq : compare p q = .eq) : F.Reaches g u q := by
  obtain ⟨hne, d, hd, hreach⟩ := h
  exact ⟨fun he => hne ((Std.TransCmp.congr_right hpq).trans he), d,
    g.declarationsOf_congr hpq ▸ hd, hreach⟩

section Course

variable {ω : Type} [FileSystem ω] {F : Forecast} {r : BuildRequest} {first t t' : Tracker}
  {s s' : Scheduler} {told : List (Told ω)} {job : Job} {roots dispatched : List JobId}

/-- Whether the records that were read are those that were told beforehand. -/
def Fulfilled (F : Forecast) (plan : BuildPlan) (told : List (Told ω)) : Prop :=
  ∀ x ∈ told, ∀ job ∈ plan.graph.jobs, x.event = .jobFinished job.id .succeeded →
    ∀ u ∈ job.units, Tracker.recordOf? x.world u = F.record u

/-- **What ties what was told beforehand to where the jobs stand.** -/
structure Explains (F : Forecast) (plan : BuildPlan) (s : Scheduler) (t : Tracker) : Prop where
  follows : F.Follows (plan.Compiled s) t.state.graph
  due : ∀ job ∈ plan.graph.jobs, ∀ u ∈ job.units, ¬ s.isClean job.id → F.Due plan u
  untouched : ∀ job ∈ plan.graph.jobs, ∀ u ∈ job.units, s.isClean job.id →
    ∀ v, plan.Compiled s v → ¬ F.Touches v u.primary

theorem Explains.congr {plan : BuildPlan} (h : F.Explains plan s t)
    (hclean : ∀ j, s'.isClean j ↔ s.isClean j)
    (hsucceeded : ∀ j, s'.stateOf? j = some .succeeded ↔ s.stateOf? j = some .succeeded) :
    F.Explains plan s' t := by
  have hcompiled (u : CompileUnit) : plan.Compiled s u ↔ plan.Compiled s' u :=
    exists_congr fun j => and_congr_right fun _ => and_congr_right fun _ => (hsucceeded j.id).symm
  exact ⟨h.follows.congr hcompiled, fun j hj u hu hc => h.due j hj u hu (mt (hclean _).2 hc),
    fun j hj u hu hc v hv => h.untouched j hj u hu ((hclean _).1 hc) v ((hcompiled v).2 hv)⟩

/-- **A success goes as told beforehand.** -/
theorem Explains.succeed (hb : first.Begins r)
    (htracked : ∀ i ∈ r.inputs, (first.fingerprints.get? i.path).isSome = true)
    (h : F.Explains first.plan s t) (hat : Tracker.Attends r first s t) (hs : s.Sound)
    (hplan : s.plan = first.plan) (hjob : job ∈ first.plan.graph.jobs)
    (hrun : s.stateOf? job.id = some .running) (world : ω)
    (hread : ∀ u ∈ job.units, Tracker.recordOf? world u = F.record u)
    (hanswer : Tracker.jobSucceeded world t job = (t', roots))
    (hturn : s.Turned s' job.id .succeeded roots dispatched) :
    F.Explains first.plan s' t' := by
  have hserves := hb.serves
  have ha : Tracker.Answered job t t' roots := Tracker.answered_of_eq world hanswer
  -- A job that is clean or has succeeded is another one, and has other inputs.
  have hother {j : Job} (hj : j ∈ first.plan.graph.jobs) {state : JobState}
      (hstate : s.stateOf? j.id = some state) (hne : state ≠ .running) {u v : CompileUnit}
      (hu : u ∈ j.units) (hv : v ∈ job.units) : compare u.primary v.primary ≠ .eq := fun he => by
    obtain ⟨rfl, -⟩ := hserves.unit_unique hj hjob hu hv he
    exact hne (Option.some.inj (hstate.symm.trans hrun))
  have hcompiled (u : CompileUnit) : first.plan.Compiled s' u ↔
      first.plan.Compiled s u ∨ u ∈ job.units := by
    constructor
    · rintro ⟨j, hj, hu, hsucc⟩
      by_cases hid : j.id = job.id
      · obtain rfl := hserves.wellFormed.eq_of_id_eq hj hjob hid
        exact .inr hu
      · exact .inl ⟨j, hj, hu, (hturn.succeeded_iff j.id hid).1 hsucc⟩
    · rintro (⟨j, hj, hu, hsucc⟩ | hu)
      · refine ⟨j, hj, hu, (hturn.succeeded_iff j.id fun hid => ?_).2 hsucc⟩
        rw [hid, hrun] at hsucc
        cases hsucc
      · exact ⟨job, hjob, hu, hturn.ended⟩
  obtain ⟨hfollows, hfrom, hto⟩ := follows_jobSucceeded (hat.plan.symm ▸ hserves)
    (hat.plan.symm ▸ hjob) (fun i hi => hat.fingerprints.symm ▸ htracked i hi) h.follows
    (fun u hu v ⟨j, hj, hv, hsucc⟩ => hother hj hsucc (by decide) hv hu) hread hanswer
  refine ⟨hfollows.congr fun u => (hcompiled u).symm, fun j hj u hu hc => ?_,
    fun j hj u hu hc v hv ht => ?_⟩
  · by_cases hclean : s.isClean j.id
    · -- The job has just been revived, so the reports of the job reach its input.
      have hbehind : j.id ∈ s.cleanBehind roots := by
        by_contra hnot
        exact hc ((hturn.clean_iff j.id).2 ⟨hclean, hnot⟩)
      have hjc := hserves.compiles_of_mem_units hj hu
      have hid := hserves.mem_roots_of_mem_cleanBehind hplan (fun id hid => by
        obtain ⟨-, j', hj', hid', -, p, hp, -⟩ := ha.of_root hserves hat.plan hid
        exact ⟨j', hj', hid', hp.1⟩) hj hjc.1 hbehind
      obtain ⟨q, hout, v, hv, before, g, hbv, hbefore, hg, hreach⟩ := hfrom j.id hid
      obtain ⟨hmode, j', hj', hid', hq⟩ :=
        Tracker.compiles_of_compileOf? hserves hat.plan hout.1
      obtain rfl := hserves.wellFormed.eq_of_id_eq hj' hj hid'
      have hqu := Tracker.compare_of_leftOut hserves hj' hmode (hat.leftOut j' hj' hclean) hq hjc
      refine .reached (List.mem_flatMap.2 ⟨j', hj', hu⟩) (fun w hw => ?_) hbv hg (hreach.congr hqu)
      rcases hbefore w hw with ⟨k, hk, hwk, hsucc⟩ | hw
      · exact h.due k hk w hwk fun hck => by cases hck.symm.trans hsucc
      · exact h.due job hjob w hw fun hcj => by cases hcj.symm.trans hrun
    · exact h.due j hj u hu hclean
  · obtain ⟨hclean, hbehind⟩ := (hturn.clean_iff j.id).1 hc
    rcases (hcompiled v).1 hv with hv | hv
    · exact h.untouched j hj u hu hclean v hv ht
    have hjc := hserves.compiles_of_mem_units hj hu
    obtain ⟨i, hi, he⟩ := hserves.exists_input_of_mem_units hj hu
    refine hto u.primary j.id ⟨Tracker.compileOf?_of_compiles hserves hat.plan
      (hserves.oneByOne_of_mem_units hj hu).1 hj hjc, hat.plan.symm ▸ hat.leftOut j hj hclean⟩
      (he ▸ hat.clean i hi j hj (he ▸ hjc) hclean)
      (fun hid => hbehind (Scheduler.mem_cleanBehind_of_mem hs hid hclean)) (fun w hw hwu => ?_)
      v hv ht
    rcases hw with ⟨k, hk, hwk, hsucc⟩ | hw
    · obtain ⟨rfl, -⟩ := hserves.unit_unique hk hj hwk hu hwu
      cases hclean.symm.trans hsucc
    · exact hother hj hclean (by decide) hu hw (Std.OrientedCmp.eq_symm hwu)

/-- **Along every course what was told beforehand comes true**, as long as the records are those
that were told. -/
theorem explains_of_course {env : Environment ω} {policy : FailurePolicy} {concurrency : Nat}
    {world : ω} {e : Execution ω Tracker} (hb : first.Begins r)
    (htracked : ∀ i ∈ r.inputs, (first.fingerprints.get? i.path).isSome = true)
    (hgraph : F.graph = first.state.graph)
    (h : Course env Tracker.observer (.start first.plan policy concurrency world first) told e)
    (hread : F.Fulfilled first.plan told) :
    F.Explains first.plan e.core.scheduler e.observed := by
  refine (h.induction (P := fun told s t => Tracker.Attends r first s t ∧
      (F.Fulfilled first.plan told → F.Explains first.plan s t)) hb.serves.wellFormed
    (fun s _ hclean hsucc => ⟨hb.attends_start hclean, fun _ => ?_⟩)
    (fun told w s t h => ⟨h.1.cancel, fun hread => ?_⟩)
    fun told w s s' t id outcome dispatched h hs hplan hrun hturn => ?_).2 hread
  -- At the beginning nothing has been reported, and what has changed is due at once.
  · have hnone (u : CompileUnit) : ¬ first.plan.Compiled s u := fun ⟨job, _, _, h⟩ => hsucc _ h
    refine ⟨⟨fun u hu => (hnone u hu).elim, fun q _ => by rw [hgraph]⟩, fun job hjob u hu hc => ?_,
      fun _ _ _ _ _ v hv => (hnone v hv).elim⟩
    refine .scheduled ⟨job, hjob, hu, ?_⟩
    by_contra hout
    exact hc ((hclean job.id (hb.serves.wellFormed.id_lt hjob)).2 (Bool.not_eq_true _ ▸ hout))
  · exact (h.2 fun x hx => hread x (List.mem_append_left _ hx)).congr (fun _ => .rfl) fun _ => .rfl
  · obtain ⟨job, hjob⟩ := JobGraph.exists_job?_of_lt (hplan ▸ hs.lt_size hrun)
    obtain ⟨hmem, rfl⟩ := hb.serves.wellFormed.job?_eq_some_iff.1 hjob
    cases outcome with
    -- A failure revives nothing and reports nothing.
    | failed kind =>
      refine ⟨h.1.turn_nil hturn, fun hread => ?_⟩
      refine (h.2 fun x hx => hread x (List.mem_append_left _ hx)).congr (fun j => ?_) fun j => ?_
      · rw [hturn.clean_iff]
        exact and_iff_left (by simp [Core.answer])
      · by_cases hj : j = job.id
        · subst hj
          rw [hturn.ended, hrun]
          exact iff_of_false (fun he => by cases he) fun he => by cases he
        · exact hturn.succeeded_iff j hj
    | succeeded =>
      rw [Tracker.answer_observer w t hjob] at hturn ⊢
      refine ⟨h.1.succeed hb hs hplan hmem hrun (Tracker.answered_jobSucceeded w t job) hturn,
        fun hread => ?_⟩
      exact (h.2 fun x hx => hread x (List.mem_append_left _ hx)).succeed hb htracked h.1 hs hplan
        hmem hrun w (hread _ (List.mem_append_right _ List.mem_cons_self) job hmem rfl) rfl hturn

/-- **What is compiled is due.** -/
theorem Explains.due_of_compiled {plan : BuildPlan} (h : F.Explains plan s t) {u : CompileUnit}
    (hu : plan.Compiled s u) : F.Due plan u := by
  obtain ⟨job, hjob, hu, hs⟩ := hu
  exact h.due job hjob u hu fun hc => by cases hc.symm.trans hs

/-- **What is due is compiled** by the time that every job is skipped or has succeeded, where no
key has moved. -/
theorem Explains.compiled_of_due (hb : first.Begins r) (hgraph : F.graph = first.state.graph)
    (h : F.Explains first.plan s t) (hat : Tracker.Attends r first s t)
    (hended : ∀ job ∈ first.plan.graph.jobs,
      s.isClean job.id ∨ s.stateOf? job.id = some .succeeded)
    (hmoves : ∀ key, ¬ F.graph.Moves t.state.graph key) {u : CompileUnit}
    (hu : F.Due first.plan u) : first.plan.Compiled s u := by
  induction hu with
  | scheduled hu =>
    obtain ⟨job, hjob, hu, hscheduled⟩ := hu
    refine ⟨job, hjob, hu, (hended job hjob).resolve_left fun hc => ?_⟩
    exact Bool.false_ne_true ((hat.leftOut job hjob hc).symm.trans hscheduled)
  | @reached u v before g hu _ hv hg hreach ih =>
    obtain ⟨job, hjob, hu⟩ := List.mem_flatMap.1 hu
    refine ⟨job, hjob, hu, (hended job hjob).resolve_left fun hc => ?_⟩
    obtain ⟨hmode, -, hof⟩ := hb.serves.oneByOne_of_mem_units hjob hu
    obtain ⟨i, hi, he⟩ := hof u hu
    obtain ⟨-, d, hd, change, hchange, hr⟩ := hreach
    rw [hg.kept u.primary fun w hw hwu => by
      obtain ⟨k, hk, hwk, hsucc⟩ := ih w hw
      obtain ⟨rfl, -⟩ := hb.serves.unit_unique hk hjob hwk hu hwu
      cases hc.symm.trans hsucc] at hd
    rcases hr with hkey | ⟨hk, hgone, hkey⟩
    · exact h.untouched job hjob u hu hc v (ih v hv) ⟨d, hd, change, hchange, hkey⟩
    · -- The key is still declared at the end, by a file that declares it all along.
      obtain ⟨f, hdeclares⟩ := declares_of_removed hchange hk
      have hagrees := hat.agrees hmode i hi job hjob
        (he ▸ hb.serves.compiles_of_mem_units hjob hu) hc
      rw [← hgraph, he] at hagrees
      have hprovides := hagrees.uses d hd change.key hkey ⟨_, f, hdeclares⟩
      refine hmoves change.key ⟨⟨_, f, hdeclares⟩, hprovides, fun p f f' hp hp' => hgone ?_⟩
      rcases h.follows.eq_or_eq hg ih p with heq | heq
      · exact ⟨p, f, .of_eq hp heq⟩
      · exact ⟨p, f', .of_eq hp' heq⟩

end Course

end Forecast

end IncrementalBuild
