import IncrementalBuild.Proofs.DeclarationTable
import IncrementalBuild.Proofs.Soundness

/-!
# Whom a success rouses

When a compile job has succeeded, its reports are taken over one after the other, and each is
asked at once whom it reaches in the graph as it is then. The inputs found this way are put
together, and of those the tracker rouses the ones whose compile job was left out and that are
not dirty yet.

An input can be reached by one report and not by another, and a later report may undo what an
earlier one changed, so it does not do to compare the first and the last graph. What counts
is said report by report: there is one after which the input has a declaration that it reaches.
The second pass forgets which one it was. It is exact since an input that it makes dirty stays
so under every spelling of its path, and the job of each spelling is the same.
-/

namespace IncrementalBuild

namespace Tracker

section Reports

variable {ω : Type} [FileSystem ω] {world : ω}

/-- The declarations once what a unit reports is taken over, if it can be read and is of the
input. -/
def takeOver (world : ω) (g : DependencyGraph) (u : CompileUnit) : DependencyGraph :=
  match (recordOf? world u).filter (fun d => d.source == u.primary) with
  | some d => (g.replace u.primary d.declarations).1
  | none => g

/-- **Whether the report of a unit reaches a declaration**, taken over from some declarations on.
A change of a key that the report makes does, or where there is none to read the declaration is
built on a key that the input declared. -/
inductive Reaches (world : ω) (g : DependencyGraph) (u : CompileUnit) (d : Declaration) : Prop
  | changed {change : KeyChange} : Reported world u →
      change.Arises (g.declarationsOf u.primary) ((takeOver world g u).declarationsOf u.primary) →
      (takeOver world g u).Reaches change d → Reaches world g u d
  | unread {known : Declaration} : ¬ Reported world u → known ∈ g.declarationsOf u.primary →
      known.key ∈ d.provides → Reaches world g u d

/-- **Whether the reports of some units reach a file**, taken over one after the other: one of
them is of another file, and right after it the file has a declaration that it reaches. -/
def ReachedBy (world : ω) (g : DependencyGraph) (units : List CompileUnit) (q : Path) : Prop :=
  ∃ before u after, units = before ++ u :: after ∧ compare u.primary q ≠ .eq ∧
    ∃ d ∈ (takeOver world (before.foldl (takeOver world) g) u).declarationsOf q,
      Reaches world (before.foldl (takeOver world) g) u d

/-- Units reach a file if the first one does or the others do later. -/
theorem reachedBy_cons {g : DependencyGraph} {u : CompileUnit} {rest : List CompileUnit}
    {q : Path} :
    ReachedBy world g (u :: rest) q ↔
      (compare u.primary q ≠ .eq ∧ ∃ d ∈ (takeOver world g u).declarationsOf q,
        Reaches world g u d) ∨ ReachedBy world (takeOver world g u) rest q := by
  constructor
  · rintro ⟨before, v, after, hsplit, hreach⟩
    cases before with
    | nil =>
      obtain ⟨rfl, rfl⟩ := List.cons.inj hsplit
      exact .inl hreach
    | cons w before =>
      obtain ⟨rfl, rfl⟩ := List.cons.inj hsplit
      exact .inr ⟨before, v, after, rfl, hreach⟩
  · rintro (hreach | ⟨before, v, after, rfl, hreach⟩)
    · exact ⟨[], u, rest, rfl, hreach⟩
    · exact ⟨u :: before, v, after, rfl, hreach⟩

/-- A file is reached in every spelling. -/
theorem ReachedBy.congr {g : DependencyGraph} {units : List CompileUnit} {p q : Path}
    (h : ReachedBy world g units p) (hpq : compare p q = .eq) : ReachedBy world g units q := by
  obtain ⟨before, u, after, hsplit, hne, d, hd, hreach⟩ := h
  refine ⟨before, u, after, hsplit, fun he => hne ((Std.TransCmp.congr_right hpq).trans he), d,
    ?_, hreach⟩
  rwa [← DeclarationStore.declarationsOf_congr _ hpq]

end Reports

end Tracker

namespace BuildState

variable {ω : Type} [FileSystem ω] {world : ω}

theorem graph_integrate (s : BuildState) (u : CompileUnit) (f : Fingerprint) :
    (s.integrate u.primary f (Tracker.recordOf? world u)).1.graph
      = Tracker.takeOver world s.graph u := by
  unfold integrate Tracker.takeOver
  cases (Tracker.recordOf? world u).filter (fun d => d.source == u.primary) <;> rfl

/-- **The changes of a report reach what it reaches.** -/
theorem exists_reaches_integrate_iff {s : BuildState} {u : CompileUnit} {f : Fingerprint}
    {d : Declaration} :
    (∃ change ∈ (s.integrate u.primary f (Tracker.recordOf? world u)).2.changes,
        (Tracker.takeOver world s.graph u).Reaches change d) ↔
      Tracker.Reaches world s.graph u d := by
  have hreported : Tracker.Reported world u ↔
      ((Tracker.recordOf? world u).filter fun d => d.source == u.primary).isSome = true :=
    Tracker.names_iff_isSome
  cases hr : (Tracker.recordOf? world u).filter (fun d => d.source == u.primary) with
  -- Without a record that names the file, every declaration of it counts as modified.
  | none =>
    have hnot : ¬ Tracker.Reported world u := by simp [hreported, hr]
    have hchanges : (s.integrate u.primary f (Tracker.recordOf? world u)).2.changes
        = (s.graph.declarationsOf u.primary).map (⟨·.key, .modified⟩) := by
      unfold integrate
      rw [hr]
    rw [hchanges]
    constructor
    · rintro ⟨change, hchange, hkey | ⟨hk, -⟩⟩ <;>
        obtain ⟨known, hknown, rfl⟩ := List.mem_map.1 hchange
      · exact .unread hnot hknown hkey
      · cases hk
    · intro h
      cases h with
      | changed hyes => exact absurd hyes hnot
      | unread _ hknown hkey => exact ⟨_, List.mem_map.2 ⟨_, hknown, rfl⟩, .inl hkey⟩
  -- With one, the changes are the differences between the declarations before and after.
  | some record =>
    have hyes : Tracker.Reported world u := by simp [hreported, hr]
    have hafter : Tracker.takeOver world s.graph u
        = (s.graph.replace u.primary record.declarations).1 := by
      unfold Tracker.takeOver
      rw [hr]
    have hchanges : (s.integrate u.primary f (Tracker.recordOf? world u)).2.changes
        = (s.graph.replace u.primary record.declarations).2 := by
      unfold integrate
      rw [hr]
    have harises (change : KeyChange) :
        change ∈ (s.graph.replace u.primary record.declarations).2 ↔
          change.Arises (s.graph.declarationsOf u.primary)
            ((Tracker.takeOver world s.graph u).declarationsOf u.primary) := by
      rw [s.graph.mem_changes_replace, hafter, s.graph.declarationsOf_replace,
        if_pos Std.ReflOrd.compare_self]
    rw [hchanges]
    constructor
    · rintro ⟨change, hchange, hreach⟩
      exact .changed hyes ((harises change).1 hchange) hreach
    · intro h
      cases h with
      | changed _ hchange hreach => exact ⟨_, (harises _).2 hchange, hreach⟩
      | unread hnot => exact absurd hyes hnot

/-- **The files that a report reaches** are those with a declaration that it reaches. -/
theorem contains_files_integrate {s : BuildState} {u : CompileUnit} {f : Fingerprint} {q : Path} :
    (s.integrate u.primary f (Tracker.recordOf? world u)).2.files.contains q = true ↔
      compare u.primary q ≠ .eq ∧ ∃ d ∈ (Tracker.takeOver world s.graph u).declarationsOf q,
        Tracker.Reaches world s.graph u d := by
  have hfiles : (s.integrate u.primary f (Tracker.recordOf? world u)).2.files
      = (Tracker.takeOver world s.graph u).filesAffectedBy
          (s.integrate u.primary f (Tracker.recordOf? world u)).2.changes u.primary := by
    rw [← graph_integrate s u f]
    rfl
  rw [hfiles, (Tracker.takeOver world s.graph u).consistent.contains_filesAffectedBy]
  exact and_congr_right fun _ => exists_congr fun d => and_congr_right fun _ =>
    exists_reaches_integrate_iff

end BuildState

namespace Tracker

section Wave

variable {ω : Type} [FileSystem ω] {world : ω}

/-- **The first pass finds whom the reports reach**, and leaves the graph in which they are taken
over. -/
theorem contains_foldl_integrateUnit {units : List CompileUnit} {t : Tracker}
    (htracked : ∀ u ∈ units, (t.fingerprints.get? u.primary).isSome = true)
    (reached : OrderedSet Path) (q : Path) :
    let after := units.foldl (integrateUnit world) (t, reached)
    after.1.state.graph = units.foldl (takeOver world) t.state.graph ∧
      (after.2.contains q = true ↔
        reached.contains q = true ∨ ReachedBy world t.state.graph units q) := by
  induction units generalizing t reached with
  | nil =>
    refine ⟨rfl, (or_iff_left fun h => ?_).symm⟩
    obtain ⟨before, u, after, hsplit, -⟩ := h
    simp at hsplit
  | cons u rest ih =>
    obtain ⟨f, hf⟩ := Option.isSome_iff_exists.1 (htracked u List.mem_cons_self)
    obtain ⟨hgraph, hreached⟩ := ih
      (t := { t with state := (t.state.integrate u.primary f (recordOf? world u)).1 })
      (fun v hv => htracked v (List.mem_cons_of_mem u hv))
      (reached.union (t.state.integrate u.primary f (recordOf? world u)).2.files)
    rw [BuildState.graph_integrate] at hgraph hreached
    dsimp only
    rw [List.foldl_cons, integrateUnit_of_tracked hf]
    refine ⟨hgraph, hreached.trans ?_⟩
    rw [OrderedSet.contains_union, Bool.or_eq_true, BuildState.contains_files_integrate, or_assoc,
      reachedBy_cons]

/-! ## The second pass -/

/-- Whether a file is roused when some files are reached: it is one of them, its compile job was
left out, and it is not dirty. -/
def Picks (t : Tracker) (paths : List Path) (q : Path) : Prop :=
  t.dirty.contains q = false ∧ (∃ id, t.LeftOut q id) ∧ ∃ p ∈ paths, compare p q = .eq

/-- **What the second pass leaves**: exactly the files that it picks are dirty with the reason that
an interface has changed and have lost their fingerprints, and it answers with their jobs. -/
structure PicksExactly (paths : List Path) (t t' : Tracker) (roots : OrderedSet JobId) : Prop where
  mem_roots : ∀ id, id ∈ roots.toList ↔ ∃ q, t.Picks paths q ∧ t.LeftOut q id
  picked : ∀ q, t.Picks paths q →
    t'.dirty.get? q = some .interfaceChanged ∧ t'.state.inputs.get? q = some none
  kept : ∀ q, ¬ t.Picks paths q →
    t'.dirty.get? q = t.dirty.get? q ∧ t'.state.inputs.get? q = t.state.inputs.get? q

theorem LeftOut.congr {t : Tracker} {p q : Path} {id : JobId} (h : t.LeftOut p id)
    (hpq : compare p q = .eq) : t.LeftOut q id :=
  ⟨(compileOf?_congr rfl hpq).symm.trans h.1, h.2⟩

theorem picks_append_iff {t : Tracker} {paths more : List Path} {q : Path} :
    t.Picks (paths ++ more) q ↔ t.Picks paths q ∨ t.Picks more q := by
  unfold Picks
  simp only [List.mem_append, or_and_right, exists_or, and_or_left]

section Step

variable {paths : List Path} {t t' : Tracker} {roots : OrderedSet JobId}

/-- What is dirty after some files were passed and was not before was picked. -/
theorem PicksExactly.picks_of_dirty (h : PicksExactly paths t t' roots) {q : Path}
    (hbefore : t.dirty.contains q = false) (hafter : t'.dirty.contains q = true) :
    t.Picks paths q := by
  by_contra hno
  rw [← OrderedMap.isSome_get?, (h.kept q hno).1, OrderedMap.isSome_get?, hbefore] at hafter
  cases hafter

/-- A file that is passed without being roused was picked before, or is not to be. -/
theorem PicksExactly.pass (h : PicksExactly paths t t' roots) {p : Path}
    (hp : ∀ id, t.LeftOut p id → t'.dirty.contains p = true) :
    PicksExactly (paths ++ [p]) t t' roots := by
  have hsame (q : Path) : t.Picks (paths ++ [p]) q ↔ t.Picks paths q := by
    rw [picks_append_iff]
    refine or_iff_left_of_imp fun hq => ?_
    obtain ⟨hclean, ⟨id, hleft⟩, p', hp', hpq⟩ := hq
    obtain rfl := List.mem_singleton.1 hp'
    refine h.picks_of_dirty hclean ?_
    rw [← OrderedMap.contains_congr _ hpq]
    exact hp id (hleft.congr (Std.OrientedCmp.eq_symm hpq))
  refine ⟨fun id => (h.mem_roots id).trans ?_, fun q hq => h.picked q ((hsame q).1 hq),
    fun q hq => h.kept q fun hq' => hq ((hsame q).2 hq')⟩
  exact exists_congr fun q => and_congr_left fun _ => (hsame q).symm

/-- **A file that is roused is picked**, in each of its spellings. -/
theorem PicksExactly.rouse (h : PicksExactly paths t t' roots) {p : Path} {id : JobId}
    (hleft : t.LeftOut p id) (hclean : t'.dirty.contains p = false) :
    PicksExactly (paths ++ [p]) t
      { t' with
        dirty := (DirtySet.add t'.dirty p .interfaceChanged).1
        state := t'.state.markNeedsRebuild p } (OrderedSet.add roots id) := by
  -- The path was not picked before, for then it would be dirty.
  have hfresh : ¬ t.Picks paths p := fun hp => by
    rw [← OrderedMap.isSome_get?, (h.picked p hp).1] at hclean
    cases hclean
  have hbefore : t.dirty.contains p = false := by
    rw [← OrderedMap.isSome_get?, ← (h.kept p hfresh).1, OrderedMap.isSome_get?]
    exact hclean
  -- In each spelling it is picked now, and of other paths the same ones are picked as before.
  have hpicks {q : Path} (hpq : compare p q = .eq) : t.Picks (paths ++ [p]) q :=
    picks_append_iff.2 (.inr ⟨(OrderedMap.contains_congr _ hpq).symm.trans hbefore,
      ⟨id, hleft.congr hpq⟩, p, List.mem_singleton_self p, hpq⟩)
  have hother {q : Path} (hpq : compare p q ≠ .eq) :
      t.Picks (paths ++ [p]) q ↔ t.Picks paths q := by
    rw [picks_append_iff]
    refine or_iff_left fun ⟨_, _, p', hp', hp'q⟩ => hpq ?_
    rwa [List.mem_singleton.1 hp'] at hp'q
  have hdirty (q : Path) := DirtySet.get?_add t'.dirty p q .interfaceChanged
  have hinputs (q : Path) : (t'.state.markNeedsRebuild p).inputs.get? q
      = if compare p q = .eq then some none else t'.state.inputs.get? q :=
    OrderedMap.get?_insert t'.state.inputs p q none
  refine ⟨fun id' => ?_, fun q hq => ?_, fun q hq => ?_⟩
  · rw [OrderedSet.mem_toList_add, h.mem_roots]
    constructor
    · rintro (rfl | ⟨q, hq, hleft'⟩)
      · exact ⟨p, hpicks Std.ReflOrd.compare_self, hleft⟩
      · exact ⟨q, picks_append_iff.2 (.inl hq), hleft'⟩
    · rintro ⟨q, hq, hleft'⟩
      by_cases hpq : compare p q = .eq
      · exact .inl (Option.some.inj (hleft'.1.symm.trans (hleft.congr hpq).1))
      · exact .inr ⟨q, (hother hpq).1 hq, hleft'⟩
  · dsimp only
    rw [hdirty, hinputs]
    by_cases hpq : compare p q = .eq
    · have hnone : t'.dirty.get? q = none := by
        rw [← OrderedMap.get?_congr _ hpq]
        exact OrderedMap.get?_eq_none_iff.2 hclean
      rw [if_pos hpq, if_pos hpq, hnone]
      exact ⟨rfl, rfl⟩
    · rw [if_neg hpq, if_neg hpq]
      exact h.picked q ((hother hpq).1 hq)
  · have hpq : compare p q ≠ .eq := fun he => hq (hpicks he)
    dsimp only
    rw [hdirty, hinputs, if_neg hpq, if_neg hpq]
    exact h.kept q fun hq' => hq ((hother hpq).2 hq')

/-- **One file more.** -/
theorem PicksExactly.step (h : PicksExactly paths t t' roots) (hplan : t'.plan = t.plan)
    (p : Path) :
    PicksExactly (paths ++ [p]) t (invalidate (t', roots) p).1 (invalidate (t', roots) p).2 := by
  have hcompile : t'.compileOf? p = t.compileOf? p :=
    compileOf?_congr hplan Std.ReflOrd.compare_self
  unfold invalidate
  dsimp only
  rw [hcompile]
  cases hid : t.compileOf? p with
  | none => exact h.pass fun id hleft => by cases hid.symm.trans hleft.1
  | some id =>
    dsimp only
    rw [show t'.plan.disposition id = t.plan.disposition id by rw [hplan]]
    split
    · rename_i hor
      refine h.pass fun id' hleft => ?_
      obtain rfl : id = id' := Option.some.inj (hid.symm.trans hleft.1)
      rwa [hleft.2, Bool.false_or] at hor
    · rename_i hor
      rw [Bool.not_eq_true, Bool.or_eq_false_iff] at hor
      exact h.rouse ⟨hid, hor.1⟩ hor.2

end Step

/-- **The second pass rouses exactly whom it picks.** -/
theorem picksExactly_foldl (t : Tracker) (paths : List Path) :
    PicksExactly paths t (paths.foldl invalidate (t, ∅)).1 (paths.foldl invalidate (t, ∅)).2 := by
  have hnone (q : Path) : ¬ t.Picks [] q := fun ⟨_, _, p, hp, _⟩ => List.not_mem_nil hp
  have hfirst : PicksExactly [] t t ∅ :=
    ⟨fun id => iff_of_false List.not_mem_nil fun ⟨q, hq, _⟩ => hnone q hq,
      fun q hq => absurd hq (hnone q), fun q _ => ⟨rfl, rfl⟩⟩
  have hplan (p : Path) (acc : Tracker × OrderedSet JobId) :
      (invalidate acc p).1.plan = acc.1.plan := by
    unfold invalidate
    dsimp only
    cases acc.1.compileOf? p with
    | none => rfl
    | some id =>
      dsimp only
      split <;> rfl
  have key (rest done : List Path) (acc : Tracker × OrderedSet JobId)
      (h : PicksExactly done t acc.1 acc.2) (hacc : acc.1.plan = t.plan) :
      PicksExactly (done ++ rest) t (rest.foldl invalidate acc).1
        (rest.foldl invalidate acc).2 := by
    induction rest generalizing done acc with
    | nil => rwa [List.append_nil]
    | cons p rest ih =>
      rw [List.append_cons]
      exact ih _ _ (h.step hacc p) ((hplan p acc).trans hacc)
  exact key paths [] (t, ∅) hfirst rfl

/-! ## Both passes -/

/-- **Whether the success of a job rouses another for a file** that this one compiles: it was left
out, the file is not dirty, and the reports of the first reach it. -/
structure Rouses (world : ω) (t : Tracker) (job sleeper : Job) (p : Path) : Prop where
  planned : sleeper ∈ t.plan.graph.jobs
  compiles : sleeper.Compiles p
  leftOut : (t.plan.disposition sleeper.id).isScheduled = false
  clean : t.dirty.contains p = false
  reached : ReachedBy world t.state.graph job.units p

theorem Rouses.congr {t : Tracker} {job sleeper : Job} {p q : Path}
    (h : Rouses world t job sleeper p) (hpq : compare p q = .eq) :
    Rouses world t job sleeper q :=
  ⟨h.planned, h.compiles.congr hpq, h.leftOut,
    (OrderedMap.contains_congr _ hpq).symm.trans h.clean, h.reached.congr hpq⟩

/-- **An answer that is exact**: it lists the jobs that are roused for inputs, in ascending order
and each once; the files for which a job is roused are dirty now, as an interface has changed, and
have no fingerprint; and no other file has become dirty or, unless the job has compiled it, has
another fingerprint. -/
structure RousesExactly (world : ω) (inputs : List InputFile) (job : Job) (t t' : Tracker)
    (roots : List JobId) : Prop where
  ascending : roots.Pairwise (· < ·)
  mem_roots : ∀ id, id ∈ roots ↔
    ∃ i ∈ inputs, ∃ sleeper, sleeper.id = id ∧ Rouses world t job sleeper i.path
  graph : t'.state.graph = job.units.foldl (takeOver world) t.state.graph
  roused : ∀ p sleeper, Rouses world t job sleeper p →
    t'.dirty.get? p = some .interfaceChanged ∧ t'.state.inputs.get? p = some none
  dirty_kept : ∀ p, (∀ sleeper, ¬ Rouses world t job sleeper p) →
    t'.dirty.get? p = t.dirty.get? p
  entry_kept : ∀ p, (∀ sleeper, ¬ Rouses world t job sleeper p) →
    (∀ u ∈ job.units, compare u.primary p ≠ .eq) →
    t'.state.inputs.get? p = t.state.inputs.get? p

section Answer

variable {r : BuildRequest} {t : Tracker} {job : Job}

/-- What is left out compiles a file. -/
theorem leftOut_iff_compiles (hs : t.plan.Serves r) (hmode : r.mode = .perFile) {p : Path}
    {id : JobId} : t.LeftOut p id ↔ ∃ sleeper ∈ t.plan.graph.jobs, sleeper.id = id ∧
      sleeper.Compiles p ∧ (t.plan.disposition sleeper.id).isScheduled = false := by
  constructor
  · rintro ⟨hcompile, hout⟩
    obtain ⟨-, sleeper, hmem, rfl, hp⟩ := compiles_of_compileOf? hs rfl hcompile
    exact ⟨sleeper, hmem, rfl, hp, hout⟩
  · rintro ⟨sleeper, hmem, rfl, hp, hout⟩
    exact ⟨compileOf?_of_compiles hs rfl hmode hmem hp, hout⟩

/-- **The two passes rouse whom they should**, where every input is tracked. -/
theorem rouses_iff_picks (hs : t.plan.Serves r) (hmode : r.mode = .perFile)
    (htracked : ∀ u ∈ job.units, (t.fingerprints.get? u.primary).isSome = true) {q : Path}
    {id : JobId} :
    let first := job.units.foldl (integrateUnit world) (t, ∅)
    (∃ sleeper, sleeper.id = id ∧ Rouses world t job sleeper q) ↔
      first.1.Picks first.2.toList q ∧ first.1.LeftOut q id := by
  intro first
  have hretains : t.Retains first.1 := (retains_foldl_integrateUnit world job.units t ∅).1
  have hreached : (∃ p ∈ first.2.toList, compare p q = .eq) ↔
      ReachedBy world t.state.graph job.units q :=
    OrderedMap.contains_iff_keys.symm.trans
      ((contains_foldl_integrateUnit htracked ∅ q).2.trans (or_iff_right Bool.false_ne_true))
  have hleft : first.1.LeftOut q id ↔ ∃ sleeper ∈ t.plan.graph.jobs, sleeper.id = id ∧
      sleeper.Compiles q ∧ (t.plan.disposition sleeper.id).isScheduled = false :=
    hretains.leftOut_iff.trans (leftOut_iff_compiles hs hmode)
  unfold Picks
  rw [hreached, hretains.dirty]
  constructor
  · rintro ⟨sleeper, hid, hrouses⟩
    have hout : first.1.LeftOut q id :=
      hleft.2 ⟨sleeper, hrouses.planned, hid, hrouses.compiles, hrouses.leftOut⟩
    exact ⟨⟨hrouses.clean, ⟨id, hout⟩, hrouses.reached⟩, hout⟩
  · rintro ⟨⟨hclean, -, hreach⟩, hout⟩
    obtain ⟨sleeper, hmem, hid, hp, hscheduled⟩ := hleft.1 hout
    exact ⟨sleeper, hid, hmem, hp, hscheduled, hclean, hreach⟩

/-- **The success of a compile job is answered exactly**, where inputs are compiled one by one. -/
theorem rousesExactly_jobSucceeded (hs : t.plan.Serves r) (hmode : r.mode = .perFile)
    (htracked : ∀ i ∈ r.inputs, (t.fingerprints.get? i.path).isSome = true)
    (hjob : job ∈ t.plan.graph.jobs) (hcompile : job.isCompile = true) (world : ω) :
    RousesExactly world r.inputs job t (jobSucceeded world t job).1
      (jobSucceeded world t job).2 := by
  have htracked : ∀ u ∈ job.units, (t.fingerprints.get? u.primary).isSome = true := fun u hu => by
    obtain ⟨i, hi, he⟩ := hs.exists_input_of_mem_units hjob hu
    exact he ▸ htracked i hi
  -- The answer is made in two passes: records are taken over unit by unit, then the files that
  -- were reached are gone through.
  let first := job.units.foldl (integrateUnit world) (t, ∅)
  let second := first.2.toList.foldl invalidate (first.1, ∅)
  have hanswer : jobSucceeded world t job = (second.1, second.2.toList) := by
    obtain ⟨hunits, -⟩ := hs.oneByOne_units hmode hjob hcompile
    unfold jobSucceeded
    rw [hunits.kind_eq]
  have hretains : t.Retains first.1 := (retains_foldl_integrateUnit world job.units t ∅).1
  have hpicks : PicksExactly first.2.toList first.1 second.1 second.2 := picksExactly_foldl _ _
  -- What is picked in the second pass is what the compile job rouses.
  have hrouses {q : Path} {id : JobId} :
      (∃ sleeper, sleeper.id = id ∧ Rouses world t job sleeper q) ↔
        first.1.Picks first.2.toList q ∧ first.1.LeftOut q id :=
    rouses_iff_picks hs hmode htracked
  have hnone {q : Path} (hq : ∀ sleeper, ¬ Rouses world t job sleeper q) :
      ¬ first.1.Picks first.2.toList q := fun hp => by
    obtain ⟨id, hleft⟩ := hp.2.1
    obtain ⟨sleeper, -, h⟩ := hrouses.2 ⟨hp, hleft⟩
    exact hq sleeper h
  rw [hanswer]
  refine ⟨?_, fun id => (hpicks.mem_roots id).trans ?_, ?_, fun q sleeper h => ?_, fun q hq => ?_,
    fun q hq hother => ?_⟩
  · exact (List.pairwise_map.2 second.2.ascending).imp Nat.compare_eq_lt.1
  · constructor
    · rintro ⟨q, hq, hleft⟩
      obtain ⟨sleeper, hid, h⟩ := hrouses.2 ⟨hq, hleft⟩
      obtain ⟨i, hi, hiq⟩ := hs.sources sleeper h.planned q h.compiles
      exact ⟨i, hi, sleeper, hid, h.congr (Std.OrientedCmp.eq_symm hiq)⟩
    · rintro ⟨i, -, h⟩
      exact ⟨i.path, hrouses.1 h⟩
  · exact (invalidated_foldl first.1 first.2.toList).graph.trans
      (contains_foldl_integrateUnit htracked ∅ default).1
  · exact hpicks.picked q (hrouses.1 ⟨sleeper, rfl, h⟩).1
  · rw [← hretains.dirty]
    exact (hpicks.kept q (hnone hq)).1
  · exact (hpicks.kept q (hnone hq)).2.trans
      (get?_foldl_integrateUnit_of_not world t ∅ hother)

end Answer

end Wave

end Tracker

/-! ## A build -/

section Run

variable {ω : Type} [FileSystem ω] {env : Environment ω} {r : BuildRequest}
  {scan : Option (Scanner ω)} {world world' : ω} {b : PlannedBuild} {told : List (Told ω)}
  {e : Execution ω Tracker}

/-- **Wherever a build stands that compiles inputs one by one, the success of a compile job is
answered exactly**: with the jobs, in ascending order, of those inputs whose jobs were left out,
that are not dirty, and that the reports of the job reach, each taken over in turn. Those inputs
are dirty then and have no fingerprint, and nothing else becomes dirty. -/
theorem BuildRequest.rousesExactly_of_course {job : Job} (hmode : r.mode = .perFile)
    (hprep : r.prepare scan world = (.ok b, world'))
    (hrun : Course env Tracker.observer (r.begin b world') told e)
    (hjob : job ∈ b.plan.graph.jobs) (hcompile : job.isCompile = true) (now : ω) :
    Tracker.RousesExactly now r.inputs job e.observed
      (Tracker.jobSucceeded now e.observed job).1 (Tracker.jobSucceeded now e.observed job).2 := by
  obtain ⟨modules, start, g, -, hb⟩ := prepared_of_prepare hprep
  have hattends := (hb.begins (r.uniqueKeys_trusted world)).attends hrun
  have hplan : e.observed.plan = b.plan := hattends.plan
  refine Tracker.rousesExactly_jobSucceeded (hplan.symm ▸ hb.serves) hmode (fun i hi => ?_)
    (hplan.symm ▸ hjob) hcompile now
  rw [hattends.fingerprints]
  exact r.isSome_get?_fingerprints b (List.mem_append_left _ hi)

end Run

/-! The interface of the second input is built on the first one, and the compile job of the first
reports another interface. -/

namespace TwoInputs

/-- The world in which the first input has been compiled. -/
def reported : SimulatedTools :=
  let record : DependencyRecord := ⟨⟨"a"⟩, [⟨"A", ⟨"1"⟩, [], []⟩]⟩
  { world with files := world.files.addFile ⟨"out/a.deps.json"⟩ record.print.toUTF8 }

end TwoInputs

open TwoInputs in
theorem BuildRequest.rousesExactly_of_course_twoInputs : ∃ (b : PlannedBuild) (job : Job),
    request.mode = .perFile ∧ request.prepare none world = (.ok b, world) ∧
      job ∈ b.plan.graph.jobs ∧ job.isCompile = true ∧
      (Tracker.jobSucceeded reported (request.tracker b) job).2 = [1] ∧
      Tracker.RousesExactly reported request.inputs job (request.tracker b)
        (Tracker.jobSucceeded reported (request.tracker b) job).1
        (Tracker.jobSucceeded reported (request.tracker b) job).2 := by
  have hprep : request.prepare none world = (request.planFrom world start none, world) :=
    prepare_eq (by rw [priorState_eq, compute_eq]) rfl
  have hroused : (request.planFrom world start none).toOption.any (fun b =>
      b.plan.graph.jobs.any fun job => job.isCompile
        && (Tracker.jobSucceeded reported (request.tracker b) job).2 == [1]) = true := by
    decide +kernel
  cases hb : request.planFrom world start none with
  | error e =>
    rw [hb] at hroused
    cases hroused
  | ok b =>
    rw [hb] at hprep hroused
    obtain ⟨job, hjob, hroused⟩ := List.any_eq_true.1 hroused
    obtain ⟨hcompile, hroots⟩ := Bool.and_eq_true_iff.1 hroused
    have hrun : Course (.ofProcesses SimulatedTools) Tracker.observer (request.begin b world) []
        (request.begin b world) := .start
    exact ⟨b, job, rfl, hprep, hjob, hcompile, beq_iff_eq.1 hroots,
      rousesExactly_of_course rfl hprep hrun hjob hcompile reported⟩

end IncrementalBuild
