import IncrementalBuild.BuildState.Dirty
import IncrementalBuild.Proofs.DependencyGraph

/-!
# What a build starts from

The start of a build divides its inputs: one that is dirty has no fingerprint, and one that
is not has the fingerprint of its content, and sees no difference between the declarations
of the last state and those without the files that left the build.
-/

namespace IncrementalBuild

namespace DirtyInputs

/-! ## Files that left -/

/-- **Taking files out of a state** leaves its other inputs as they are, and a file that
depends on none of those taken out sees no difference. -/
theorem removeFiles_spec (state : BuildState) (paths : List Path) (found : OrderedSet Path) :
    let after := removeFiles state paths found
    (∀ q, after.1.inputs.get? q
      = if ∃ p ∈ paths, compare p q = .eq then none else state.inputs.get? q) ∧
      after.1.staleJobs = state.staleJobs ∧ after.1.options = state.options ∧
      after.1.commands = state.commands ∧
      (∀ q, found.contains q = true → after.2.contains q = true) ∧
      ∀ q, (∀ p ∈ paths, compare p q ≠ .eq) → after.2.contains q = false →
        state.graph.AgreesFor after.1.graph q := by
  induction paths generalizing state found with
  | nil =>
    exact ⟨fun q => by simp [removeFiles], rfl, rfl, rfl, fun _ h => h,
      fun q _ _ => .refl _ q⟩
  | cons p rest ih =>
    obtain ⟨hinputs, hstale, hoptions, hcommands, hfound, hagrees⟩ := ih
      { state with graph := (state.graph.removeFile p).1, inputs := state.inputs.erase p }
      (found.union ((state.graph.removeFile p).1.filesAffectedBy (state.graph.removeFile p).2 p))
    refine ⟨fun q => (hinputs q).trans ?_, hstale, hoptions, hcommands, fun q hq => hfound q ?_,
      fun q hq hout => ?_⟩
    · show (if _ then none else (state.inputs.erase p).get? q) = _
      rw [OrderedMap.get?_erase]
      by_cases hrest : ∃ p ∈ rest, compare p q = .eq
      · simp [hrest]
      · by_cases hpq : compare p q = .eq <;> simp [hrest, hpq]
    · rw [OrderedSet.contains_union, hq, Bool.true_or]
    · refine (DependencyGraph.agreesFor_replace [] (hq p List.mem_cons_self) ?_).trans
        (hagrees q (fun p hp => hq p (List.mem_cons_of_mem _ hp)) hout)
      -- What one removal reaches stays found.
      rw [← Bool.not_eq_true]
      intro hreached
      refine Bool.false_ne_true (hout.symm.trans (hfound q ?_))
      rw [OrderedSet.contains_union, Bool.or_eq_true]
      exact .inr hreached

/-- Taking files out of a state adds no file and no declaration. -/
theorem removeFiles_graph (state : BuildState) (paths : List Path) (found : OrderedSet Path)
    (q : Path) :
    let after := removeFiles state paths found
    (after.1.graph.containsFile q = true →
        state.graph.containsFile q = true ∧ ∀ p ∈ paths, compare p q ≠ .eq) ∧
      ∀ d ∈ after.1.graph.declarationsOf q, d ∈ state.graph.declarationsOf q := by
  induction paths generalizing state found with
  | nil => exact ⟨fun h => ⟨h, fun p hp => absurd hp List.not_mem_nil⟩, fun d hd => hd⟩
  | cons p rest ih =>
    obtain ⟨hfile, hdeclared⟩ := ih
      { state with graph := (state.graph.removeFile p).1, inputs := state.inputs.erase p }
      (found.union ((state.graph.removeFile p).1.filesAffectedBy (state.graph.removeFile p).2 p))
    refine ⟨fun h => ?_, fun d hd => ?_⟩
    · obtain ⟨hold, hrest⟩ := hfile h
      have hold : (state.graph.replace p []).1.containsFile q = true := hold
      rw [DependencyGraph.containsFile_replace] at hold
      split at hold
      · cases hold
      · rename_i hpq
        exact ⟨hold, List.forall_mem_cons.2 ⟨hpq, hrest⟩⟩
    · have hd : d ∈ (state.graph.replace p []).1.declarationsOf q := hdeclared d hd
      rw [DependencyGraph.declarationsOf_replace] at hd
      split at hd
      · exact absurd hd List.not_mem_nil
      · exact hd

/-- **The files that left a build** are those that its state knows and that are no inputs. -/
theorem exists_mem_removedFiles_iff {state : BuildState} {inputs : List InputFile} {q : Path} :
    (∃ p ∈ removedFiles state inputs, compare p q = .eq) ↔
      (state.inputs.contains q = true ∨ state.graph.containsFile q = true) ∧
        ∀ i ∈ inputs, compare i.path q ≠ .eq := by
  have hcurrent (p : Path) : (!(inputs.map (·.path)).contains p) = true ↔
      ∀ i ∈ inputs, compare i.path p ≠ .eq := by
    rw [Bool.not_eq_true', ← Bool.not_eq_true, List.contains_iff_exists_mem_beq]
    constructor
    · intro h i hi he
      exact h ⟨i.path, List.mem_map.2 ⟨i, hi, rfl⟩,
        Path.beq_iff.2 (Path.compare_eq_iff.1 he).symm⟩
    · rintro h ⟨_, hmem, he⟩
      obtain ⟨i, hi, rfl⟩ := List.mem_map.1 hmem
      exact h i hi (Path.compare_eq_iff.2 (Path.beq_iff.1 he).symm)
  have hheld : (∃ p ∈ removedFiles state inputs, compare p q = .eq) ↔
      (OrderedSet.ofList ((state.inputs.keys ++ state.graph.fileList).filter
        fun p => !(inputs.map (·.path)).contains p)).contains q = true :=
    OrderedMap.contains_iff_keys.symm
  rw [hheld, OrderedSet.contains_ofList, List.any_eq_true]
  constructor
  · rintro ⟨p, hp, hpq⟩
    obtain ⟨hmem, hout⟩ := List.mem_filter.1 hp
    have hpq := beq_iff_eq.1 hpq
    refine ⟨(List.mem_append.1 hmem).imp (fun h => OrderedMap.contains_iff_keys.2 ⟨p, h, hpq⟩)
      fun h => state.graph.consistent.exists_mem_fileList.1 ⟨p, h, hpq⟩, fun i hi he => ?_⟩
    exact (hcurrent p).1 hout i hi ((Std.TransCmp.congr_right hpq).trans he)
  · rintro ⟨hknown, hout⟩
    obtain ⟨p, hp, hpq⟩ : ∃ p ∈ state.inputs.keys ++ state.graph.fileList, compare p q = .eq :=
      hknown.elim
        (fun h => (OrderedMap.contains_iff_keys.1 h).imp fun p h =>
          ⟨List.mem_append_left _ h.1, h.2⟩)
        fun h => (state.graph.consistent.exists_mem_fileList.2 h).imp fun p h =>
          ⟨List.mem_append_right _ h.1, h.2⟩
    refine ⟨p, List.mem_filter.2 ⟨hp, (hcurrent p).2 fun i hi he => ?_⟩, beq_iff_eq.2 hpq⟩
    exact hout i hi ((Std.TransCmp.congr_right hpq).symm.trans he)

/-- A file that left the build is no input. -/
theorem compare_ne_of_mem_removedFiles {state : BuildState} {inputs : List InputFile} {p : Path}
    (hp : p ∈ removedFiles state inputs) {i : InputFile} (hi : i ∈ inputs) :
    compare p i.path ≠ .eq := fun h =>
  (exists_mem_removedFiles_iff.1 ⟨p, hp, h⟩).2 i hi Std.ReflOrd.compare_self

/-- What a state knew and has not left the build is an input. -/
theorem exists_input_of_stays {state : BuildState} {inputs : List InputFile} {q : Path}
    (hq : state.inputs.contains q = true ∨ state.graph.containsFile q = true)
    (hstays : ∀ p ∈ removedFiles state inputs, compare p q ≠ .eq) :
    ∃ i ∈ inputs, compare i.path q = .eq := by
  by_contra hno
  obtain ⟨p, hp, hpq⟩ := exists_mem_removedFiles_iff.2 ⟨hq, fun i hi he => hno ⟨i, hi, he⟩⟩
  exact hstays p hp hpq

/-! ## Inputs that are dirty -/

/-- The inputs for which there is a reason to compile them again. -/
def dirtied (reason : InputFile → Option DirtyReason) (inputs : List InputFile) : DirtySet :=
  inputs.foldl
    (fun d i => match reason i with
      | some found => (DirtySet.add d i.path found).1
      | none => d) ∅

theorem contains_dirtied {reason : InputFile → Option DirtyReason} {inputs : List InputFile}
    {q : Path} : (dirtied reason inputs).contains q = true ↔
      ∃ i ∈ inputs, (reason i).isSome = true ∧ compare i.path q = .eq := by
  have key (l : List InputFile) (dirty : DirtySet) :
      (l.foldl (fun d i => match reason i with
        | some found => (DirtySet.add d i.path found).1
        | none => d) dirty).contains q = true ↔
        dirty.contains q = true ∨ ∃ i ∈ l, (reason i).isSome = true ∧ compare i.path q = .eq := by
    induction l generalizing dirty with
    | nil => simp
    | cons i rest ih =>
      rw [List.foldl_cons, ih, List.exists_mem_cons_iff]
      cases hr : reason i with
      | none => simp
      | some found =>
        rw [DirtySet.contains_add, Bool.or_eq_true, beq_iff_eq, or_assoc]
        simp
  exact (key inputs ∅).trans (or_iff_right fun h => by cases h)

/-- An input that is not dirty has no reason to be. -/
theorem reason_eq_none_of_not_dirtied {reason : InputFile → Option DirtyReason}
    {inputs : List InputFile} {i : InputFile} (hi : i ∈ inputs)
    (h : (dirtied reason inputs).contains i.path = false) : reason i = none := by
  cases hr : reason i with
  | none => rfl
  | some found =>
    rw [contains_dirtied.2 ⟨i, hi, by rw [hr]; rfl, Std.ReflOrd.compare_self⟩] at h
    cases h

/-- No reason to compile an input means that its content is what was compiled last. -/
theorem of_reason?_eq_none {state : BuildState} {dependents : OrderedSet Path} {i : InputFile}
    (h : reason? state dependents i = none) :
    state.fingerprintOf i.path = some i.fingerprint ∧ dependents.contains i.path = false := by
  unfold reason? at h
  unfold BuildState.fingerprintOf
  split at h
  · cases h
  · cases h
  · rename_i previous hget
    split at h
    · cases h
    · rename_i hsame
      split at h
      · cases h
      · rename_i hout
        rw [hget, not_not.1 hsame]
        exact ⟨rfl, Bool.not_eq_true _ ▸ hout⟩

/-- **A start from a state** is possible unless interfaces go in a circle. -/
theorem ofState_eq_ok_iff {state : BuildState} {inputs : List InputFile} {start : DirtyInputs} :
    ofState state inputs = .ok start ↔
      let after := removeFiles state (removedFiles state inputs) ∅
      after.1.graph.interfaceCycle? = none ∧
        start = ⟨dirtied (reason? after.1 after.2) inputs,
          enterInputs (dirtied (reason? after.1 after.2) inputs) after.1 inputs,
          removedFiles state inputs⟩ := by
  unfold ofState
  dsimp only
  generalize removeFiles state (removedFiles state inputs) ∅ = after
  obtain ⟨after, dependents⟩ := after
  cases after.graph.interfaceCycle? with
  | some key => exact iff_of_false (fun h => by cases h) fun h => by cases h.1
  | none =>
    constructor
    · intro h
      exact ⟨rfl, (Except.ok.inj h).symm⟩
    · rintro ⟨-, rfl⟩
      rfl

/-- It is denied for the key that is found in a circle. -/
theorem ofState_eq_error_iff {state : BuildState} {inputs : List InputFile} {e : PlanningError} :
    ofState state inputs = .error e ↔
      ∃ key, (removeFiles state (removedFiles state inputs) ∅).1.graph.interfaceCycle? = some key ∧
        e = .dependencyCycle key := by
  unfold ofState
  dsimp only
  generalize removeFiles state (removedFiles state inputs) ∅ = after
  obtain ⟨after, dependents⟩ := after
  cases after.graph.interfaceCycle? with
  | none => exact iff_of_false (fun h => by cases h) fun ⟨_, h, _⟩ => by cases h
  | some found =>
    constructor
    · intro h
      exact ⟨found, rfl, (Except.error.inj h).symm⟩
    · rintro ⟨key, hkey, rfl⟩
      rw [Option.some.inj hkey]

/-- What is entered for the inputs: nothing for a dirty one, and for another what was there
before. -/
theorem get?_enterInputs (dirty : DirtySet) (state : BuildState) {inputs : List InputFile}
    {i : InputFile} (hi : i ∈ inputs) :
    (enterInputs dirty state inputs).inputs.get? i.path
      = some (if dirty.contains i.path then none else state.fingerprintOf i.path) := by
  -- What has to be carried along is that the entry has been made or is still to be made, and
  -- that the fingerprint of a clean input is the old one.
  have key (l : List InputFile) (s : BuildState)
      (h : i ∈ l ∨ s.inputs.get? i.path
        = some (if dirty.contains i.path then none else state.fingerprintOf i.path))
      (hf : dirty.contains i.path = false → s.fingerprintOf i.path = state.fingerprintOf i.path) :
      (enterInputs dirty s l).inputs.get? i.path
        = some (if dirty.contains i.path then none else state.fingerprintOf i.path) := by
    induction l generalizing s with
    | nil => exact h.resolve_left List.not_mem_nil
    | cons j rest ih =>
      have hset (f : Option Fingerprint) : (s.setFingerprint j.path f).inputs.get? i.path
          = if compare j.path i.path = .eq then some f else s.inputs.get? i.path :=
        OrderedMap.get?_insert s.inputs j.path i.path f
      refine ih _ ?_ ?_
      · by_cases hj : compare j.path i.path = .eq
        · right
          rw [hset, if_pos hj, OrderedMap.contains_congr _ hj]
          by_cases hd : dirty.contains i.path = true
          · simp [hd]
          · rw [Bool.not_eq_true] at hd
            unfold BuildState.fingerprintOf at hf
            simp only [hd, BuildState.fingerprintOf, OrderedMap.get?_congr _ hj, hf hd]
        · rcases h with h | h
          · rcases List.mem_cons.1 h with rfl | h
            · exact absurd Std.ReflOrd.compare_self hj
            · exact .inl h
          · right
            rw [hset, if_neg hj]
            exact h
      · intro hd
        rw [BuildState.fingerprintOf_setFingerprint]
        split
        · rename_i hj
          rw [OrderedMap.contains_congr _ hj, hd]
          unfold BuildState.fingerprintOf at hf ⊢
          rw [OrderedMap.get?_congr _ hj]
          exact hf hd
        · exact hf hd
  exact key inputs state (.inl hi) fun _ => rfl

theorem enterInputs_rest (dirty : DirtySet) (state : BuildState) (inputs : List InputFile) :
    (enterInputs dirty state inputs).graph = state.graph ∧
      (enterInputs dirty state inputs).staleJobs = state.staleJobs ∧
      (enterInputs dirty state inputs).commands = state.commands := by
  induction inputs generalizing state with
  | nil => exact ⟨rfl, rfl, rfl⟩
  | cons i rest ih => exact ih _

/-! ## The start -/

/-- What is trusted of the last build. -/
def trusted : StateLoad → BuildState
  | .loaded state => state
  | .missing => .empty
  | .corrupt _ => .empty

/-- **What a build knows at its start**, compared with what is trusted of the last one. -/
structure Starts (prior : StateLoad) (inputs : List InputFile) (start : DirtyInputs) : Prop where
  entry : ∀ i ∈ inputs, start.state.inputs.get? i.path
    = some (if start.dirty.contains i.path then none else some i.fingerprint)
  staleJobs : start.state.staleJobs = (trusted prior).staleJobs
  commands : start.state.commands = (trusted prior).commands
  uniqueKeys : (trusted prior).graph.UniqueKeys → start.state.graph.UniqueKeys
  /-- An input that is not dirty depends on no file that left the build. -/
  agrees : (trusted prior).graph.UniqueKeys → ∀ i ∈ inputs,
    start.dirty.contains i.path = false →
      (trusted prior).graph.AgreesFor start.state.graph i.path

/-- A start from nothing makes every input dirty. -/
theorem contains_dirty_fresh {inputs : List InputFile} {i : InputFile} (hi : i ∈ inputs) :
    (fresh inputs).dirty.contains i.path = true := by
  show (dirtied (fun _ => some .noPriorState) inputs).contains i.path = true
  exact contains_dirtied.2 ⟨i, hi, rfl, Std.ReflOrd.compare_self⟩

theorem fresh_rest (inputs : List InputFile) :
    (fresh inputs).state.graph = .empty ∧ (fresh inputs).state.staleJobs = ∅ ∧
      (fresh inputs).state.commands = ∅ := by
  have key (l : List InputFile) (s : BuildState) :
      (l.foldl (fun s i => s.markNeedsRebuild i.path) s).graph = s.graph ∧
        (l.foldl (fun s i => s.markNeedsRebuild i.path) s).staleJobs = s.staleJobs ∧
        (l.foldl (fun s i => s.markNeedsRebuild i.path) s).commands = s.commands := by
    induction l generalizing s with
    | nil => exact ⟨rfl, rfl, rfl⟩
    | cons i rest ih => exact ih _
  exact key inputs .empty

theorem get?_fresh {inputs : List InputFile} {i : InputFile} (hi : i ∈ inputs) :
    (fresh inputs).state.inputs.get? i.path = some none := by
  have key (l : List InputFile) (s : BuildState)
      (h : i ∈ l ∨ s.inputs.get? i.path = some none) :
      (l.foldl (fun s i => s.markNeedsRebuild i.path) s).inputs.get? i.path = some none := by
    induction l generalizing s with
    | nil => exact h.resolve_left List.not_mem_nil
    | cons j rest ih =>
      have hmark : (s.markNeedsRebuild j.path).inputs.get? i.path
          = if compare j.path i.path = .eq then some none else s.inputs.get? i.path :=
        OrderedMap.get?_insert s.inputs j.path i.path none
      refine ih _ ?_
      rw [hmark]
      by_cases hj : compare j.path i.path = .eq
      · exact .inr (if_pos hj)
      · rw [if_neg hj]
        refine h.imp_left fun h => (List.mem_cons.1 h).resolve_left ?_
        rintro rfl
        exact hj Std.ReflOrd.compare_self
  exact key inputs .empty (.inl hi)

theorem starts_fresh {prior : StateLoad} (hprior : trusted prior = .empty)
    (inputs : List InputFile) : Starts prior inputs (fresh inputs) where
  entry i hi := by
    rw [get?_fresh hi, contains_dirty_fresh hi]
    rfl
  staleJobs := by rw [hprior, (fresh_rest inputs).2.1]; rfl
  commands := by rw [hprior, (fresh_rest inputs).2.2]; rfl
  uniqueKeys _ := DependencyGraph.uniqueKeys _
  agrees _ i hi h := by
    rw [contains_dirty_fresh hi] at h
    cases h

/-- A start from a state makes those inputs dirty for which there is a reason. -/
theorem starts_ofState {state : BuildState} {inputs : List InputFile} {start : DirtyInputs}
    (h : ofState state inputs = .ok start) : Starts (.loaded state) inputs start := by
  obtain ⟨-, hstale, -, hcommands, -, hagrees⟩ :=
    removeFiles_spec state (removedFiles state inputs) ∅
  obtain ⟨-, rfl⟩ := ofState_eq_ok_iff.1 h
  generalize removeFiles state (removedFiles state inputs) ∅ = after at *
  have hrest := enterInputs_rest (dirtied (reason? after.1 after.2) inputs) after.1 inputs
  refine ⟨fun i hi => ?_, hrest.2.1.trans hstale, hrest.2.2.trans hcommands,
    fun _ => DependencyGraph.uniqueKeys _, fun _ i hi hd => ?_⟩
  · dsimp only
    rw [get?_enterInputs _ _ hi]
    split
    · rfl
    · rename_i hd
      have hnone := reason_eq_none_of_not_dirtied hi (Bool.not_eq_true _ ▸ hd)
      rw [(of_reason?_eq_none hnone).1]
  · dsimp only at hd ⊢
    rw [hrest.1]
    exact hagrees i.path (fun p hp => compare_ne_of_mem_removedFiles hp hi)
      (of_reason?_eq_none (reason_eq_none_of_not_dirtied hi hd)).2

/-- **Every start divides the inputs.** -/
theorem starts_of_compute {prior : StateLoad} {inputs : List InputFile} {start : DirtyInputs}
    (h : compute prior inputs = .ok start) : Starts prior inputs start := by
  unfold compute at h
  split at h
  · exact starts_ofState h
  · obtain rfl := Except.ok.inj h
    exact starts_fresh rfl inputs
  · obtain rfl := Except.ok.inj h
    exact starts_fresh rfl inputs

end DirtyInputs

/-! ## What a state is about -/

/-- **Whether a state knows of no files but some**, and each declaration in it has a key. -/
structure BuildState.Within (s : BuildState) (files : List InputFile) : Prop where
  inputs : ∀ q, s.inputs.contains q = true → ∃ i ∈ files, compare i.path q = .eq
  graph : ∀ q, s.graph.containsFile q = true → ∃ i ∈ files, compare i.path q = .eq
  keys : ∀ q, ∀ d ∈ s.graph.declarationsOf q, d.key ≠ ""

namespace DirtyInputs

/-- Entering inputs adds no others. -/
theorem contains_enterInputs {dirty : DirtySet} {state : BuildState} {inputs : List InputFile}
    {q : Path} (h : (enterInputs dirty state inputs).inputs.contains q = true) :
    state.inputs.contains q = true ∨ ∃ i ∈ inputs, compare i.path q = .eq := by
  induction inputs generalizing state with
  | nil => exact .inl h
  | cons i rest ih =>
    have h : (enterInputs dirty (state.setFingerprint i.path
        (if dirty.contains i.path then none else state.fingerprintOf i.path)) rest).inputs.contains
          q = true := h
    rcases ih h with h | ⟨j, hj, hjq⟩
    · have h : (state.inputs.insert i.path _).contains q = true := h
      rw [OrderedMap.contains_insert, Bool.or_eq_true, beq_iff_eq] at h
      exact h.symm.imp_right fun h => ⟨i, List.mem_cons_self, h⟩
    · exact .inr ⟨j, List.mem_cons_of_mem i hj, hjq⟩

theorem within_fresh (inputs : List InputFile) : (fresh inputs).state.Within inputs where
  inputs q hq := by
    have hfold (l : List InputFile) (s : BuildState)
        (h : (l.foldl (fun s i => s.markNeedsRebuild i.path) s).inputs.contains q = true) :
        s.inputs.contains q = true ∨ ∃ i ∈ l, compare i.path q = .eq := by
      induction l generalizing s with
      | nil => exact .inl h
      | cons i rest ih =>
        rcases ih _ h with h | ⟨j, hj, hjq⟩
        · have h : (s.inputs.insert i.path none).contains q = true := h
          rw [OrderedMap.contains_insert, Bool.or_eq_true, beq_iff_eq] at h
          exact h.symm.imp_right fun h => ⟨i, List.mem_cons_self, h⟩
        · exact .inr ⟨j, List.mem_cons_of_mem i hj, hjq⟩
    exact (hfold inputs .empty hq).resolve_left Bool.false_ne_true
  graph q hq := by
    rw [(fresh_rest inputs).1] at hq
    cases hq
  keys q d hd := by
    rw [(fresh_rest inputs).1] at hd
    exact absurd hd List.not_mem_nil

/-- **A build starts with nothing but what it tracks.** -/
theorem within_of_compute {prior : StateLoad} {inputs : List InputFile} {start : DirtyInputs}
    (h : compute prior inputs = .ok start)
    (hkeys : ∀ q, ∀ d ∈ (trusted prior).graph.declarationsOf q, d.key ≠ "") :
    start.state.Within inputs := by
  unfold compute at h
  split at h
  · rename_i state
    obtain ⟨-, rfl⟩ := ofState_eq_ok_iff.1 h
    obtain ⟨hget, -⟩ := removeFiles_spec state (removedFiles state inputs) ∅
    have hgraph := removeFiles_graph state (removedFiles state inputs) ∅
    generalize removeFiles state (removedFiles state inputs) ∅ = after at *
    have hrest := (enterInputs_rest (dirtied (reason? after.1 after.2) inputs) after.1 inputs).1
    refine ⟨fun q hq => ?_, fun q hq => ?_, fun q d hd => ?_⟩
    · refine (contains_enterInputs hq).elim (fun hq => ?_) id
      rw [← OrderedMap.isSome_get?, hget q] at hq
      split at hq
      · cases hq
      · rename_i hstays
        rw [OrderedMap.isSome_get?] at hq
        exact exists_input_of_stays (.inl hq) fun p hp hpq => hstays ⟨p, hp, hpq⟩
    · dsimp only at hq
      rw [hrest] at hq
      obtain ⟨hfile, hstays⟩ := (hgraph q).1 hq
      exact exists_input_of_stays (.inr hfile) hstays
    · dsimp only at hd
      rw [hrest] at hd
      exact hkeys q d ((hgraph q).2 d hd)
  · obtain rfl := Except.ok.inj h
    exact within_fresh inputs
  · obtain rfl := Except.ok.inj h
    exact within_fresh inputs

end DirtyInputs

end IncrementalBuild
