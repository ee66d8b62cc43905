import IncrementalBuild.Proofs.DeclarationTable
import IncrementalBuild.Proofs.Start

/-!
# Why an input is dirty

Files that left the build are taken out of the graph one after the other, and after each
step the graph, half of them gone, is asked whom that reaches. Whether a key is missed by
those that only use it depends then on the place in the order: as long as another file that
leaves still declares the key nobody is told, and whoever leaves last is taken to be the one
that mattered.

In the end the order does not show. Whoever uses a key stays, so it is there to be asked at
each step, and among the files that declare a key and leave one is the last. So a declaration
is reached exactly if it is built on a key that some file that leaves declares, or if it uses
such a key and no file that stays declares it, both said of the graph as it was.
-/

namespace IncrementalBuild

namespace DependencyGraph

/-- Whether one of some files declares a key. -/
def DeclaredIn (g : DependencyGraph) (files : List Path) (key : String) : Prop :=
  ∃ p ∈ files, ∃ f, g.Declares p key f

/-- Whether a file that is none of some files declares a key. -/
def DeclaredOutside (g : DependencyGraph) (files : List Path) (key : String) : Prop :=
  ∃ p f, (∀ q ∈ files, compare q p ≠ .eq) ∧ g.Declares p key f

/-- **Whether a declaration is affected when some files leave**: it is built on a key that one
of them declares, or uses such a key, and no file that stays declares it. -/
def LosesSupport (g : DependencyGraph) (gone : List Path) (d : Declaration) : Prop :=
  (∃ key ∈ d.provides, g.DeclaredIn gone key) ∨
    ∃ key ∈ d.uses, g.DeclaredIn gone key ∧ ¬ g.DeclaredOutside gone key

section Removal

variable {g : DependencyGraph} {p q : Path} {key : String} {files : List Path}

theorem declarationsOf_removeFile (g : DependencyGraph) (p q : Path) :
    (g.removeFile p).1.declarationsOf q
      = if compare p q = .eq then [] else g.declarationsOf q :=
  g.declarationsOf_replace p q []

theorem declares_removeFile {f : Fingerprint} :
    (g.removeFile p).1.Declares q key f ↔ compare p q ≠ .eq ∧ g.Declares q key f := by
  unfold DeclarationStore.Declares
  rw [declarationsOf_removeFile]
  split
  · rename_i h
    simp [h]
  · rename_i h
    simp [h]

/-- Taking a file out removes the keys that it declares. -/
theorem mem_changes_removeFile {change : KeyChange} :
    change ∈ (g.removeFile p).2 ↔
      change.kind = .removed ∧ ∃ f, g.Declares p change.key f := by
  obtain ⟨key, kind⟩ := change
  refine (g.mem_changes_replace p []).trans ?_
  cases kind with
  | added => exact iff_of_false (fun h => List.not_mem_nil h.1) fun h => by cases h.1
  | modified =>
    refine iff_of_false (fun h => ?_) fun h => by cases h.1
    obtain ⟨d, -, d', hd', -⟩ := h
    exact List.not_mem_nil hd'
  | removed =>
    show key ∈ (g.declarationsOf p).map (·.key) ∧ key ∉ [] ↔ _
    rw [List.mem_map]
    constructor
    · rintro ⟨⟨d, hd, hkey⟩, -⟩
      exact ⟨rfl, d.fingerprint, d, hd, hkey, rfl⟩
    · rintro ⟨-, f, d, hd, hkey, -⟩
      exact ⟨⟨d, hd, hkey⟩, List.not_mem_nil⟩

/-- What some files declare, one of them or the others declare. -/
theorem declaredIn_cons :
    g.DeclaredIn (p :: files) key ↔
      (∃ f, g.Declares p key f) ∨ (g.removeFile p).1.DeclaredIn files key := by
  unfold DeclaredIn
  rw [List.exists_mem_cons_iff]
  by_cases hp : ∃ f, g.Declares p key f
  · exact iff_of_true (.inl hp) (.inl hp)
  · rw [or_iff_right hp, or_iff_right hp]
    refine exists_congr fun q => and_congr_right fun _ => exists_congr fun f => ?_
    rw [declares_removeFile]
    -- Under another spelling of its path the file would declare the key as well.
    refine (and_iff_right_of_imp fun hq hpq => hp ⟨f, ?_⟩).symm
    unfold DeclarationStore.Declares
    rw [g.declarationsOf_congr hpq]
    exact hq

theorem declaredOutside_cons :
    g.DeclaredOutside (p :: files) key ↔ (g.removeFile p).1.DeclaredOutside files key := by
  unfold DeclaredOutside
  refine exists_congr fun q => exists_congr fun f => ?_
  rw [declares_removeFile, List.forall_mem_cons]
  tauto

/-- A key is declared inside of some files or outside of them. -/
theorem provides_iff_declared :
    g.Provides key ↔ g.DeclaredIn files key ∨ g.DeclaredOutside files key := by
  constructor
  · rintro ⟨p, f, hp⟩
    by_cases hout : ∀ q ∈ files, compare q p ≠ .eq
    · exact .inr ⟨p, f, hout, hp⟩
    · push Not at hout
      obtain ⟨q, hq, hqp⟩ := hout
      refine .inl ⟨q, hq, f, ?_⟩
      unfold DeclarationStore.Declares
      rw [g.declarationsOf_congr hqp]
      exact hp
  · rintro (⟨p, -, f, hp⟩ | ⟨p, f, -, hp⟩) <;> exact ⟨p, f, hp⟩

/-- **A declaration is affected by a file that leaves at once, or by the others later.** Where
one of the others declares a key too, nothing is missed until that one leaves. -/
theorem losesSupport_cons {d : Declaration} :
    g.LosesSupport (p :: files) d ↔
      (∃ change ∈ (g.removeFile p).2, (g.removeFile p).1.Reaches change d) ∨
        (g.removeFile p).1.LosesSupport files d := by
  have hreached : (∃ change ∈ (g.removeFile p).2, (g.removeFile p).1.Reaches change d) ↔
      ∃ key, (∃ f, g.Declares p key f) ∧
        (key ∈ d.provides ∨ ¬ (g.removeFile p).1.Provides key ∧ key ∈ d.uses) := by
    constructor
    · rintro ⟨⟨key, kind⟩, hchange, hr⟩
      obtain ⟨rfl, hdeclares⟩ := mem_changes_removeFile.1 hchange
      exact ⟨key, hdeclares, hr.imp_right And.right⟩
    · rintro ⟨key, hdeclares, hr⟩
      exact ⟨⟨key, .removed⟩, mem_changes_removeFile.2 ⟨rfl, hdeclares⟩,
        hr.imp_right fun h => ⟨rfl, h⟩⟩
  have hprovides (key : String) : (g.removeFile p).1.Provides key ↔
      (g.removeFile p).1.DeclaredIn files key ∨ (g.removeFile p).1.DeclaredOutside files key :=
    provides_iff_declared
  rw [hreached]
  unfold LosesSupport
  simp only [declaredIn_cons, declaredOutside_cons (g := g), hprovides]
  constructor
  · rintro (⟨key, hkey, hp | hin⟩ | ⟨key, hkey, hp | hin, hout⟩)
    · exact .inl ⟨key, hp, .inl hkey⟩
    · exact .inr (.inl ⟨key, hkey, hin⟩)
    · by_cases hin : (g.removeFile p).1.DeclaredIn files key
      · exact .inr (.inr ⟨key, hkey, hin, hout⟩)
      · exact .inl ⟨key, hp, .inr ⟨not_or.2 ⟨hin, hout⟩, hkey⟩⟩
    · exact .inr (.inr ⟨key, hkey, hin, hout⟩)
  · rintro (⟨key, hp, hkey | ⟨hnone, hkey⟩⟩ | ⟨key, hkey, hin⟩ | ⟨key, hkey, hin, hout⟩)
    · exact .inl ⟨key, hkey, .inl hp⟩
    · exact .inr ⟨key, hkey, .inl hp, (not_or.1 hnone).2⟩
    · exact .inl ⟨key, hkey, .inr hin⟩
    · exact .inr ⟨key, hkey, .inr hin, hout⟩

end Removal

end DependencyGraph

namespace DirtyInputs

/-! ## Taking the files out -/

/-- **Taking files out of a state** leaves the declarations of all others. -/
theorem declarationsOf_removeFiles (state : BuildState) (paths : List Path)
    (found : OrderedSet Path) (q : Path) :
    (removeFiles state paths found).1.graph.declarationsOf q
      = if ∃ p ∈ paths, compare p q = .eq then [] else state.graph.declarationsOf q := by
  induction paths generalizing state found with
  | nil => simp [removeFiles]
  | cons p rest ih =>
    refine (ih _ _).trans ?_
    show (if _ then [] else (state.graph.removeFile p).1.declarationsOf q) = _
    rw [DependencyGraph.declarationsOf_removeFile]
    by_cases hrest : ∃ p ∈ rest, compare p q = .eq
    · simp [hrest]
    · by_cases hpq : compare p q = .eq <;> simp [hrest, hpq]

/-- **A file that stays is found to be affected exactly if one of its declarations is**, in
whatever order the others are taken out. -/
theorem contains_removeFiles (state : BuildState) (paths : List Path) (found : OrderedSet Path)
    {q : Path} (hq : ∀ p ∈ paths, compare p q ≠ .eq) :
    (removeFiles state paths found).2.contains q = true ↔
      found.contains q = true ∨
        ∃ d ∈ state.graph.declarationsOf q, state.graph.LosesSupport paths d := by
  induction paths generalizing state found with
  | nil =>
    refine (or_iff_left fun h => ?_).symm
    obtain ⟨d, -, ⟨key, -, p, hp, -⟩ | ⟨key, -, ⟨p, hp, -⟩, -⟩⟩ := h <;>
      exact List.not_mem_nil hp
  | cons p rest ih =>
    obtain ⟨hpq, hrest⟩ := List.forall_mem_cons.1 hq
    have hsame : (state.graph.removeFile p).1.declarationsOf q = state.graph.declarationsOf q := by
      rw [DependencyGraph.declarationsOf_removeFile, if_neg hpq]
    refine (ih { state with
        graph := (state.graph.removeFile p).1, inputs := state.inputs.erase p }
      (found.union ((state.graph.removeFile p).1.filesAffectedBy (state.graph.removeFile p).2 p))
      hrest).trans ?_
    rw [OrderedSet.contains_union, Bool.or_eq_true,
      (state.graph.removeFile p).1.consistent.contains_filesAffectedBy, and_iff_right hpq, hsame,
      or_assoc, ← exists_or]
    refine or_congr_right (exists_congr fun d => ?_)
    rw [DependencyGraph.losesSupport_cons, and_or_left]

/-! ## The reason for each input -/

/-- What is noted for a path when the reasons for some inputs are. -/
theorem get?_foldl_note (reason : InputFile → Option DirtyReason) (inputs : List InputFile)
    (dirty : DirtySet) (q : Path) :
    (inputs.foldl (fun d i => match reason i with
        | some found => (DirtySet.add d i.path found).1
        | none => d) dirty).get? q
      = (dirty.get? q).or
          ((inputs.filter fun i => compare i.path q == .eq).findSome? reason) := by
  induction inputs generalizing dirty with
  | nil => exact (Option.or_none).symm
  | cons i rest ih =>
    rw [List.foldl_cons, ih, List.filter_cons]
    by_cases hq : compare i.path q = .eq
    · rw [if_pos (beq_iff_eq.2 hq), List.findSome?_cons]
      cases reason i with
      | none => rfl
      | some found =>
        dsimp only
        rw [DirtySet.get?_add, if_pos hq]
        cases dirty.get? q <;> rfl
    · rw [if_neg (mt beq_iff_eq.1 hq)]
      cases reason i with
      | none => rfl
      | some found =>
        dsimp only
        rw [DirtySet.get?_add, if_neg hq]

/-- **The reason that is noted for an input** is its own, where the inputs have different
paths. -/
theorem get?_dirtied {reason : InputFile → Option DirtyReason} {inputs : List InputFile}
    (hpaths : inputs.Pairwise fun i j => compare i.path j.path ≠ .eq) {i : InputFile}
    (hi : i ∈ inputs) : (dirtied reason inputs).get? i.path = reason i := by
  have hself : inputs.filter (fun j => compare j.path i.path == .eq) = [i] := by
    obtain ⟨before, after, rfl⟩ := List.append_of_mem hi
    obtain ⟨-, hafter, hbefore⟩ := List.pairwise_append.1 hpaths
    rw [List.filter_append, List.filter_eq_nil_iff.2 fun j hj => ?_,
      List.filter_cons_of_pos (by simp), List.filter_eq_nil_iff.2 fun j hj => ?_]
    · rfl
    · rw [beq_iff_eq, Std.OrientedCmp.eq_comm]
      exact (List.pairwise_cons.1 hafter).1 j hj
    · rw [beq_iff_eq]
      exact hbefore j hj i List.mem_cons_self
  refine (get?_foldl_note reason inputs ∅ i.path).trans ?_
  rw [hself]
  show (none : Option DirtyReason).or ([i].findSome? reason) = _
  rw [Option.none_or, List.findSome?_cons]
  cases reason i <;> rfl

/-- **What is found about an input** at the start of a build, by the state that the last build
left and the files that have left since. -/
inductive Judged (state : BuildState) (gone : List Path) (i : InputFile) :
    Option DirtyReason → Prop
  | new : state.inputs.get? i.path = none → Judged state gone i (some .new)
  | missingRecord : state.inputs.get? i.path = some none → Judged state gone i (some .missingRecord)
  | modified {f} : state.inputs.get? i.path = some (some f) → f ≠ i.fingerprint →
      Judged state gone i (some .modified)
  | dependencyRemoved {d} : state.inputs.get? i.path = some (some i.fingerprint) →
      d ∈ state.graph.declarationsOf i.path → state.graph.LosesSupport gone d →
      Judged state gone i (some .dependencyRemoved)
  | clean : state.inputs.get? i.path = some (some i.fingerprint) →
      (∀ d ∈ state.graph.declarationsOf i.path, ¬ state.graph.LosesSupport gone d) →
      Judged state gone i none

/-- One thing is found about an input. -/
theorem Judged.unique {state : BuildState} {gone : List Path} {i : InputFile}
    {r r' : Option DirtyReason} (h : Judged state gone i r) (h' : Judged state gone i r') :
    r = r' := by
  cases h <;> cases h' <;> simp_all

/-- **An input is judged** by the reason for which it is dirty. -/
theorem judged_reason? {state : BuildState} {gone : List Path} {i : InputFile}
    (hi : ∀ p ∈ gone, compare p i.path ≠ .eq) :
    let after := removeFiles state gone ∅
    Judged state gone i (reason? after.1 after.2 i) := by
  intro after
  have hentry : after.1.inputs.get? i.path = state.inputs.get? i.path := by
    rw [(removeFiles_spec state gone ∅).1, if_neg]
    rintro ⟨p, hp, hpi⟩
    exact hi p hp hpi
  have haffected : after.2.contains i.path = true ↔
      ∃ d ∈ state.graph.declarationsOf i.path, state.graph.LosesSupport gone d :=
    (contains_removeFiles state gone ∅ hi).trans (or_iff_right Bool.false_ne_true)
  unfold reason?
  rw [hentry]
  split
  · exact .new ‹_›
  · exact .missingRecord ‹_›
  · rename_i previous hprevious
    split
    · exact .modified hprevious ‹_›
    · rename_i hsame
      rw [not_not.1 hsame] at hprevious
      split
      · rename_i hfound
        obtain ⟨d, hd, hlost⟩ := haffected.1 hfound
        exact .dependencyRemoved hprevious hd hlost
      · rename_i hfound
        exact .clean hprevious fun d hd hlost => hfound (haffected.2 ⟨d, hd, hlost⟩)

/-! ## The start of a build -/

/-- **A start that is exact** for a state and some inputs: each input is dirty for the reason
that is found about it, what left is what the state knew and is no input, and the state is
that of the inputs alone, in which the dirty ones have no fingerprint. -/
structure Exact (state : BuildState) (inputs : List InputFile) (start : DirtyInputs) : Prop where
  judged : ∀ i ∈ inputs, ∀ r, start.dirty.get? i.path = r ↔ Judged state start.removed i r
  /-- Nothing but inputs is dirty. -/
  dirty_is_input : ∀ q, start.dirty.contains q = true → ∃ i ∈ inputs, compare i.path q = .eq
  removed_ascending : start.removed.Pairwise fun p q => compare p q = .lt
  removed_iff : ∀ q, (∃ p ∈ start.removed, compare p q = .eq) ↔
    (state.inputs.contains q = true ∨ state.graph.containsFile q = true) ∧
      ∀ i ∈ inputs, compare i.path q ≠ .eq
  entry_iff : ∀ q, start.state.inputs.contains q = true ↔ ∃ i ∈ inputs, compare i.path q = .eq
  entry : ∀ i ∈ inputs, start.state.inputs.get? i.path
    = if start.dirty.contains i.path then some none else state.inputs.get? i.path
  declarations : ∀ q, start.state.graph.declarationsOf q
    = if ∃ p ∈ start.removed, compare p q = .eq then [] else state.graph.declarationsOf q

/-- What is not dirty was compiled to the end as it is. -/
theorem Judged.get?_of_clean {state : BuildState} {gone : List Path} {i : InputFile}
    (h : Judged state gone i none) : state.inputs.get? i.path = some (some i.fingerprint) := by
  cases h
  assumption

/-- **Every start from a state is exact**, where the inputs have different paths. -/
theorem exact_of_compute {state : BuildState} {inputs : List InputFile} {start : DirtyInputs}
    (hpaths : inputs.Pairwise fun i j => compare i.path j.path ≠ .eq)
    (h : compute (.loaded state) inputs = .ok start) : start.Exact state inputs := by
  have hstarts := starts_of_compute h
  obtain ⟨-, hstart⟩ := ofState_eq_ok_iff.1 h
  -- The start is what is left of the state after the removed files are gone, with the inputs
  -- entered.
  let after := removeFiles state (removedFiles state inputs) ∅
  have hdirty : start.dirty = dirtied (reason? after.1 after.2) inputs := by rw [hstart]
  have hremoved : start.removed = removedFiles state inputs := by rw [hstart]
  have hstate : start.state = enterInputs start.dirty after.1 inputs := by rw [hstart]
  have hstays (i : InputFile) (hi : i ∈ inputs) : ∀ p ∈ start.removed, compare p i.path ≠ .eq :=
    fun p hp => compare_ne_of_mem_removedFiles (hremoved ▸ hp) hi
  have hjudged (i : InputFile) (hi : i ∈ inputs) :
      Judged state start.removed i (start.dirty.get? i.path) := by
    rw [hdirty, get?_dirtied hpaths hi]
    exact hremoved ▸ judged_reason? (hremoved ▸ hstays i hi)
  constructor
  case judged =>
    intro i hi r
    exact ⟨fun hr => hr ▸ hjudged i hi, (hjudged i hi).unique⟩
  case dirty_is_input =>
    intro q hq
    obtain ⟨i, hi, -, hiq⟩ := contains_dirtied.1 (hdirty ▸ hq)
    exact ⟨i, hi, hiq⟩
  case removed_ascending =>
    rw [hremoved]
    exact List.pairwise_map.2 (OrderedMap.ascending _)
  case removed_iff =>
    intro q
    rw [hremoved]
    exact exists_mem_removedFiles_iff
  case entry_iff =>
    intro q
    constructor
    -- An entry is of an input: it was entered as one, or it was in the state and has stayed.
    · intro hq
      refine (contains_enterInputs (hstate ▸ hq)).elim (fun hq => ?_) id
      rw [← OrderedMap.isSome_get?, (removeFiles_spec state _ ∅).1 q] at hq
      split at hq
      · cases hq
      · rename_i hstays
        rw [OrderedMap.isSome_get?] at hq
        exact exists_input_of_stays (.inl hq) fun p hp hpq => hstays ⟨p, hp, hpq⟩
    · rintro ⟨i, hi, hiq⟩
      rw [← OrderedMap.contains_congr _ hiq, ← OrderedMap.isSome_get?, hstarts.entry i hi]
      rfl
  case entry =>
    intro i hi
    rw [hstarts.entry i hi]
    split
    · rfl
    · rename_i hclean
      have hnone := OrderedMap.get?_eq_none_iff.2 (Bool.not_eq_true _ ▸ hclean)
      exact (Judged.get?_of_clean (hnone ▸ hjudged i hi)).symm
  case declarations =>
    intro q
    rw [hstate, (enterInputs_rest _ _ _).1, hremoved]
    exact declarationsOf_removeFiles state _ ∅ q

/-! Two files leave that both declare the key `k`. One input uses it, and is found when the
second of the two leaves. Another uses a key that it declares itself besides a file that
leaves, and stays as it is. -/

namespace TwoLeave

def declared (key : String) (uses : List String) : Declaration := ⟨key, ⟨"1"⟩, [], uses⟩

def graph : DependencyGraph :=
  [("e", [declared "k" []]), ("f", [declared "k" [], declared "s" []]),
    ("c", [declared "s" [], declared "y" ["s"]]), ("m", [declared "x" ["k"]])].foldl
    (fun g (file, ds) => (g.replace ⟨file⟩ ds).1) .empty

/-- The last build knew all inputs but one, and had not compiled another. -/
def lastState : BuildState :=
  { BuildState.empty with
    graph
    inputs := .ofList [(⟨"a"⟩, some ⟨"old"⟩), (⟨"b"⟩, none), (⟨"c"⟩, some ⟨"now"⟩),
      (⟨"e"⟩, some ⟨"now"⟩), (⟨"m"⟩, some ⟨"now"⟩)] }

def present : List InputFile := ["a", "b", "c", "m", "n"].map fun file => ⟨⟨file⟩, ⟨"now"⟩⟩

end TwoLeave

open TwoLeave in
theorem exact_of_compute_twoLeave : ∃ start,
    present.Pairwise (fun i j => compare i.path j.path ≠ .eq)
      ∧ compute (.loaded lastState) present = .ok start ∧ start.Exact lastState present
      ∧ start.removed.map (·.text) = ["e", "f"]
      ∧ start.dirty.entries.map (fun e => (e.1.text, e.2)) = [("a", .modified),
          ("b", .missingRecord), ("m", .dependencyRemoved), ("n", .new)] := by
  have hpaths : present.Pairwise fun i j => compare i.path j.path ≠ .eq := by decide +kernel
  obtain ⟨start, hstart, hfound⟩ := exists_eq_ok_of_toOption
    (x := compute (.loaded lastState) present)
    (f := fun start => (start.removed.map (·.text),
      start.dirty.entries.map fun e => (e.1.text, e.2)))
    (b := (["e", "f"], [("a", .modified), ("b", .missingRecord), ("m", .dependencyRemoved),
      ("n", .new)])) (by decide +kernel)
  exact ⟨start, hpaths, hstart, exact_of_compute hpaths hstart, congrArg Prod.fst hfound,
    congrArg Prod.snd hfound⟩

end DirtyInputs

end IncrementalBuild
