import IncrementalBuild.Proofs.DependencyGraph
import IncrementalBuild.Proofs.Plan

/-!
# A graph answers as a plain table

What a dependency graph is asked can also be read off a plain table that holds for each file
its last declarations: it has no slots, no numbers and no indexes, and every question goes
through all of it. A graph that calls have led to, from the empty graph on, answers every
question as the table does to which the same calls lead, and tells of each replacement what
becomes of the keys.

The paths of a graph keep the spelling in which they came first, so paths are compared by
their components.

The proof has one invariant, that the table finds under a path what the graph keeps for it.
A call keeps it, and every answer follows from it and from the graph being consistent.
-/

namespace IncrementalBuild

/-! ## Ascending lists -/

namespace Path

/-- Lists of paths that are equal place by place. -/
theorem beq_of_forall₂ {l r : List Path} (h : List.Forall₂ (fun p q => compare p q = .eq) l r) :
    (l == r) = true := by
  induction h with
  | nil => rfl
  | cons hpq _ ih => rw [List.cons_beq_cons, beq_iff_compare.2 hpq, ih, Bool.and_self]

/-- **Ascending lists of the same files are equal.** -/
theorem beq_of_ascending {l r : List Path} (hl : l.Pairwise fun p q => compare p q = .lt)
    (hr : r.Pairwise fun p q => compare p q = .lt)
    (h : ∀ k, (∃ p ∈ l, compare p k = .eq) ↔ ∃ q ∈ r, compare q k = .eq) : (l == r) = true :=
  beq_of_forall₂ (OrderedMap.forall₂_of_ascending hl hr h)

end Path

/-! ## Lists of declarations -/

/-- The last declaration of a key. -/
def lastWithKey? (ds : List Declaration) (key : String) : Option Declaration :=
  ds.reverse.find? (·.key == key)

/-- The last declarations of all keys, in the order in which the keys come first. -/
def lastOfEachKey (ds : List Declaration) : List Declaration :=
  (ds.map (·.key)).eraseDups.filterMap (lastWithKey? ds)

section Lists

variable {ds : List Declaration} {d : Declaration} {key : String}

theorem key_of_lastWithKey? (h : lastWithKey? ds key = some d) : d.key = key := by
  unfold lastWithKey? at h
  have hfound := List.find?_some h
  exact beq_iff_eq.1 hfound

theorem exists_lastWithKey? (h : key ∈ ds.map (·.key)) : ∃ d, lastWithKey? ds key = some d := by
  obtain ⟨d, hd, hkey⟩ := List.mem_map.1 h
  exact Option.isSome_iff_exists.1 (List.find?_isSome.2
    ⟨d, List.mem_reverse.2 hd, beq_iff_eq.2 hkey⟩)

theorem lastWithKey?_append (ds : List Declaration) (d : Declaration) (key : String) :
    lastWithKey? (ds ++ [d]) key = if d.key = key then some d else lastWithKey? ds key := by
  unfold lastWithKey?
  rw [List.reverse_append, List.reverse_singleton, List.singleton_append]
  by_cases hkey : d.key = key
  · rw [if_pos hkey]
    exact List.find?_cons_of_pos (beq_iff_eq.2 hkey)
  · rw [if_neg hkey]
    exact List.find?_cons_of_neg fun h => hkey (beq_iff_eq.1 h)

/-- **Each key has one declaration**, in the order in which the keys came. -/
theorem map_key_lastOfEachKey (ds : List Declaration) :
    (lastOfEachKey ds).map (·.key) = (ds.map (·.key)).eraseDups := by
  have hmap (keys : List String) (hkeys : ∀ key ∈ keys, key ∈ ds.map (·.key)) :
      (keys.filterMap (lastWithKey? ds)).map (·.key) = keys := by
    induction keys with
    | nil => rfl
    | cons key rest ih =>
      obtain ⟨d, hd⟩ := exists_lastWithKey? (hkeys key List.mem_cons_self)
      rw [List.filterMap_cons_some hd, List.map_cons, key_of_lastWithKey? hd,
        ih fun k hk => hkeys k (List.mem_cons_of_mem _ hk)]
  exact hmap _ fun key hkey => List.mem_eraseDups.1 hkey

/-- **One more declaration takes the place of an earlier one with its key**, or the last
place. -/
theorem lastOfEachKey_append (ds : List Declaration) (d : Declaration) :
    lastOfEachKey (ds ++ [d]) = DependencyGraph.putDeclaration (lastOfEachKey ds) d := by
  have hany : (lastOfEachKey ds).any (·.key == d.key) = true ↔ d.key ∈ ds.map (·.key) := by
    rw [← List.mem_eraseDups, ← map_key_lastOfEachKey, List.any_eq_true, List.mem_map]
    simp only [beq_iff_eq]
  unfold DependencyGraph.putDeclaration
  by_cases hd : d.key ∈ ds.map (·.key)
  · rw [if_pos (hany.2 hd)]
    have hkeys : ((ds ++ [d]).map (·.key)).eraseDups = (ds.map (·.key)).eraseDups := by
      rw [List.map_append, List.eraseDups_append, List.map_singleton]
      generalize ds.map (·.key) = keys at hd ⊢
      simp [List.removeAll, hd]
    unfold lastOfEachKey
    rw [hkeys, List.map_filterMap]
    refine List.filterMap_congr fun key hkey => ?_
    obtain ⟨old, hold⟩ := exists_lastWithKey? (List.mem_eraseDups.1 hkey)
    rw [lastWithKey?_append, hold, Option.map_some, key_of_lastWithKey? hold]
    by_cases hsame : d.key = key
    · rw [if_pos hsame, if_pos (beq_iff_eq.2 hsame.symm)]
    · rw [if_neg hsame, if_neg fun h => hsame (beq_iff_eq.1 h).symm]
  · rw [if_neg fun h => hd (hany.1 h)]
    have hkeys : ((ds ++ [d]).map (·.key)).eraseDups = (ds.map (·.key)).eraseDups ++ [d.key] := by
      rw [List.map_append, List.eraseDups_append, List.map_singleton]
      generalize ds.map (·.key) = keys at hd ⊢
      simp [List.removeAll, hd, List.eraseDups_cons]
    unfold lastOfEachKey
    rw [hkeys, List.filterMap_append]
    congr 1
    · refine List.filterMap_congr fun key hkey => ?_
      rw [lastWithKey?_append, if_neg]
      rintro rfl
      exact hd (List.mem_eraseDups.1 hkey)
    · rw [List.filterMap_cons_some ((lastWithKey?_append ds d d.key).trans (if_pos rfl))]
      rfl

/-- **Merging keeps the last declaration of each key.** -/
theorem mergeDeclarations_eq (ds : List Declaration) :
    DependencyGraph.mergeDeclarations ds = lastOfEachKey ds := by
  induction ds using List.reverseRecOn with
  | nil => rfl
  | append_singleton ds d ih =>
    unfold DependencyGraph.mergeDeclarations at ih ⊢
    rw [List.foldl_append, ih, lastOfEachKey_append]
    rfl

theorem isEmpty_lastOfEachKey (ds : List Declaration) :
    (lastOfEachKey ds).isEmpty = ds.isEmpty := by
  have hlength := congrArg List.isEmpty (map_key_lastOfEachKey ds)
  rw [List.isEmpty_map] at hlength
  rw [hlength]
  cases ds with
  | nil => rfl
  | cons d rest =>
    rw [List.map_cons, List.eraseDups_cons]
    rfl

end Lists

/-! ## Changes of keys -/

/-- **What it takes for a change** when old declarations give way to new ones. -/
def KeyChange.Arises (old new : List Declaration) : KeyChange → Prop
  | ⟨key, .added⟩ => key ∈ new.map (·.key) ∧ key ∉ old.map (·.key)
  | ⟨key, .modified⟩ => ∃ d ∈ old, ∃ d' ∈ new,
      d.key = key ∧ d'.key = key ∧ d.fingerprint ≠ d'.fingerprint
  | ⟨key, .removed⟩ => key ∈ old.map (·.key) ∧ key ∉ new.map (·.key)

/-- **Whether a list tells all changes**: first those of keys that are added or modified, then
those of keys that are removed, both in the order of the keys and each once. -/
def TellsChanges (changes : List KeyChange) (old new : List Declaration) : Prop :=
  ∃ kept gone, changes = kept ++ gone ∧
    kept.Pairwise (fun a b => compare a.key b.key = .lt) ∧
    gone.Pairwise (fun a b => compare a.key b.key = .lt) ∧
    (∀ change, change ∈ kept ↔ change.kind ≠ .removed ∧ change.Arises old new) ∧
    ∀ change, change ∈ gone ↔ change.kind = .removed ∧ change.Arises old new

/-- A key that some declarations have. -/
theorem contains_fingerprintsByKey {ds : List Declaration} {key : String} :
    (DependencyGraph.fingerprintsByKey ds).contains key = true ↔ key ∈ ds.map (·.key) := by
  unfold DependencyGraph.fingerprintsByKey
  rw [OrderedMap.contains_ofList, List.any_map, List.any_eq_true, List.mem_map]
  simp only [Function.comp_apply, beq_iff_eq, Std.compare_eq_iff_eq]

/-- What is told of a key that is there with a new fingerprint. -/
theorem keptChange_eq_some_iff {previous? : Option Fingerprint} {key : String} {f : Fingerprint}
    {change : KeyChange} :
    (match previous? with
      | none => some ⟨key, .added⟩
      | some previous => if previous = f then none else some ⟨key, .modified⟩) = some change ↔
      change = ⟨key, .added⟩ ∧ previous? = none ∨
        ∃ previous, change = ⟨key, .modified⟩ ∧ previous? = some previous ∧ previous ≠ f := by
  cases previous? with
  | none => simp [eq_comm]
  | some previous => by_cases h : previous = f <;> simp [h, @eq_comm _ change]

/-- **The changes of keys are told in order.** -/
theorem tellsChanges_keyChanges {old new : List Declaration} (hold : (old.map (·.key)).Nodup)
    (hnew : (new.map (·.key)).Nodup) :
    TellsChanges (DependencyGraph.keyChanges (DependencyGraph.fingerprintsByKey old)
      (DependencyGraph.fingerprintsByKey new)) old new := by
  have hgetOld {key : String} {f : Fingerprint} :=
    @DependencyGraph.get?_fingerprintsByKey old hold key f
  have hgetNew {key : String} {f : Fingerprint} :=
    @DependencyGraph.get?_fingerprintsByKey new hnew key f
  have hnone {ds : List Declaration} {key : String} :
      (DependencyGraph.fingerprintsByKey ds).get? key = none ↔ key ∉ ds.map (·.key) := by
    rw [OrderedMap.get?_eq_none_iff, ← Bool.not_eq_true, contains_fingerprintsByKey]
  refine ⟨_, _, rfl, ?_, ?_, ?_, ?_⟩
  -- Keys that were added or modified are told in the order of the new table, those that were
  -- removed in the order of the old one.
  · refine (DependencyGraph.fingerprintsByKey new).ascending.filterMap _ ?_
    rintro ⟨key, f⟩ ⟨key', f'⟩ hlt change hchange change' hchange'
    have hkey : change.key = key := by
      rcases keptChange_eq_some_iff.1 hchange with ⟨rfl, -⟩ | ⟨-, rfl, -⟩ <;> rfl
    have hkey' : change'.key = key' := by
      rcases keptChange_eq_some_iff.1 hchange' with ⟨rfl, -⟩ | ⟨-, rfl, -⟩ <;> rfl
    rw [hkey, hkey']
    exact hlt
  · exact List.pairwise_map.2 ((List.pairwise_map.2
      (DependencyGraph.fingerprintsByKey old).ascending).filter _)
  -- What is told of keys that are there now.
  · rintro ⟨key, kind⟩
    rw [List.mem_filterMap]
    constructor
    · rintro ⟨⟨key', f⟩, hmem, hchange⟩
      have hf := hgetNew.1 (OrderedMap.get?_of_mem hmem)
      rcases keptChange_eq_some_iff.1 hchange with ⟨he, hout⟩ | ⟨previous, he, hin, hne⟩
      · obtain ⟨rfl, rfl⟩ := KeyChange.mk.inj he
        obtain ⟨d, hd, hkey, -⟩ := hf
        exact ⟨nofun, List.mem_map.2 ⟨d, hd, hkey⟩, hnone.1 hout⟩
      · obtain ⟨rfl, rfl⟩ := KeyChange.mk.inj he
        obtain ⟨d, hd, hkey, rfl⟩ := hgetOld.1 hin
        obtain ⟨d', hd', hkey', rfl⟩ := hf
        exact ⟨nofun, d, hd, d', hd', hkey, hkey', hne⟩
    · rintro ⟨hkind, harises⟩
      cases kind with
      | added =>
        obtain ⟨hin, hout⟩ := harises
        obtain ⟨d, hd, rfl⟩ := List.mem_map.1 hin
        refine ⟨(d.key, d.fingerprint), OrderedMap.mem_entries_iff.2
          (hgetNew.2 ⟨d, hd, rfl, rfl⟩), keptChange_eq_some_iff.2 (.inl ⟨rfl, hnone.2 hout⟩)⟩
      | modified =>
        obtain ⟨d, hd, d', hd', rfl, hkey, hne⟩ := harises
        refine ⟨(d.key, d'.fingerprint), OrderedMap.mem_entries_iff.2
          (hgetNew.2 ⟨d', hd', hkey, rfl⟩), keptChange_eq_some_iff.2 (.inr
            ⟨d.fingerprint, rfl, hgetOld.2 ⟨d, hd, rfl, rfl⟩, hne⟩)⟩
      | removed => exact absurd rfl hkind
  -- What is told of keys that are gone.
  · rintro ⟨key, kind⟩
    rw [List.mem_map]
    constructor
    · rintro ⟨key', hmem, hchange⟩
      obtain ⟨rfl, rfl⟩ : key' = key ∧ .removed = kind := by simpa using hchange
      obtain ⟨hkey, hout⟩ := List.mem_filter.1 hmem
      refine ⟨rfl, contains_fingerprintsByKey.1 (OrderedMap.contains_iff_mem_keys.2 hkey), ?_⟩
      rw [← contains_fingerprintsByKey, Bool.not_eq_true]
      exact Bool.not_eq_true' _ ▸ hout
    · rintro ⟨hkind, harises⟩
      obtain rfl : kind = .removed := hkind
      obtain ⟨hkey, hout⟩ := harises
      refine ⟨key, List.mem_filter.2 ⟨OrderedMap.contains_iff_mem_keys.1
        (contains_fingerprintsByKey.2 hkey), ?_⟩, rfl⟩
      rw [← contains_fingerprintsByKey, Bool.not_eq_true] at hout
      rw [hout]
      rfl

/-- A list that tells all changes has those that arise. -/
theorem TellsChanges.mem_iff {changes : List KeyChange} {old new : List Declaration}
    (h : TellsChanges changes old new) {change : KeyChange} :
    change ∈ changes ↔ change.Arises old new := by
  obtain ⟨kept, gone, rfl, -, -, hkept, hgone⟩ := h
  rw [List.mem_append, hkept, hgone, ← or_and_right]
  exact and_iff_right (ne_or_eq _ _)

/-- **A replacement tells the changes that arise** where the old declarations of the file give
way to the new ones. -/
theorem DependencyGraph.mem_changes_replace (g : DependencyGraph) (p : Path)
    (ds : List Declaration) {change : KeyChange} :
    change ∈ (g.replace p ds).2 ↔
      change.Arises (g.declarationsOf p) (DependencyGraph.mergeDeclarations ds) :=
  (tellsChanges_keyChanges (g.uniqueKeys p)
    (DependencyGraph.nodup_mergeDeclarations ds)).mem_iff

/-! ## The table -/

/-- **For each file that declares something, what it declares.** -/
abbrev DeclarationTable := OrderedMap Path (List Declaration)

namespace DeclarationTable

/-- The table after a file declares something else. -/
def declare (t : DeclarationTable) (p : Path) (ds : List Declaration) : DeclarationTable :=
  if ds.isEmpty then t.erase p else t.insert p (lastOfEachKey ds)

def declarationsOf (t : DeclarationTable) (p : Path) : List Declaration := (t.get? p).getD []

/-- How many declarations there are. -/
def declarationCount (t : DeclarationTable) : Nat := t.values.flatten.length

/-- The files whose declarations pass a test, in ascending order. -/
def filesWhere (t : DeclarationTable) (test : List Declaration → Bool) : List Path :=
  (t.filter fun _ ds => test ds).keys

/-- The files that declare a key. -/
def providersOf (t : DeclarationTable) (key : String) : List Path :=
  t.filesWhere (·.any (·.key == key))

/-- Whether some file declares a key. -/
def isDeclared (t : DeclarationTable) (key : String) : Bool :=
  t.values.any (·.any (·.key == key))

/-- Whether the change of a key reaches a declaration. -/
def reaches (t : DeclarationTable) (change : KeyChange) (d : Declaration) : Bool :=
  d.provides.contains change.key
    || change.kind == .removed && !t.isDeclared change.key && d.uses.contains change.key

/-- The files that a change of some keys reaches, one file left out. -/
def filesAffectedBy (t : DeclarationTable) (changes : List KeyChange) (exclude : Path) :
    List Path :=
  (t.filesWhere (·.any fun d => changes.any fun change => t.reaches change d)).filter
    (compare exclude · != .eq)

end DeclarationTable

/-! ## Calls -/

/-- A call that changes a graph. -/
inductive GraphCall where
  | replace (path : Path) (declarations : List Declaration)
  | removeFile (path : Path)

namespace GraphCall

/-- What a call does to a graph. -/
def onGraph (g : DependencyGraph) : GraphCall → DependencyGraph
  | replace p ds => (g.replace p ds).1
  | removeFile p => (g.removeFile p).1

/-- What a call does to a table. -/
def onTable (t : DeclarationTable) : GraphCall → DeclarationTable
  | replace p ds => t.declare p ds
  | removeFile p => t.erase p

end GraphCall

/-- The graph that calls lead to, from the empty graph on. -/
def graphAfter (calls : List GraphCall) : DependencyGraph :=
  calls.foldl GraphCall.onGraph .empty

/-- The table that calls lead to, from the empty table on. -/
def tableAfter (calls : List GraphCall) : DeclarationTable := calls.foldl GraphCall.onTable ∅

namespace DependencyGraph

/-- **Whether a graph answers every question as a table does.** -/
structure AnswersAs (g : DependencyGraph) (t : DeclarationTable) : Prop where
  fileList : (g.fileList == t.keys) = true
  containsFile : ∀ p, g.containsFile p = t.contains p
  declarationCount : g.declarationCount = t.declarationCount
  declarationsOf : ∀ p, g.declarationsOf p = t.declarationsOf p
  providersOf : ∀ key, ((g.providersOf key).toList == t.providersOf key) = true
  filesAffectedBy : ∀ changes exclude,
    ((g.filesAffectedBy changes exclude).toList == t.filesAffectedBy changes exclude) = true

/-! ### The invariant -/

/-- **Whether a table finds under each path what a graph keeps for it.** -/
def KeptIn (g : DependencyGraph) (t : DeclarationTable) : Prop :=
  ∀ p, t.get? p = g.files.get? p

variable {g : DependencyGraph} {t : DeclarationTable}

/-- What is kept for a file after a replacement. -/
theorem get?_files_replace (g : DependencyGraph) (p q : Path) (ds : List Declaration) :
    (g.replace p ds).1.files.get? q
      = if compare p q = .eq then (if ds.isEmpty then none else some (lastOfEachKey ds))
        else g.files.get? q := by
  rw [(g.replace p ds).1.consistent.get?_files, g.consistent.get?_files, containsFile_replace,
    declarationsOf_replace, mergeDeclarations_eq, isEmpty_lastOfEachKey]
  by_cases hpq : compare p q = .eq
  · rw [if_pos hpq, if_pos hpq, if_pos hpq]
    cases ds <;> rfl
  · rw [if_neg hpq, if_neg hpq, if_neg hpq]

theorem keptIn_empty : empty.KeptIn ∅ := fun _ => rfl

/-- **A replacement keeps a table in step with a graph.** -/
theorem KeptIn.declare (h : g.KeptIn t) (p : Path) (ds : List Declaration) :
    (g.replace p ds).1.KeptIn (t.declare p ds) := by
  intro q
  rw [get?_files_replace, ← h q]
  unfold DeclarationTable.declare
  cases ds with
  | nil => exact OrderedMap.get?_erase t p q
  | cons d rest => exact OrderedMap.get?_insert t p q _

/-- **Every call keeps a table in step with a graph.** -/
theorem KeptIn.onTable (h : g.KeptIn t) (call : GraphCall) :
    (call.onGraph g).KeptIn (call.onTable t) := by
  cases call with
  | replace p ds => exact h.declare p ds
  | removeFile p => exact h.declare p []

theorem keptIn_after (calls : List GraphCall) : (graphAfter calls).KeptIn (tableAfter calls) := by
  have hrun (g : DependencyGraph) (t : DeclarationTable) (h : g.KeptIn t) :
      (calls.foldl GraphCall.onGraph g).KeptIn (calls.foldl GraphCall.onTable t) := by
    induction calls generalizing g t with
    | nil => exact h
    | cons call rest ih => exact ih _ _ (h.onTable call)
  exact hrun _ _ keptIn_empty

/-! ### What follows from it -/

theorem KeptIn.declarationsOf (h : g.KeptIn t) (p : Path) :
    g.declarationsOf p = t.declarationsOf p := by
  unfold DeclarationTable.declarationsOf
  rw [h p, g.consistent.getD_files]

theorem KeptIn.containsFile (h : g.KeptIn t) (p : Path) : g.containsFile p = t.contains p := by
  rw [← OrderedMap.isSome_get?, h p, g.consistent.get?_files]
  cases g.containsFile p <;> rfl

/-- The files of a table that pass a test which nothing passes that declares nothing. -/
theorem KeptIn.exists_mem_filesWhere (h : g.KeptIn t) {test : List Declaration → Bool}
    (htest : test [] = false) {p : Path} :
    (∃ q ∈ t.filesWhere test, compare q p = .eq) ↔ test (g.declarationsOf p) = true := by
  unfold DeclarationTable.filesWhere
  rw [← OrderedMap.contains_iff_keys, ← OrderedMap.isSome_get?,
    OrderedMap.get?_filter t (fun _ ds => test ds) p fun _ _ _ => rfl, Option.isSome_filter,
    h.declarationsOf]
  unfold DeclarationTable.declarationsOf
  cases t.get? p with
  | none => exact iff_of_false Bool.false_ne_true (by rw [Option.getD_none, htest]; decide)
  | some ds => rfl

theorem pairwise_filesWhere (t : DeclarationTable) (test : List Declaration → Bool) :
    (t.filesWhere test).Pairwise fun p q => compare p q = .lt :=
  List.pairwise_map.2 (t.filter fun _ ds => test ds).ascending

theorem KeptIn.isDeclared_iff (h : g.KeptIn t) {key : String} :
    t.isDeclared key = true ↔ g.Provides key := by
  unfold DeclarationTable.isDeclared
  rw [List.any_eq_true]
  constructor
  · rintro ⟨ds, hds, hkey⟩
    obtain ⟨p, hp⟩ := OrderedMap.mem_values_iff.1 hds
    obtain ⟨d, hd, hkey⟩ := List.any_eq_true.1 hkey
    refine ⟨p, d.fingerprint, d, ?_, beq_iff_eq.1 hkey, rfl⟩
    rw [h.declarationsOf]
    unfold DeclarationTable.declarationsOf
    rwa [hp]
  · rintro ⟨p, f, d, hd, hkey, -⟩
    rw [h.declarationsOf] at hd
    unfold DeclarationTable.declarationsOf at hd
    cases hp : t.get? p with
    | none =>
      rw [hp] at hd
      cases hd
    | some ds =>
      rw [hp] at hd
      exact ⟨ds, OrderedMap.mem_values_iff.2 ⟨p, hp⟩,
        List.any_eq_true.2 ⟨d, hd, beq_iff_eq.2 hkey⟩⟩

theorem KeptIn.reaches_iff (h : g.KeptIn t) {change : KeyChange} {d : Declaration} :
    t.reaches change d = true ↔ g.Reaches change d := by
  unfold DeclarationTable.reaches DeclarationStore.Reaches
  rw [← h.isDeclared_iff, Bool.or_eq_true, Bool.and_eq_true, Bool.and_eq_true, and_assoc,
    List.contains_iff_mem, List.contains_iff_mem, beq_iff_eq, Bool.not_eq_true', Bool.not_eq_true]

/-- The files of a table are those of the graph, place by place. -/
theorem KeptIn.forall₂_fileList (h : g.KeptIn t) :
    List.Forall₂ (fun p q => compare p q = .eq) g.fileList t.keys := by
  refine OrderedMap.forall₂_of_ascending g.pairwise_fileList
    (List.pairwise_map.2 t.ascending) fun p => ?_
  rw [g.consistent.exists_mem_fileList, ← OrderedMap.contains_iff_keys, h.containsFile]

theorem KeptIn.declarationCount (h : g.KeptIn t) :
    g.declarationCount = t.declarationCount := by
  have hvalues : t.values = t.keys.map t.declarationsOf := by
    unfold OrderedMap.values OrderedMap.keys
    rw [List.map_map]
    refine List.map_congr_left fun e he => ?_
    show e.2 = (t.get? e.1).getD []
    rw [OrderedMap.get?_of_mem he]
    rfl
  have hsame : g.fileList.map g.declarationsOf = t.keys.map t.declarationsOf := by
    have hfiles := h.forall₂_fileList
    generalize g.fileList = l at hfiles
    generalize t.keys = r at hfiles
    induction hfiles with
    | nil => rfl
    | cons hpq _ ih =>
      rw [List.map_cons, List.map_cons, ih, g.declarationsOf_congr hpq, h.declarationsOf]
  rw [g.consistent.declarationCount_eq]
  unfold DeclarationTable.declarationCount
  rw [hvalues, ← hsame, List.flatMap_def]

theorem KeptIn.providersOf (h : g.KeptIn t) (key : String) :
    ((g.providersOf key).toList == t.providersOf key) = true := by
  refine Path.beq_of_ascending (g.providersOf key).ascending_toList
    (pairwise_filesWhere t _) fun p => ?_
  have hset : (∃ q ∈ (g.providersOf key).toList, compare q p = .eq) ↔ _ :=
    OrderedMap.contains_iff_keys.symm.trans g.consistent.contains_providersOf
  rw [hset, DeclarationTable.providersOf, h.exists_mem_filesWhere rfl, List.any_eq_true]
  simp only [beq_iff_eq]

theorem KeptIn.filesAffectedBy (h : g.KeptIn t) (changes : List KeyChange) (exclude : Path) :
    ((g.filesAffectedBy changes exclude).toList == t.filesAffectedBy changes exclude) = true := by
  refine Path.beq_of_ascending (g.filesAffectedBy changes exclude).ascending_toList
    ((pairwise_filesWhere t _).filter _) fun p => ?_
  have hset : (∃ q ∈ (g.filesAffectedBy changes exclude).toList, compare q p = .eq) ↔ _ :=
    OrderedMap.contains_iff_keys.symm.trans g.consistent.contains_filesAffectedBy
  have htable : (∃ q ∈ t.filesAffectedBy changes exclude, compare q p = .eq) ↔
      compare exclude p ≠ .eq ∧ ∃ q ∈ t.filesWhere
        (·.any fun d => changes.any fun change => t.reaches change d), compare q p = .eq := by
    unfold DeclarationTable.filesAffectedBy
    constructor
    · rintro ⟨q, hq, hqp⟩
      obtain ⟨hq, hexclude⟩ := List.mem_filter.1 hq
      rw [bne_iff_ne, Std.TransCmp.congr_right hqp] at hexclude
      exact ⟨hexclude, q, hq, hqp⟩
    · rintro ⟨hexclude, q, hq, hqp⟩
      rw [← Std.TransCmp.congr_right hqp, ← bne_iff_ne] at hexclude
      exact ⟨q, List.mem_filter.2 ⟨hq, hexclude⟩, hqp⟩
  rw [hset, htable, h.exists_mem_filesWhere rfl]
  refine and_congr_right fun _ => ?_
  simp only [List.any_eq_true, h.reaches_iff]

/-- **A graph answers as a table that finds what the graph keeps.** -/
theorem KeptIn.answersAs (h : g.KeptIn t) : g.AnswersAs t where
  fileList := Path.beq_of_forall₂ h.forall₂_fileList
  containsFile := h.containsFile
  declarationCount := h.declarationCount
  declarationsOf := h.declarationsOf
  providersOf := h.providersOf
  filesAffectedBy := h.filesAffectedBy

/-- **A graph answers as the table of what it keeps.** -/
theorem answersAs_files (g : DependencyGraph) : g.AnswersAs g.files :=
  KeptIn.answersAs fun _ => rfl

/-- **After any calls a graph answers as the plain table** that the same calls lead to, and the
next replacement tells the changes between what the table has for the file and the last
declarations of the keys. -/
theorem answersAs_after (calls : List GraphCall) :
    (graphAfter calls).AnswersAs (tableAfter calls) ∧
      ∀ p ds, TellsChanges ((graphAfter calls).replace p ds).2
        ((tableAfter calls).declarationsOf p) (lastOfEachKey ds) := by
  have hkept := keptIn_after calls
  refine ⟨hkept.answersAs, fun p ds => ?_⟩
  rw [← hkept.declarationsOf, ← mergeDeclarations_eq]
  exact tellsChanges_keyChanges ((graphAfter calls).uniqueKeys p) (nodup_mergeDeclarations ds)

end DependencyGraph

end IncrementalBuild
