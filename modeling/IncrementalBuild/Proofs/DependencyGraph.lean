import IncrementalBuild.Proofs.DeclarationStore.Queries

/-!
# Replacing the declarations of a file

The declarations of a file are replaced together with a list of the keys that this
changes, and a file is reached by the changes if one of its declarations depends on a
changed key. A file that is not reached sees no difference: the keys that its
interfaces are built on are declared as before, and the keys that it uses are still
there. `AgreesFor` says this of two graphs, and it can be chained over any number of
replacements.
-/

namespace IncrementalBuild

namespace DependencyGraph

/-- Whether no file declares a key twice. -/
def UniqueKeys (g : DependencyGraph) : Prop := ∀ p, ((g.declarationsOf p).map (·.key)).Nodup

/-- **Whether a file sees no difference between two graphs**: it declares the same, the
keys that its interfaces are built on are declared by the same other files with the same
fingerprints, and the keys that it uses are still declared. -/
structure AgreesFor (g g' : DependencyGraph) (p : Path) : Prop where
  declarations : g'.declarationsOf p = g.declarationsOf p
  provides : ∀ d ∈ g.declarationsOf p, ∀ key ∈ d.provides, ∀ q, compare q p ≠ .eq →
    ∀ f, g'.Declares q key f ↔ g.Declares q key f
  uses : ∀ d ∈ g.declarationsOf p, ∀ key ∈ d.uses, g.Provides key → g'.Provides key

theorem AgreesFor.refl (g : DependencyGraph) (p : Path) : g.AgreesFor g p :=
  ⟨rfl, fun _ _ _ _ _ _ _ => .rfl, fun _ _ _ _ h => h⟩

theorem AgreesFor.trans {g₁ g₂ g₃ : DependencyGraph} {p : Path} (h : g₁.AgreesFor g₂ p)
    (h' : g₂.AgreesFor g₃ p) : g₁.AgreesFor g₃ p where
  declarations := h'.declarations.trans h.declarations
  provides d hd key hkey q hq f :=
    (h'.provides d (h.declarations ▸ hd) key hkey q hq f).trans (h.provides d hd key hkey q hq f)
  uses d hd key hkey hp :=
    h'.uses d (h.declarations ▸ hd) key hkey (h.uses d hd key hkey hp)

/-! ## What a replacement leaves -/

/-- **A graph is consistent.** -/
theorem consistent (g : DependencyGraph) : g.toDeclarationStore.Consistent := g.reached.consistent

/-- **A replacement changes the declarations of one file.** -/
theorem declarationsOf_replace (g : DependencyGraph) (p q : Path) (ds : List Declaration) :
    (g.replace p ds).1.declarationsOf q
      = if compare p q = .eq then mergeDeclarations ds else g.declarationsOf q :=
  (g.consistent.replace p ds).2 q

/-- A file is there after a replacement if it has declarations then. -/
theorem containsFile_replace (g : DependencyGraph) (p q : Path) (ds : List Declaration) :
    (g.replace p ds).1.containsFile q
      = if compare p q = .eq then !(mergeDeclarations ds).isEmpty else g.containsFile q := by
  rw [(g.replace p ds).1.consistent.containsFile_eq, declarationsOf_replace,
    g.consistent.containsFile_eq]
  split <;> rfl

/-- Merging makes up no declarations. -/
theorem mem_of_mem_mergeDeclarations {ds : List Declaration} {d : Declaration}
    (h : d ∈ mergeDeclarations ds) : d ∈ ds := by
  have key (l acc : List Declaration) (hd : d ∈ l.foldl putDeclaration acc) : d ∈ acc ∨ d ∈ l := by
    induction l generalizing acc with
    | nil => exact .inl hd
    | cons e rest ih =>
      rcases ih _ hd with hd | hd
      · unfold putDeclaration at hd
        split at hd
        · obtain ⟨old, hold, rfl⟩ := List.mem_map.1 hd
          split
          · exact .inr List.mem_cons_self
          · exact .inl hold
        · rcases List.mem_append.1 hd with hd | hd
          · exact .inl hd
          · obtain rfl := List.mem_singleton.1 hd
            exact .inr List.mem_cons_self
      · exact .inr (List.mem_cons_of_mem e hd)
  exact (key ds [] h).resolve_left List.not_mem_nil

/-- Declarations with different keys are merged already. -/
theorem mergeDeclarations_eq_self {ds : List Declaration} (h : (ds.map (·.key)).Nodup) :
    mergeDeclarations ds = ds := by
  have key (l acc : List Declaration) (hl : ((acc ++ l).map (·.key)).Nodup) :
      l.foldl putDeclaration acc = acc ++ l := by
    induction l generalizing acc with
    | nil => exact (List.append_nil acc).symm
    | cons d rest ih =>
      have hnew : acc.any (·.key == d.key) = false := by
        rw [List.any_eq_false]
        intro e he hk
        rw [List.map_append, List.nodup_append] at hl
        exact hl.2.2 e.key (List.mem_map.2 ⟨e, he, rfl⟩) d.key
          (List.mem_map.2 ⟨d, List.mem_cons_self, rfl⟩) (beq_iff_eq.1 hk)
      have hput : putDeclaration acc d = acc ++ [d] := by
        unfold putDeclaration
        rw [hnew]
        rfl
      rw [List.foldl_cons, hput, ih _ (by rw [List.append_assoc]; exact hl), List.append_assoc]
      rfl
  exact key ds [] h

/-- Putting a declaration keeps the keys different. -/
theorem nodup_putDeclaration {ds : List Declaration} (h : (ds.map (·.key)).Nodup)
    (d : Declaration) : ((putDeclaration ds d).map (·.key)).Nodup := by
  unfold putDeclaration
  split
  · have hsame : (ds.map fun old => if old.key == d.key then d else old).map (·.key)
        = ds.map (·.key) := by
      rw [List.map_map]
      refine List.map_congr_left fun old _ => ?_
      by_cases hk : old.key = d.key
      · simp [hk]
      · simp [hk]
    rw [hsame]
    exact h
  · rename_i hnone
    rw [List.map_append, List.nodup_append]
    refine ⟨h, List.nodup_singleton _, fun a ha b hb hab => hnone ?_⟩
    obtain ⟨old, hold, rfl⟩ := List.mem_map.1 ha
    obtain rfl : b = d.key := by simpa using hb
    exact List.any_eq_true.2 ⟨old, hold, beq_iff_eq.2 hab⟩

/-- **Merged declarations have different keys.** -/
theorem nodup_mergeDeclarations (ds : List Declaration) :
    ((mergeDeclarations ds).map (·.key)).Nodup := by
  have key (l : List Declaration) (acc : List Declaration) (hacc : (acc.map (·.key)).Nodup) :
      ((l.foldl putDeclaration acc).map (·.key)).Nodup := by
    induction l generalizing acc with
    | nil => exact hacc
    | cons d rest ih => exact ih _ (nodup_putDeclaration hacc d)
  exact key ds [] List.nodup_nil

/-- **No file ever declares a key twice.** -/
theorem uniqueKeys (g : DependencyGraph) : g.UniqueKeys := by
  have hreached {s : DeclarationStore} (h : s.Reached) (p : Path) :
      ((s.declarationsOf p).map (·.key)).Nodup := by
    induction h with
    | empty => exact List.nodup_nil
    | replace h q ds ih =>
      rw [(h.consistent.replace q ds).2]
      split
      · exact nodup_mergeDeclarations ds
      · exact ih
  exact fun p => hreached g.reached p

/-- **Whether every declaration has a key.** -/
def Keyed (g : DependencyGraph) : Prop := ∀ p, ∀ d ∈ g.declarationsOf p, d.key ≠ ""

/-- Whether every declaration has a key can be told file by file. -/
theorem keyed_iff {g : DependencyGraph} :
    g.Keyed ↔ ∀ e ∈ g.files.entries, ∀ d ∈ e.2, d.key ≠ "" := by
  constructor
  · intro h e he d hd
    exact h e.1 d ((DeclarationStore.mem_entries_files.1 he).2 ▸ hd)
  · intro h p d hd
    obtain ⟨e, he, hd⟩ := g.consistent.exists_mem_entries_files hd
    exact h e he d hd

theorem keyed_empty : (empty : DependencyGraph).Keyed := fun _ _ h => absurd h List.not_mem_nil

theorem Keyed.replace {g : DependencyGraph} (h : g.Keyed) (p : Path) {ds : List Declaration}
    (hds : ∀ d ∈ ds, d.key ≠ "") : (g.replace p ds).1.Keyed := by
  intro q d hd
  rw [declarationsOf_replace] at hd
  split at hd
  · exact hds d (mem_of_mem_mergeDeclarations hd)
  · exact h q d hd

/-! ## Which keys change -/

/-- Where keys differ, looking a key up finds its declaration. -/
theorem get?_fingerprintsByKey {ds : List Declaration} (h : (ds.map (·.key)).Nodup)
    {key : String} {f : Fingerprint} :
    (fingerprintsByKey ds).get? key = some f ↔ ∃ d ∈ ds, d.key = key ∧ d.fingerprint = f := by
  -- Different keys stand for different declarations, so a key has one fingerprint in the list.
  have hunique (k : String) (f f' : Fingerprint)
      (hf : (k, f) ∈ ds.map fun d => (d.key, d.fingerprint))
      (hf' : (k, f') ∈ ds.map fun d => (d.key, d.fingerprint)) : f = f' := by
    obtain ⟨d, hd, he⟩ := List.mem_map.1 hf
    obtain ⟨d', hd', he'⟩ := List.mem_map.1 hf'
    obtain ⟨rfl, rfl⟩ := Prod.mk.inj he
    obtain ⟨hkey, rfl⟩ := Prod.mk.inj he'
    rw [List.inj_on_of_nodup_map h hd' hd hkey]
  unfold fingerprintsByKey
  rw [OrderedMap.get?_ofList_eq_some_iff hunique, List.mem_map]
  simp only [Prod.mk.injEq]

/-- **A key that is not among the changes stands for the same before and after.** -/
theorem get?_eq_of_not_mem_keyChanges {old new : OrderedMap String Fingerprint} {key : String}
    (h : ∀ c ∈ keyChanges old new, c.key ≠ key) : old.get? key = new.get? key := by
  cases hnew : new.get? key with
  | some f =>
    obtain ⟨k, hmem, hk⟩ := OrderedMap.mem_entries_of_get? hnew
    obtain rfl : k = key := Std.LawfulEqOrd.eq_of_compare hk
    cases hold : old.get? k with
    | none =>
      refine (h ⟨k, .added⟩ (List.mem_append_left _ (List.mem_filterMap.2 ⟨(k, f), hmem, ?_⟩))
        rfl).elim
      simp only [hold]
    | some previous =>
      by_cases heq : previous = f
      · rw [heq]
      · refine (h ⟨k, .modified⟩ (List.mem_append_left _
          (List.mem_filterMap.2 ⟨(k, f), hmem, ?_⟩)) rfl).elim
        simp only [hold]
        exact if_neg heq
  | none =>
    cases hold : old.get? key with
    | none => rfl
    | some f =>
      obtain ⟨k, hmem, hk⟩ := OrderedMap.mem_entries_of_get? hold
      obtain rfl : k = key := Std.LawfulEqOrd.eq_of_compare hk
      have hout : new.contains k = false := OrderedMap.get?_eq_none_iff.1 hnew
      refine (h ⟨k, .removed⟩ (List.mem_append_right _ (List.mem_map.2 ⟨k, ?_, rfl⟩)) rfl).elim
      exact List.mem_filter.2 ⟨List.mem_map.2 ⟨(k, f), hmem, rfl⟩, by rw [hout]; rfl⟩

/-- A key that is gone is among the changes as removed. -/
theorem removed_mem_keyChanges {old new : OrderedMap String Fingerprint} {key : String}
    {f : Fingerprint} (hold : old.get? key = some f) (hnew : new.get? key = none) :
    ⟨key, .removed⟩ ∈ keyChanges old new := by
  obtain ⟨k, hmem, hk⟩ := OrderedMap.mem_entries_of_get? hold
  obtain rfl : k = key := Std.LawfulEqOrd.eq_of_compare hk
  refine List.mem_append_right _ (List.mem_map.2 ⟨k, List.mem_filter.2 ⟨?_, ?_⟩, rfl⟩)
  · exact List.mem_map.2 ⟨(k, f), hmem, rfl⟩
  · rw [OrderedMap.get?_eq_none_iff.1 hnew]
    rfl

/-! ## Whom a change reaches -/

/-- **A file that a replacement does not reach sees no difference.** -/
theorem agreesFor_replace {g : DependencyGraph} {p q : Path}
    (ds : List Declaration) (hpq : compare q p ≠ .eq)
    (h : ((g.replace q ds).1.filesAffectedBy (g.replace q ds).2 q).contains p = false) :
    g.AgreesFor (g.replace q ds).1 p := by
  have hsame : (g.replace q ds).1.declarationsOf p = g.declarationsOf p := by
    rw [declarationsOf_replace, if_neg hpq]
  have hself : (g.replace q ds).1.declarationsOf q = mergeDeclarations ds := by
    rw [declarationsOf_replace, if_pos Std.ReflOrd.compare_self]
  -- No declaration of the file is reached by a change.
  have hout : ∀ d ∈ g.declarationsOf p, ∀ change ∈ (g.replace q ds).2,
      ¬ (g.replace q ds).1.Reaches change d := by
    intro d hd change hchange hr
    rw [← Bool.not_eq_true] at h
    exact h ((g.replace q ds).1.consistent.contains_filesAffectedBy.2
      ⟨hpq, d, hsame ▸ hd, change, hchange, hr⟩)
  have hold {key : String} {f : Fingerprint} :=
    @get?_fingerprintsByKey (g.declarationsOf q) (g.uniqueKeys q) key f
  have hnew {key : String} {f : Fingerprint} :=
    @get?_fingerprintsByKey (mergeDeclarations ds) (nodup_mergeDeclarations ds) key f
  refine ⟨hsame, fun d hd key hkey r hr f => ?_, fun d hd key hkey hprovided => ?_⟩
  · by_cases hqr : compare q r = .eq
    · -- The replaced file declares the key as before, as the key did not change.
      have hunchanged := @get?_eq_of_not_mem_keyChanges (fingerprintsByKey (g.declarationsOf q))
        (fingerprintsByKey (mergeDeclarations ds)) key fun change hchange hk => by
          exact hout d hd change hchange (.inl (hk ▸ hkey))
      unfold DeclarationStore.Declares
      rw [← DeclarationStore.declarationsOf_congr _ hqr, ← g.declarationsOf_congr hqr, hself,
        ← hnew, ← hold, hunchanged]
    · unfold DeclarationStore.Declares
      rw [declarationsOf_replace, if_neg hqr]
  -- A key that was declared and is not any more was lost with the replaced file, and its loss
  -- would reach the file.
  · by_contra hgone
    obtain ⟨r, f, hdeclares⟩ := hprovided
    have hqr : compare q r = .eq := by
      by_contra hne
      refine hgone ⟨r, f, ?_⟩
      unfold DeclarationStore.Declares
      rw [declarationsOf_replace, if_neg hne]
      exact hdeclares
    have hremoved : ⟨key, .removed⟩ ∈ (g.replace q ds).2 := by
      refine removed_mem_keyChanges (f := f) (hold.2 ?_) ?_
      · rw [g.declarationsOf_congr hqr]
        exact hdeclares
      · cases hget : (fingerprintsByKey (mergeDeclarations ds)).get? key with
        | none => rfl
        | some f' =>
          refine (hgone ⟨q, f', ?_⟩).elim
          unfold DeclarationStore.Declares
          rw [hself]
          exact hnew.1 hget
    exact hout d hd _ hremoved (.inr ⟨rfl, hgone, hkey⟩)

end DependencyGraph

end IncrementalBuild
