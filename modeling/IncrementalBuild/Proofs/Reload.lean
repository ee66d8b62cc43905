import IncrementalBuild.Proofs.StateFile
import IncrementalBuild.Proofs.Within

/-!
# A saved state is accepted again

A state is saved with the declarations of every file, and the next build puts them into an
empty graph one file after the other. If every declaration has a key, and no file declares
a key twice, nothing is refused, and every file has the declarations that it had.
-/

namespace IncrementalBuild

/-! ## The graph that is put together -/

namespace SavedState

/-- Where no key repeats, only an empty one is refused. -/
theorem checkKeys_eq {p : Path} {before : List String} {ds : List Declaration}
    (hn : (ds.map (·.key)).Nodup) (hbefore : ∀ d ∈ ds, d.key ∉ before) :
    checkKeys p before ds
      = if ∀ d ∈ ds, d.key ≠ "" then .ok () else .error (.emptyKey p) := by
  induction ds generalizing before with
  | nil => exact (if_pos fun d hd => absurd hd List.not_mem_nil).symm
  | cons d rest ih =>
    obtain ⟨hd, hn⟩ := List.nodup_cons.1 hn
    have hlater : ∀ e ∈ rest, e.key ∉ d.key :: before := by
      intro e he hmem
      rcases List.mem_cons.1 hmem with h | h
      · exact hd (List.mem_map.2 ⟨e, he, h⟩)
      · exact hbefore e (List.mem_cons_of_mem d he) h
    unfold checkKeys
    by_cases hkey : d.key = ""
    · rw [if_pos hkey, if_neg fun h => h d List.mem_cons_self hkey]
    · rw [if_neg hkey, if_neg (hbefore d List.mem_cons_self), ih hn hlater]
      simp only [List.forall_mem_cons, hkey, ne_eq, not_false_eq_true, true_and]

/-- **Putting in declarations file by file** gives every file its own. -/
theorem exists_graphOf {entries : List (Path × List Declaration)}
    (hd : entries.Pairwise fun e e' => compare e.1 e'.1 ≠ .eq)
    (hkeys : ∀ e ∈ entries, ∀ d ∈ e.2, d.key ≠ "")
    (hn : ∀ e ∈ entries, (e.2.map (·.key)).Nodup) (g : DependencyGraph) :
    ∃ g', graphOf entries g = .ok g' ∧
      (∀ q, g'.declarationsOf q
        = ((entries.find? (fun e => compare e.1 q == .eq)).map (·.2)).getD
            (g.declarationsOf q)) ∧
      ∀ q, g'.containsFile q = true →
        g.containsFile q = true ∨ ∃ e ∈ entries, compare e.1 q = .eq := by
  induction entries generalizing g with
  | nil => exact ⟨g, rfl, fun _ => rfl, fun _ h => .inl h⟩
  | cons e rest ih =>
    obtain ⟨p, ds⟩ := e
    obtain ⟨hp, hd⟩ := List.pairwise_cons.1 hd
    have hds := hn _ List.mem_cons_self
    obtain ⟨g', hg', hdeclared, hfiles⟩ := ih hd
      (fun e he => hkeys e (List.mem_cons_of_mem _ he))
      (fun e he => hn e (List.mem_cons_of_mem _ he)) (g.replace p ds).1
    refine ⟨g', ?_, fun q => ?_, fun q hq => ?_⟩
    · unfold graphOf
      rw [checkKeys_eq hds fun d _ => List.not_mem_nil, if_pos (hkeys _ List.mem_cons_self)]
      exact hg'
    · rw [hdeclared q, DependencyGraph.declarationsOf_replace,
        DependencyGraph.mergeDeclarations_eq_self hds]
      by_cases hpq : compare p q = .eq
      · have hnone : rest.find? (fun e => compare e.1 q == .eq) = none := by
          refine List.find?_eq_none.2 fun e he heq => hp e he ?_
          exact (Std.TransCmp.congr_right (beq_iff_eq.1 heq)).trans hpq
        simp [hpq, hnone]
      · simp [hpq]
    · rcases hfiles q hq with h | ⟨e, he, heq⟩
      · rw [DependencyGraph.containsFile_replace] at h
        split at h
        · rename_i hpq
          exact .inr ⟨_, List.mem_cons_self, hpq⟩
        · exact .inl h
      · exact .inr ⟨e, List.mem_cons_of_mem _ he, heq⟩

/-- **The declarations of a state are accepted again**, and every file has its own. -/
theorem exists_graphOf_ofState {s : BuildState} (hkeys : s.graph.Keyed) :
    ∃ g, graphOf (ofState s).declarations.entries .empty = .ok g ∧
      (∀ q, g.declarationsOf q = s.graph.declarationsOf q) ∧
      ∀ q, g.containsFile q = true → s.graph.containsFile q = true := by
  have hentry {e : Path × List Declaration} (he : e ∈ (ofState s).declarations.entries) :
      e.1 ∈ s.graph.fileList ∧ e.2 = s.graph.declarationsOf e.1 :=
    DeclarationStore.mem_entries_files.1 he
  have hdistinct : (ofState s).declarations.entries.Pairwise
      fun e e' => compare e.1 e'.1 ≠ .eq :=
    (ofState s).declarations.ascending.imp fun h => by
      rw [h]
      decide
  obtain ⟨g, hg, hdeclared, hfiles⟩ := exists_graphOf hdistinct
    (fun e he => (hentry he).2 ▸ hkeys e.1)
    (fun e he => (hentry he).2 ▸ s.graph.uniqueKeys e.1) .empty
  refine ⟨g, hg, fun q => ?_, fun q hq => ?_⟩
  · rw [hdeclared q]
    exact s.graph.consistent.getD_files q
  · rcases hfiles q hq with h | ⟨e, he, heq⟩
    · cases h
    · exact s.graph.consistent.exists_mem_fileList.1 ⟨e.1, (hentry he).1, heq⟩

end SavedState

end IncrementalBuild
