import IncrementalBuild.Proofs.DependencyGraph
import IncrementalBuild.Proofs.Digraph.Circles

/-!
# Circles of interfaces

A graph of declarations is asked for a key whose interface is built on itself through others. What
is searched is a relation between keys that is put together slot by slot, and slots are taken and
freed and taken again. None of this shows in the answer. A slot holds something exactly if some
file declares it, so the relation is that of what the files declare, whichever slots they have,
and a key that several files declare is one node with the edges of all of them.

The key that is named has to lie on a circle, and not merely in front of one or behind. It has
declarations, too: a circle comes back to each of its keys, and only a declaration leads there.
-/

namespace IncrementalBuild

/-! ## The relation, put together declaration by declaration -/

namespace Declaration

/-- Adds a key to a relation, with an edge from each other key that it is built on. -/
def relate (r : Digraph String) (d : Declaration) : Digraph String :=
  (d.provides.filter (· ≠ d.key)).foldl (fun r k => r.addEdge k d.key) (r.addNode d.key)

/-- What the bases of one key add to a relation. -/
theorem foldl_addEdge_spec (key : String) (bases : List String) (r : Digraph String)
    (hc : r.Closed) (hn : r.nodes.Nodup) :
    let r' := bases.foldl (fun r k => r.addEdge k key) r
    r'.Closed ∧ r'.nodes.Nodup ∧ ∀ e, e ∈ r'.edges ↔ e ∈ r.edges ∨ e.1 ∈ bases ∧ e.2 = key := by
  induction bases generalizing r with
  | nil => exact ⟨hc, hn, fun e => (or_iff_left fun h => List.not_mem_nil h.1).symm⟩
  | cons base rest ih =>
    obtain ⟨hc', hn', hedge⟩ := ih (r.addEdge base key) (hc.addEdge base key)
      (Digraph.nodup_nodes_addEdge hn base key)
    refine ⟨hc', hn', fun e => (hedge e).trans ?_⟩
    rw [Digraph.mem_edges_addEdge, List.mem_cons, or_and_right, Prod.ext_iff, or_comm (a := _ ∧ _),
      or_assoc]

/-- **What declarations add to a relation**: an edge to the key of each from every other key that
it is built on, and nothing else. -/
theorem foldl_relate_spec (ds : List Declaration) (r : Digraph String) (hc : r.Closed)
    (hn : r.nodes.Nodup) :
    let r' := ds.foldl relate r
    r'.Closed ∧ r'.nodes.Nodup ∧ ∀ e, e ∈ r'.edges ↔
      e ∈ r.edges ∨ ∃ d ∈ ds, d.key = e.2 ∧ e.1 ∈ d.provides ∧ e.1 ≠ e.2 := by
  induction ds generalizing r with
  | nil => exact ⟨hc, hn, fun e => by simp⟩
  | cons d rest ih =>
    obtain ⟨hc₁, hn₁, hedge₁⟩ := foldl_addEdge_spec d.key (d.provides.filter (· ≠ d.key))
      (r.addNode d.key) (hc.addNode d.key) (Digraph.nodup_nodes_addNode hn d.key)
    obtain ⟨hc₂, hn₂, hedge₂⟩ := ih (relate r d) hc₁ hn₁
    refine ⟨hc₂, hn₂, fun e => (hedge₂ e).trans ?_⟩
    have hown : e ∈ (relate r d).edges ↔
        e ∈ r.edges ∨ d.key = e.2 ∧ e.1 ∈ d.provides ∧ e.1 ≠ e.2 := by
      refine (hedge₁ e).trans (or_congr (by rw [Digraph.edges_addNode]) ?_)
      rw [List.mem_filter, decide_eq_true_eq]
      constructor
      · rintro ⟨⟨hbase, hne⟩, hkey⟩
        exact ⟨hkey.symm, hbase, hkey ▸ hne⟩
      · rintro ⟨hkey, hbase, hne⟩
        exact ⟨⟨hbase, hkey ▸ hne⟩, hkey.symm⟩
    rw [hown, List.exists_mem_cons_iff, or_assoc]

end Declaration

namespace DependencyGraph

/-- Whether the interface of a key is built on another key, by what some file declares. -/
def BuiltOn (g : DependencyGraph) (base key : String) : Prop :=
  ∃ p, ∃ d ∈ g.declarationsOf p, d.key = key ∧ base ∈ d.provides ∧ base ≠ key

/-- **Whether no interface is built on itself** through others. -/
def Layered (g : DependencyGraph) : Prop := ∀ key, ¬ Relation.TransGen g.BuiltOn key key

/-- That no file declares anything can be told file by file. -/
theorem declarationsOf_eq_nil_of_all_isEmpty {g : DependencyGraph}
    (h : g.files.entries.all (·.2.isEmpty) = true) (p : Path) : g.declarationsOf p = [] := by
  refine List.eq_nil_iff_forall_not_mem.2 fun d hd => ?_
  obtain ⟨e, he, hd⟩ := g.consistent.exists_mem_entries_files hd
  have hempty : e.2.isEmpty = true := List.all_eq_true.1 h e he
  rw [List.isEmpty_iff.1 hempty] at hd
  cases hd

/-- Where no file declares anything, no interface is built on itself. -/
theorem layered_of_all_isEmpty {g : DependencyGraph}
    (h : g.files.entries.all (·.2.isEmpty) = true) : g.Layered := by
  intro key hkey
  obtain ⟨next, ⟨p, d, hd, -⟩, -⟩ := Relation.TransGen.head'_iff.1 hkey
  rw [declarationsOf_eq_nil_of_all_isEmpty h] at hd
  cases hd

/-! ## What is searched -/

variable {g : DependencyGraph}

/-- **The slots hold what the files declare.** -/
theorem mem_slots_iff {d : Declaration} :
    d ∈ (g.slots.filterMap id).map g.declaration ↔ ∃ p, d ∈ g.declarationsOf p := by
  constructor
  · intro hd
    obtain ⟨c, hc, rfl⟩ := List.mem_map.1 hd
    obtain ⟨content, hmem, hcontent⟩ := List.mem_filterMap.1 hc
    obtain ⟨slot, hslot⟩ := List.getElem?_of_mem hmem
    have hat : g.contentAt? slot = some c := (congrArg Option.join hslot).trans hcontent
    obtain ⟨p, -, hp⟩ := g.consistent.exists_declares hat
    exact ⟨p, hp⟩
  · rintro ⟨p, hd⟩
    obtain ⟨c, hc, rfl⟩ := List.mem_map.1 hd
    obtain ⟨slot, -, hat⟩ := List.mem_filterMap.1 hc
    have hslot : g.slots[slot]? = some (some c) := Option.join_eq_some_iff.1 hat
    exact List.mem_map.2 ⟨c, List.mem_filterMap.2 ⟨_, List.mem_of_getElem? hslot, rfl⟩, rfl⟩

/-- **The relation that is searched is that of what the files declare.** -/
theorem interfaceRelation_spec (g : DependencyGraph) :
    g.interfaceRelation.Closed ∧ g.interfaceRelation.nodes.Nodup ∧
      g.interfaceRelation.Edge = g.BuiltOn := by
  obtain ⟨hclosed, hnodup, hedges⟩ := Declaration.foldl_relate_spec
    ((g.slots.filterMap id).map g.declaration) .empty Digraph.closed_empty List.nodup_nil
  refine ⟨hclosed, hnodup, ?_⟩
  funext base key
  refine propext ((hedges (base, key)).trans ?_)
  rw [or_iff_right (show (base, key) ∉ Digraph.empty.edges from List.not_mem_nil)]
  constructor
  · rintro ⟨d, hd, h⟩
    obtain ⟨p, hp⟩ := mem_slots_iff.1 hd
    exact ⟨p, d, hp, h⟩
  · rintro ⟨p, d, hd, h⟩
    exact ⟨d, mem_slots_iff.2 ⟨p, hd⟩, h⟩

/-- **No circle is found exactly if there is none.** -/
theorem interfaceCycle?_eq_none_iff : g.interfaceCycle? = none ↔ g.Layered := by
  obtain ⟨hclosed, hnodup, hedge⟩ := g.interfaceRelation_spec
  have hsort := Digraph.exists_toposort_iff_acyclic hclosed hnodup
  have hacyclic : g.interfaceRelation.Acyclic ↔ g.Layered := by
    unfold Digraph.Acyclic Layered
    rw [hedge]
  rw [← hacyclic, ← hsort]
  unfold DeclarationStore.interfaceCycle?
  cases g.interfaceRelation.toposort with
  | ok order => exact iff_of_true rfl ⟨order, rfl⟩
  | error key => exact iff_of_false (fun h => by cases h) fun ⟨_, h⟩ => by cases h

/-- A key that is named lies on a circle. -/
theorem onCircle_of_interfaceCycle? {key : String} (h : g.interfaceCycle? = some key) :
    Relation.TransGen g.BuiltOn key key := by
  obtain ⟨hclosed, hnodup, hedge⟩ := g.interfaceRelation_spec
  unfold DeclarationStore.interfaceCycle? at h
  split at h
  · rename_i node hsort
    obtain rfl := Option.some.inj h
    rw [← hedge]
    exact Digraph.onCircle_of_toposort_eq_error hclosed hnodup hsort
  · cases h

/-- A key on a circle is declared. -/
theorem exists_declared_of_onCircle {key : String} (h : Relation.TransGen g.BuiltOn key key) :
    ∃ p, ∃ d ∈ g.declarationsOf p, d.key = key := by
  obtain ⟨base, -, p, d, hd, hkey, -⟩ := Relation.TransGen.tail'_iff.1 h
  exact ⟨p, d, hd, hkey⟩

/-- **The search for a circle of interfaces is exact.** Whatever calls have led to a graph, nothing
is found exactly if no interface is built on itself through others, and a key that is named lies on
such a circle and is declared by some file. -/
theorem interfaceCycle?_exact (g : DependencyGraph) :
    (g.interfaceCycle? = none ↔ ∀ key, ¬ Relation.TransGen g.BuiltOn key key) ∧
      ∀ key, g.interfaceCycle? = some key →
        Relation.TransGen g.BuiltOn key key ∧ ∃ p, ∃ d ∈ g.declarationsOf p, d.key = key := by
  refine ⟨interfaceCycle?_eq_none_iff, fun key h => ?_⟩
  have hcircle : Relation.TransGen g.BuiltOn key key := onCircle_of_interfaceCycle? h
  exact ⟨hcircle, exists_declared_of_onCircle hcircle⟩

/-! Two files declare the key `k`, and what one of them says closes a circle with `m`, which sits in
the slot that `z` had before. The key `z` stands behind the circle, and `x` is declared nowhere. -/

def sharedKey : DependencyGraph :=
  [("a", [⟨"z", ⟨"1"⟩, ["k"], []⟩]), ("b", [⟨"k", ⟨"1"⟩, ["k", "x"], []⟩]),
    ("c", [⟨"k", ⟨"1"⟩, ["m"], []⟩]), ("a", []), ("d", [⟨"m", ⟨"1"⟩, ["k"], []⟩]),
    ("a", [⟨"z", ⟨"1"⟩, ["k"], []⟩])].foldl (fun g (file, ds) => (g.replace ⟨file⟩ ds).1) .empty

theorem interfaceCycle?_exact_sharedKey :
    sharedKey.interfaceCycle? = some "k" ∧ Relation.TransGen sharedKey.BuiltOn "k" "k" ∧
      ∃ p, ∃ d ∈ sharedKey.declarationsOf p, d.key = "k" := by
  have hfound : sharedKey.interfaceCycle? = some "k" := by decide +kernel
  exact ⟨hfound, (interfaceCycle?_exact sharedKey).2 "k" hfound⟩

end DependencyGraph

end IncrementalBuild
