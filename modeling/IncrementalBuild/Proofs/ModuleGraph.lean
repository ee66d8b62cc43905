import IncrementalBuild.ModuleGraph
import IncrementalBuild.Proofs.Digraph.Circles
import IncrementalBuild.Proofs.OrderedMap

/-!
# Orders of imported modules

The modules of a graph can be built in the order that is found for them: every module stands in
it once and behind the modules it depends on, and nothing that is depended on or imported is
missing. What an input needs is what it imports, what that depends on, and so on. The worklist
finds all of it, because whatever it may come across is a name of the graph.
-/

namespace IncrementalBuild.ModuleGraph

/-! ## The relation of modules

The relation is built up name by name and then edge by edge. An edge brings its two ends along, so
the relation has a node for every name that a dependency mentions, known or not. That makes it
closed whatever the graph is, and sorting it needs no check of its own; unknown names are refused
before. -/

/-- Adding nodes adds these nodes and no others. -/
theorem mem_nodes_foldl_addNode {l : List String} {g : Digraph String} {a : String} :
    a ∈ (l.foldl Digraph.addNode g).nodes ↔ a ∈ g.nodes ∨ a ∈ l := by
  induction l generalizing g with
  | nil => simp
  | cons b rest ih =>
    rw [List.foldl_cons, ih, Digraph.mem_nodes_addNode, List.mem_cons]
    rw [or_comm (a := a = b), or_assoc]

/-- Adding edges adds the two ends of each. -/
theorem mem_nodes_foldl_addEdge {l : List (String × String)} {g : Digraph String} {a : String} :
    a ∈ (l.foldl (fun r e => r.addEdge e.1 e.2) g).nodes ↔
      a ∈ g.nodes ∨ ∃ e ∈ l, a = e.1 ∨ a = e.2 := by
  induction l generalizing g with
  | nil => simp
  | cons e rest ih =>
    rw [List.foldl_cons, ih, Digraph.mem_nodes_addEdge, List.exists_mem_cons_iff]
    constructor
    · rintro ((h | h | h) | h)
      · exact .inr (.inl (.inr h))
      · exact .inr (.inl (.inl h))
      · exact .inl h
      · exact .inr (.inr h)
    · rintro (h | (h | h) | h)
      · exact .inl (.inr (.inr h))
      · exact .inl (.inr (.inl h))
      · exact .inl (.inl h)
      · exact .inr h

/-- Adding nodes adds no edge. -/
theorem mem_edges_foldl_addNode {l : List String} {g : Digraph String} {e : String × String} :
    e ∈ (l.foldl Digraph.addNode g).edges ↔ e ∈ g.edges := by
  induction l generalizing g with
  | nil => exact .rfl
  | cons a rest ih =>
    rw [List.foldl_cons, ih]
    unfold Digraph.addNode
    split <;> exact .rfl

/-- Adding edges adds these edges and no others. -/
theorem mem_edges_foldl_addEdge {l : List (String × String)} {g : Digraph String}
    {e : String × String} :
    e ∈ (l.foldl (fun r e => r.addEdge e.1 e.2) g).edges ↔ e ∈ g.edges ∨ e ∈ l := by
  induction l generalizing g with
  | nil => simp
  | cons b rest ih =>
    rw [List.foldl_cons, ih, Digraph.mem_edges_addEdge, List.mem_cons, ← or_assoc,
      or_comm (a := e = b)]

variable {g : ModuleGraph} {p : Path} {name dep : String} {m : ExternalModule}

/-- **The edges of the relation** lead from the dependencies of a module to the module. -/
theorem mem_edges_relation :
    (dep, name) ∈ g.relation.edges ↔
      ∃ m, g.modules.get? name = some m ∧ dep ∈ m.dependencies.toList := by
  unfold relation
  rw [mem_edges_foldl_addEdge, mem_edges_foldl_addNode]
  simp only [Digraph.empty, List.not_mem_nil, false_or, List.mem_flatMap, List.mem_map,
    Prod.mk.injEq, Prod.exists]
  constructor
  · rintro ⟨name', m, hm, dep', hdep, rfl, rfl⟩
    exact ⟨m, OrderedMap.mem_entries_iff.1 hm, hdep⟩
  · rintro ⟨m, hm, hdep⟩
    exact ⟨name, m, OrderedMap.mem_entries_iff.2 hm, dep, hdep, rfl, rfl⟩

/-- **The nodes of the relation** are the modules and what they depend on. A dependency that is no
module is a node too. -/
theorem mem_nodes_relation :
    name ∈ g.relation.nodes ↔ g.modules.contains name = true ∨
      ∃ user m, g.modules.get? user = some m ∧ name ∈ m.dependencies.toList := by
  unfold relation
  rw [mem_nodes_foldl_addEdge, mem_nodes_foldl_addNode, ← OrderedMap.contains_iff_mem_keys]
  simp only [Digraph.empty, List.not_mem_nil, false_or]
  constructor
  -- A node that came with an edge is the dependency, or it is the module that has it.
  · rintro (h | ⟨e, he, hname⟩)
    · exact .inl h
    · obtain ⟨⟨user, m⟩, hm, hin⟩ := List.mem_flatMap.1 he
      obtain ⟨dep, hdep, rfl⟩ := List.mem_map.1 hin
      rcases hname with rfl | rfl
      · exact .inr ⟨user, m, OrderedMap.mem_entries_iff.1 hm, hdep⟩
      · exact .inl (OrderedMap.contains_iff.2 ⟨_, hm, Std.ReflOrd.compare_self⟩)
  · rintro (h | ⟨user, m, hm, hdep⟩)
    · exact .inl h
    · exact .inr ⟨(name, user), List.mem_flatMap.2 ⟨_, OrderedMap.mem_entries_iff.2 hm,
        List.mem_map.2 ⟨name, hdep, rfl⟩⟩, .inl rfl⟩

/-- The ends of every edge are nodes, whether the modules are known or not. -/
theorem closed_relation (g : ModuleGraph) : g.relation.Closed := by
  intro (dep, name) he
  obtain ⟨m, hm, hdep⟩ := mem_edges_relation.1 he
  refine ⟨mem_nodes_relation.2 (.inr ⟨name, m, hm, hdep⟩), mem_nodes_relation.2 (.inl ?_)⟩
  rw [← OrderedMap.isSome_get?, hm]
  rfl

/-- No node is listed twice, since a node that is there is not added again. -/
theorem nodup_nodes_relation (g : ModuleGraph) : g.relation.nodes.Nodup := by
  have hnodes (l : List String) (r : Digraph String) (hr : r.nodes.Nodup) :
      (l.foldl Digraph.addNode r).nodes.Nodup := by
    induction l generalizing r with
    | nil => exact hr
    | cons a rest ih => exact ih _ (Digraph.nodup_nodes_addNode hr a)
  have hedges (l : List (String × String)) (r : Digraph String) (hr : r.nodes.Nodup) :
      (l.foldl (fun r e => r.addEdge e.1 e.2) r).nodes.Nodup := by
    induction l generalizing r with
    | nil => exact hr
    | cons e rest ih => exact ih _ (Digraph.nodup_nodes_addEdge hr e.1 e.2)
  exact hedges _ _ (hnodes _ _ List.nodup_nil)

/-! ## The order

Two things have to hold of a graph that has an order: no name is unknown, and the relation can be
sorted. The first makes the nodes of the relation the modules of the graph, and then the second is
about them. -/

/-- **An order is found** exactly where no name is unknown and the relation has that order. -/
theorem buildOrder_eq_ok_iff {order : List String} :
    g.buildOrder = .ok order ↔ g.unknown? = none ∧ g.relation.toposort = .ok order := by
  unfold buildOrder
  cases g.unknown? with
  | some missing => exact iff_of_false (fun h => by cases h) fun h => by cases h.1
  | none =>
    rw [and_iff_right rfl]
    cases g.relation.toposort with
    | error node => exact iff_of_false (fun h => by cases h) fun h => by cases h
    | ok found => exact ⟨fun h => congrArg Except.ok (Except.ok.inj h),
        fun h => congrArg Except.ok (Except.ok.inj h)⟩

/-- **Where no unknown module is found, there is none.** -/
theorem contains_of_unknown? (h : g.unknown? = none) :
    (∀ name m, g.modules.get? name = some m → ∀ dep ∈ m.dependencies.toList,
        g.modules.contains dep = true) ∧
      ∀ p set, g.imports.get? p = some set → ∀ name ∈ set.toList,
        g.modules.contains name = true := by
  have hknown := List.find?_eq_none.1 h
  -- The search goes through the dependencies first and through the imports behind them.
  refine ⟨fun name m hm dep hdep => ?_, fun p set hset name hname => ?_⟩
  · have := hknown (name, dep) (List.mem_append_left _ (List.mem_flatMap.2
      ⟨_, OrderedMap.mem_entries_iff.2 hm, List.mem_map.2 ⟨dep, hdep, rfl⟩⟩))
    simpa using this
  · obtain ⟨q, hq, -⟩ := OrderedMap.mem_entries_of_get? hset
    have := hknown (q.text, name) (List.mem_append_right _ (List.mem_flatMap.2
      ⟨_, hq, List.mem_map.2 ⟨name, hname, rfl⟩⟩))
    simpa using this

/-- **Whether the modules of a graph can be built in an order**, and nothing else is in it. -/
structure Orders (g : ModuleGraph) (order : List String) : Prop where
  /-- The order lists the modules of the graph. -/
  mem_iff : ∀ name, name ∈ order ↔ g.modules.contains name = true
  nodup : order.Nodup
  /-- Dependencies come first. -/
  before : ∀ name m, g.modules.get? name = some m → ∀ dep ∈ m.dependencies.toList,
    order.idxOf dep < order.idxOf name
  /-- Imports are in the order, so they are known. What modules depend on is by `before`. -/
  imported : ∀ p set, g.imports.get? p = some set → ∀ name ∈ set.toList, name ∈ order

/-- **The order that is found is one in which the modules can be built.** -/
theorem orders_of_buildOrder {order : List String} (h : g.buildOrder = .ok order) :
    g.Orders order := by
  obtain ⟨hknown, hsort⟩ := buildOrder_eq_ok_iff.1 h
  obtain ⟨hdependencies, himports⟩ := contains_of_unknown? hknown
  obtain ⟨hmem, hnodup, -⟩ := Digraph.toposort_ok hsort
  -- Nodes that are no modules are what modules depend on, and these are modules here.
  have hmem (name : String) : name ∈ order ↔ g.modules.contains name = true := by
    rw [hmem, mem_nodes_relation]
    refine or_iff_left_of_imp ?_
    rintro ⟨user, m, hm, hdep⟩
    exact hdependencies user m hm name hdep
  exact ⟨hmem, hnodup, fun name m hm dep hdep =>
      Digraph.ranked_of_toposort g.closed_relation hsort (dep, name)
        (mem_edges_relation.2 ⟨m, hm, hdep⟩),
    fun p set hset name hname => (hmem name).2 (himports p set hset name hname)⟩

/-- A dependency is in the order, since its place is before another one. -/
theorem Orders.mem_of_dependency {order : List String} (h : g.Orders order)
    (hm : g.modules.get? name = some m) (hdep : dep ∈ m.dependencies.toList) : dep ∈ order :=
  List.idxOf_lt_length_iff.1 (Nat.lt_of_lt_of_le (h.before name m hm dep hdep)
    List.idxOf_le_length)

/-! ## What inputs need -/

/-- **Whether a module has to be built before an input**: the input imports it, or something
that has to be built depends on it. -/
inductive Needs (g : ModuleGraph) (p : Path) : String → Prop where
  /-- An input needs what it imports. -/
  | imported {set : OrderedSet String} {name : String} (h : g.imports.get? p = some set)
      (hname : name ∈ set.toList) : g.Needs p name
  /-- With a module its dependencies are needed. -/
  | dependency {name dep : String} {m : ExternalModule} (h : g.Needs p name)
      (hm : g.modules.get? name = some m) (hdep : dep ∈ m.dependencies.toList) : g.Needs p dep

/-- What is needed stands in the order. -/
theorem Orders.mem_of_needs {order : List String} (h : g.Orders order) (hn : g.Needs p name) :
    name ∈ order := by
  cases hn with
  | imported hset hname => exact h.imported p _ hset name hname
  | dependency _ hm hdep => exact h.mem_of_dependency hm hdep

/-- The dependencies that are found are those of the module. A name that is unknown has none. -/
theorem mem_dependenciesOf :
    dep ∈ g.dependenciesOf name ↔
      ∃ m, g.modules.get? name = some m ∧ dep ∈ m.dependencies.toList := by
  unfold dependenciesOf
  cases g.modules.get? name <;> simp

/-- **The worklist finds what an input needs**, no matter how many steps away. -/
theorem mem_neededBy_iff : name ∈ (g.neededBy p).toList ↔ g.Needs p name := by
  have himported {name : String} :
      name ∈ ((g.imports.get? p).map OrderedSet.toList).getD [] ↔
        ∃ set, g.imports.get? p = some set ∧ name ∈ set.toList := by
    cases g.imports.get? p <;> simp
  -- The worklist takes up a name of the graph once and passes over all else, so what is needed
  -- has to be such a name.
  have hname {name : String} (h : g.Needs p name) : name ∈ g.names.toList := by
    refine OrderedSet.mem_toList_ofList.2 ?_
    cases h with
    | imported h hname =>
      exact List.mem_append_right _
        (List.mem_flatMap.2 ⟨_, OrderedMap.mem_values_iff.2 ⟨p, h⟩, hname⟩)
    | dependency h hm hdep =>
      exact List.mem_append_left _ (List.mem_append_right _
        (List.mem_flatMap.2 ⟨_, OrderedMap.mem_values_iff.2 ⟨_, hm⟩, hdep⟩))
  unfold neededBy
  rw [OrderedSet.mem_toList_ofList]
  -- What the worklist finds is needed, step by step; and it finds what is imported and, with a
  -- module, the dependencies of that.
  constructor
  · refine reachable_induction (fun a ha => ?_) (fun a b ha hb => ?_) name
    · obtain ⟨set, h, hmem⟩ := himported.1 ha
      exact .imported h hmem
    · obtain ⟨m, hm, hdep⟩ := mem_dependenciesOf.1 hb
      exact .dependency ha hm hdep
  · intro h
    induction h with
    | imported h hmem =>
      exact mem_reachable_of_mem_stack (himported.2 ⟨_, h, hmem⟩) (hname (.imported h hmem))
    | dependency h hm hdep ih =>
      exact reachable_closed ih (mem_dependenciesOf.2 ⟨_, hm, hdep⟩)
        (hname (.dependency h hm hdep))

end IncrementalBuild.ModuleGraph
