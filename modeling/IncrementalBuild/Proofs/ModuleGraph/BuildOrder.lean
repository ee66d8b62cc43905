import IncrementalBuild.Proofs.ModuleGraph

/-!
# What a module graph answers

Asked for an order of its modules, a graph gives one of three answers, and the graph alone decides
which. A name that it speaks of and does not know comes before everything else. Where all names
are known, either some module has to be built before itself, and then one of those is named, or
there is an order.

That a module is named only if it lies on a circle itself, and not merely behind one, is what the
topological sort of `Digraph.Circles` gives: its second pass goes against the edges, and what it
meets from a node leads to that node and back.
-/

namespace IncrementalBuild.ModuleGraph

/-- Whether one module has to be built right before another. -/
def Precedes (g : ModuleGraph) (dep name : String) : Prop :=
  ∃ m, g.modules.get? name = some m ∧ dep ∈ m.dependencies.toList

/-- Whether a module has to be built before itself. -/
def OnCircle (g : ModuleGraph) (name : String) : Prop := Relation.TransGen g.Precedes name name

/-- Whether a module depends on another, or an input imports it, by the names of both. -/
def Mentions (g : ModuleGraph) (user name : String) : Prop :=
  g.Precedes name user ∨
    ∃ p set, (p, set) ∈ g.imports.entries ∧ p.text = user ∧ name ∈ set.toList

/-- **Whether a module or an input lacks what it names**: there is no such module. -/
def Lacks (g : ModuleGraph) (user name : String) : Prop :=
  g.Mentions user name ∧ g.modules.contains name = false

/-- **What a module graph has to answer**: each of the three answers exactly where it is due. -/
structure Answers (g : ModuleGraph) (answer : Except PlanningError (List String)) : Prop where
  unknown_iff : (∃ user name, answer = .error (.unknownModule user name)) ↔
    ∃ user name, g.Lacks user name
  lacks : ∀ user name, answer = .error (.unknownModule user name) → g.Lacks user name
  /-- Circles are spoken of where nothing is lacking. -/
  circle_iff : (∀ user name, ¬ g.Lacks user name) →
    ((∃ name, answer = .error (.moduleCycle name)) ↔ ∃ name, g.OnCircle name)
  onCircle : ∀ name, answer = .error (.moduleCycle name) → g.OnCircle name
  orders : (∀ user name, ¬ g.Lacks user name) → (∀ name, ¬ g.OnCircle name) →
    ∃ order, answer = .ok order ∧ g.Orders order

variable {g : ModuleGraph} {user name : String}

/-- The edges of the relation are what the graph says of one module coming before another. -/
theorem edge_relation : g.relation.Edge = g.Precedes := by
  funext dep name
  exact propext mem_edges_relation

/-! ## What is unknown -/

/-- What is found to be unknown is lacking. -/
theorem lacks_of_unknown? (h : g.unknown? = some (user, name)) : g.Lacks user name := by
  have hunknown : g.modules.contains name = false := by simpa using List.find?_some h
  refine ⟨?_, hunknown⟩
  rcases List.mem_append.1 (List.mem_of_find?_eq_some h) with hmem | hmem
  · obtain ⟨⟨user', m⟩, hm, hin⟩ := List.mem_flatMap.1 hmem
    obtain ⟨dep, hdep, he⟩ := List.mem_map.1 hin
    obtain ⟨rfl, rfl⟩ := Prod.mk.inj he
    exact .inl ⟨m, OrderedMap.mem_entries_iff.1 hm, hdep⟩
  · obtain ⟨⟨p, set⟩, hset, hin⟩ := List.mem_flatMap.1 hmem
    obtain ⟨dep, hdep, he⟩ := List.mem_map.1 hin
    obtain ⟨rfl, rfl⟩ := Prod.mk.inj he
    exact .inr ⟨p, set, hset, rfl, hdep⟩

/-- Where nothing is found to be unknown, nothing is lacking. -/
theorem not_lacks_of_unknown? (h : g.unknown? = none) : ¬ g.Lacks user name := by
  obtain ⟨hdependencies, himports⟩ := contains_of_unknown? h
  rintro ⟨hmentions, hunknown⟩
  have hknown : g.modules.contains name = true := by
    rcases hmentions with ⟨m, hm, hdep⟩ | ⟨p, set, hset, -, hname⟩
    · exact hdependencies user m hm name hdep
    · have hfound : g.imports.get? p = some set := OrderedMap.get?_of_mem (e := (p, set)) hset
      exact himports p set hfound name hname
  exact Bool.false_ne_true (hunknown.symm.trans hknown)

/-! ## One answer at a time -/

/-- A module that is lacking is reported, and rightly. -/
theorem Lacks.answers (h : g.Lacks user name) :
    g.Answers (.error (.unknownModule user name)) where
  unknown_iff := iff_of_true ⟨user, name, rfl⟩ ⟨user, name, h⟩
  lacks user' name' he := by
    obtain ⟨rfl, rfl⟩ := PlanningError.unknownModule.inj (Except.error.inj he)
    exact h
  circle_iff hknown := absurd h (hknown user name)
  onCircle _ he := by cases he
  orders hknown := absurd h (hknown user name)

/-- A module on a circle is reported, and rightly, if none is lacking. -/
theorem OnCircle.answers (h : g.OnCircle name) (hknown : ∀ user name, ¬ g.Lacks user name) :
    g.Answers (.error (.moduleCycle name)) where
  unknown_iff := iff_of_false (fun ⟨_, _, he⟩ => by cases he)
    fun ⟨user, missing, hlacks⟩ => hknown user missing hlacks
  lacks _ _ he := by cases he
  circle_iff _ := iff_of_true ⟨name, rfl⟩ ⟨name, h⟩
  onCircle name' he := by
    obtain rfl := PlanningError.moduleCycle.inj (Except.error.inj he)
    exact h
  orders _ hno := absurd h (hno name)

/-- In an order nothing comes before itself. -/
theorem Orders.not_onCircle {order : List String} (h : g.Orders order) : ¬ g.OnCircle name := by
  have hranked : g.relation.Ranked (order.idxOf ·) := by
    intro (dep, name) he
    obtain ⟨m, hm, hdep⟩ := mem_edges_relation.1 he
    exact h.before name m hm dep hdep
  have hacyclic := hranked.acyclic name
  rwa [edge_relation] at hacyclic

/-- An order is given, and rightly, if no module is lacking. There is no circle then, since the
order would have to go round it. -/
theorem Orders.answers {order : List String} (h : g.Orders order)
    (hknown : ∀ user name, ¬ g.Lacks user name) : g.Answers (.ok order) where
  unknown_iff := iff_of_false (fun ⟨_, _, he⟩ => by cases he)
    fun ⟨user, missing, hlacks⟩ => hknown user missing hlacks
  lacks _ _ he := by cases he
  circle_iff _ := iff_of_false (fun ⟨_, he⟩ => by cases he) fun ⟨_, hc⟩ => h.not_onCircle hc
  onCircle _ he := by cases he
  orders _ _ := ⟨order, rfl, h⟩

/-- **The order of modules is exact.** An unknown module is named exactly if one is depended on or
imported. Otherwise a circle is named exactly if there is one, by a module on it, and without a
circle all modules are listed once, each behind those that it depends on. -/
theorem answers_buildOrder (g : ModuleGraph) : g.Answers g.buildOrder := by
  cases hunknown : g.unknown? with
  | some missing =>
    obtain ⟨user, name⟩ := missing
    have hanswer : g.buildOrder = .error (.unknownModule user name) := by
      unfold buildOrder
      rw [hunknown]
    rw [hanswer]
    exact (lacks_of_unknown? hunknown).answers
  | none =>
    have hknown : ∀ user name, ¬ g.Lacks user name := fun _ _ => not_lacks_of_unknown? hunknown
    cases hsort : g.relation.toposort with
    | error name =>
      have hanswer : g.buildOrder = .error (.moduleCycle name) := by
        unfold buildOrder
        rw [hunknown, hsort]
        rfl
      have hcircle := Digraph.onCircle_of_toposort_eq_error g.closed_relation
        g.nodup_nodes_relation hsort
      rw [edge_relation] at hcircle
      rw [hanswer]
      exact OnCircle.answers hcircle hknown
    | ok order =>
      have hanswer : g.buildOrder = .ok order := buildOrder_eq_ok_iff.2 ⟨hunknown, hsort⟩
      rw [hanswer]
      exact (orders_of_buildOrder hanswer).answers hknown

/-! Two modules depend on each other, and a third one, the first by name, on one of them. -/

/-- Two modules that depend on each other. -/
def twoInCircle : ModuleGraph where
  modules := .ofList [("App", ⟨⟨"/sdk/App"⟩, .ofList ["Net"]⟩),
    ("Core", ⟨⟨"/sdk/Core"⟩, .ofList ["Net"]⟩), ("Net", ⟨⟨"/sdk/Net"⟩, .ofList ["Core"]⟩)]
  imports := .ofList [(⟨"/src/a.src"⟩, .ofList ["App"])]

/-- The circle of the two is reported at one of them. -/
theorem answers_buildOrder_twoInCircle :
    twoInCircle.buildOrder = .error (.moduleCycle "Net") ∧ twoInCircle.OnCircle "Net" ∧
      ∀ user name, ¬ twoInCircle.Lacks user name := by
  have hanswer : twoInCircle.buildOrder = .error (.moduleCycle "Net") := by decide +kernel
  have hexact := answers_buildOrder twoInCircle
  refine ⟨hanswer, hexact.onCircle "Net" hanswer, fun user name h => ?_⟩
  obtain ⟨user, name, he⟩ := hexact.unknown_iff.2 ⟨user, name, h⟩
  exact absurd (hanswer.symm.trans he) (by simp)

end IncrementalBuild.ModuleGraph
