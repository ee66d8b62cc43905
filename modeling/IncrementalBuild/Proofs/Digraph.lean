import IncrementalBuild.Digraph.Toposort
import Mathlib.Logic.Relation
import Mathlib.Data.Finset.Card

/-!
# Searches in directed graphs

What `reachable` meets and what `toposort` lists. A search is closed: whatever
follows an element it meets is met too, as long as it may be visited, and so it
meets what can be reached from its stack. A topological order lists every node
once, and the predecessors of a node before it.
-/

namespace IncrementalBuild

variable {α : Type} [DecidableEq α]

/-! ## Reachable elements -/

section Reachable

variable {next : α → List α} {unseen stack : List α}

/-- A search stays within the elements that it may visit. -/
theorem mem_unseen_of_mem_reachable {a : α} (h : a ∈ reachable next unseen stack) :
    a ∈ unseen := by
  fun_induction reachable next unseen stack with
  | case1 => exact absurd h List.not_mem_nil
  | case2 unseen b rest hb ih =>
    rcases List.mem_cons.1 h with rfl | h
    · exact hb
    · exact List.mem_of_mem_erase (ih h)
  | case3 unseen b rest hb ih => exact ih h

/-- A search meets what stands on its stack. -/
theorem mem_reachable_of_mem_stack {a : α} (hs : a ∈ stack) (hu : a ∈ unseen) :
    a ∈ reachable next unseen stack := by
  fun_induction reachable next unseen stack with
  | case1 => exact absurd hs List.not_mem_nil
  | case2 unseen b rest hb ih =>
    by_cases hab : a = b
    · rw [hab]
      exact List.mem_cons_self
    · have hs : a ∈ rest := (List.mem_cons.1 hs).resolve_left hab
      exact List.mem_cons_of_mem _
        (ih (List.mem_append_right _ hs) ((List.mem_erase_of_ne hab).2 hu))
  | case3 unseen b rest hb ih =>
    rcases List.mem_cons.1 hs with rfl | hs
    · exact absurd hu hb
    · exact ih hs hu

/-- **A search is closed**: what follows an element that it meets is met. -/
theorem reachable_closed {a b : α} (ha : a ∈ reachable next unseen stack)
    (hb : b ∈ next a) (hu : b ∈ unseen) : b ∈ reachable next unseen stack := by
  fun_induction reachable next unseen stack with
  | case1 => exact absurd ha List.not_mem_nil
  | case2 unseen c rest hc ih =>
    by_cases hbc : b = c
    · rw [hbc]
      exact List.mem_cons_self
    · have hu : b ∈ unseen.erase c := (List.mem_erase_of_ne hbc).2 hu
      rcases List.mem_cons.1 ha with rfl | ha
      · exact List.mem_cons_of_mem _
          (mem_reachable_of_mem_stack (List.mem_append_left _ hb) hu)
      · exact List.mem_cons_of_mem _ (ih ha hu)
  | case3 unseen c rest hc ih => exact ih ha hu

/-- **A search meets what can be reached** from what stands on its stack, along elements that it may
visit. -/
theorem mem_reachable_iff {a : α} :
    a ∈ reachable next unseen stack ↔ ∃ root ∈ stack, root ∈ unseen ∧
      Relation.ReflTransGen (fun b c => c ∈ next b ∧ c ∈ unseen) root a := by
  constructor
  · intro h
    fun_induction reachable next unseen stack with
    | case1 => exact absurd h List.not_mem_nil
    | case2 unseen b rest hb ih =>
      rcases List.mem_cons.1 h with rfl | h
      · exact ⟨a, List.mem_cons_self, hb, .refl⟩
      · obtain ⟨root, hroot, hu, hpath⟩ := ih h
        have hroot' := List.mem_of_mem_erase hu
        have hpath := Relation.ReflTransGen.mono
          (fun _ _ hs => And.imp_right List.mem_of_mem_erase hs) _ _ hpath
        rcases List.mem_append.1 hroot with hroot | hroot
        · exact ⟨b, List.mem_cons_self, hb, .head ⟨hroot, hroot'⟩ hpath⟩
        · exact ⟨root, List.mem_cons_of_mem _ hroot, hroot', hpath⟩
    | case3 unseen b rest hb ih =>
      obtain ⟨root, hroot, h⟩ := ih h
      exact ⟨root, List.mem_cons_of_mem _ hroot, h⟩
  · rintro ⟨root, hroot, hu, hpath⟩
    induction hpath with
    | refl => exact mem_reachable_of_mem_stack hroot hu
    | tail _ hstep ih => exact reachable_closed ih hstep.1 hstep.2

/-- In which order a search goes on makes no difference to what it meets. -/
theorem mem_reachable_congr {next' : α → List α} {stack' : List α}
    (hnext : ∀ a b, b ∈ next a ↔ b ∈ next' a) (hstack : ∀ a, a ∈ stack ↔ a ∈ stack') {a : α} :
    a ∈ reachable next unseen stack ↔ a ∈ reachable next' unseen stack' := by
  simp only [mem_reachable_iff, hnext, hstack]

/-- **What a search meets has every property that its stack has and that is
handed on from each element to the next ones.** -/
theorem reachable_induction {P : α → Prop} (hstack : ∀ a ∈ stack, P a)
    (hnext : ∀ a b, P a → b ∈ next a → P b) :
    ∀ a ∈ reachable next unseen stack, P a := by
  intro a ha
  obtain ⟨root, hroot, -, hpath⟩ := mem_reachable_iff.1 ha
  clear ha
  induction hpath with
  | refl => exact hstack root hroot
  | tail _ hstep ih => exact hnext _ _ ih hstep.1

end Reachable

namespace Digraph

/-! ## Building graphs -/

/-- Whether the ends of all edges are nodes. -/
def Closed (g : Digraph α) : Prop := ∀ e ∈ g.edges, e.1 ∈ g.nodes ∧ e.2 ∈ g.nodes

/-- Adding a node adds that node. -/
theorem mem_nodes_addNode {g : Digraph α} {a b : α} :
    b ∈ (g.addNode a).nodes ↔ b = a ∨ b ∈ g.nodes := by
  unfold addNode
  split
  · rename_i h
    exact ⟨Or.inr, fun hb => hb.elim (fun e => e ▸ h) id⟩
  · simp [or_comm]

/-- Adding a node adds no edge. -/
@[simp] theorem edges_addNode (g : Digraph α) (a : α) : (g.addNode a).edges = g.edges := by
  unfold addNode
  split <;> rfl

/-- Adding an edge adds its two ends. -/
theorem mem_nodes_addEdge {g : Digraph α} {a b c : α} :
    c ∈ (g.addEdge a b).nodes ↔ c = b ∨ c = a ∨ c ∈ g.nodes := by
  simp only [addEdge]
  split <;> exact mem_nodes_addNode.trans (or_congr_right mem_nodes_addNode)

/-- Adding an edge adds that edge. -/
theorem mem_edges_addEdge {g : Digraph α} {a b : α} {e : α × α} :
    e ∈ (g.addEdge a b).edges ↔ e = (a, b) ∨ e ∈ g.edges := by
  simp only [addEdge]
  split
  · rename_i h
    simp only [edges_addNode] at h ⊢
    exact ⟨Or.inr, fun he => he.elim (fun eq => eq ▸ h) id⟩
  · simp [or_comm]

/-- A node that is there already is not added again. -/
theorem nodup_nodes_addNode {g : Digraph α} (h : g.nodes.Nodup) (a : α) :
    (g.addNode a).nodes.Nodup := by
  unfold addNode
  split
  · exact h
  · rename_i hnot
    exact List.nodup_append.2 ⟨h, List.nodup_singleton a, fun b hb c hc hbc =>
      hnot (List.mem_singleton.1 hc ▸ hbc ▸ hb)⟩

/-- Adding an edge lists no node twice. -/
theorem nodup_nodes_addEdge {g : Digraph α} (h : g.nodes.Nodup) (a b : α) :
    (g.addEdge a b).nodes.Nodup := by
  simp only [addEdge]
  split <;> exact nodup_nodes_addNode (nodup_nodes_addNode h a) b

omit [DecidableEq α] in
/-- Without edges there is nothing that could lack an end. -/
theorem closed_empty : (empty : Digraph α).Closed := fun _ h => absurd h List.not_mem_nil

/-- Adding a node takes no end away. -/
theorem Closed.addNode {g : Digraph α} (h : g.Closed) (a : α) : (g.addNode a).Closed := by
  intro e he
  rw [edges_addNode] at he
  exact ⟨mem_nodes_addNode.2 (.inr (h e he).1), mem_nodes_addNode.2 (.inr (h e he).2)⟩

/-- An edge brings its ends along. -/
theorem Closed.addEdge {g : Digraph α} (h : g.Closed) (a b : α) : (g.addEdge a b).Closed := by
  intro e he
  rcases mem_edges_addEdge.1 he with rfl | he
  · exact ⟨mem_nodes_addEdge.2 (.inr (.inl rfl)), mem_nodes_addEdge.2 (.inl rfl)⟩
  · exact ⟨mem_nodes_addEdge.2 (.inr (.inr (h e he).1)),
      mem_nodes_addEdge.2 (.inr (.inr (h e he).2))⟩

/-! ## What a depth-first search finishes -/

section Finish

variable {g : Digraph α} {unseen stack finished unseen' finished' : List α}

/-- What was finished stays so, and what stands on the stack is finished. -/
theorem mem_of_finish (h : g.finish unseen stack finished = .ok (unseen', finished')) {a : α}
    (ha : a ∈ finished ∨ a ∈ stack) : a ∈ finished' := by
  fun_induction finish g unseen stack finished with
  | case1 unseen finished =>
    obtain ⟨rfl, rfl⟩ : unseen = unseen' ∧ finished = finished' := by simpa using h
    exact ha.resolve_right List.not_mem_nil
  | case2 => cases h
  | case3 unseen finished b rest hb next hself unseen₁ ih =>
    exact ih h (ha.imp_right (List.mem_append_right _))
  | case4 unseen finished b rest hb ih =>
    refine ih h ?_
    rcases ha with ha | ha
    · left
      split
      · exact ha
      · exact List.mem_cons_of_mem _ ha
    · rcases List.mem_cons.1 ha with rfl | ha
      · left
        split
        · assumption
        · exact List.mem_cons_self
      · exact .inr ha

/-- What is finished was so before, or stood on the stack, or was met. -/
theorem mem_or_of_mem_finish (h : g.finish unseen stack finished = .ok (unseen', finished'))
    {a : α} (ha : a ∈ finished') : a ∈ finished ∨ a ∈ stack ∨ a ∈ unseen := by
  fun_induction finish g unseen stack finished with
  | case1 unseen finished =>
    obtain ⟨rfl, rfl⟩ : unseen = unseen' ∧ finished = finished' := by simpa using h
    exact .inl ha
  | case2 => cases h
  | case3 unseen finished b rest hb next hself unseen₁ ih =>
    rcases ih h with ha | ha | ha
    · exact .inl ha
    · rcases List.mem_append.1 ha with ha | ha
      · have : a ∈ unseen₁ := by simpa using (List.mem_filter.1 (List.mem_reverse.1 ha)).2
        exact .inr (.inr (List.mem_of_mem_erase this))
      · exact .inr (.inl ha)
    · exact .inr (.inr (List.mem_of_mem_erase ha))
  | case4 unseen finished b rest hb ih =>
    rcases ih h with ha | ha | ha
    · split at ha
      · exact .inl ha
      · rcases List.mem_cons.1 ha with rfl | ha
        · exact .inr (.inl List.mem_cons_self)
        · exact .inl ha
    · exact .inr (.inl (List.mem_cons_of_mem _ ha))
    · exact .inr (.inr ha)

/-- Nothing is finished twice. -/
theorem nodup_of_finish (h : g.finish unseen stack finished = .ok (unseen', finished'))
    (hn : finished.Nodup) : finished'.Nodup := by
  fun_induction finish g unseen stack finished with
  | case1 unseen finished =>
    obtain ⟨rfl, rfl⟩ : unseen = unseen' ∧ finished = finished' := by simpa using h
    exact hn
  | case2 => cases h
  | case3 unseen finished b rest hb next hself unseen₁ ih => exact ih h hn
  | case4 unseen finished b rest hb ih =>
    refine ih h ?_
    split
    · exact hn
    · exact List.nodup_cons.2 ⟨by assumption, hn⟩

/-- A search leaves unseen only what was so before. -/
theorem sublist_of_finish (h : g.finish unseen stack finished = .ok (unseen', finished')) :
    unseen'.Sublist unseen := by
  fun_induction finish g unseen stack finished with
  | case1 unseen finished =>
    obtain ⟨rfl, rfl⟩ : unseen = unseen' ∧ finished = finished' := by simpa using h
    exact List.Sublist.refl _
  | case2 => cases h
  | case3 unseen finished b rest hb next hself unseen₁ ih =>
    exact (ih h).trans List.erase_sublist
  | case4 unseen finished b rest hb ih => exact ih h

/-- What a search meets and what stands on its stack has no edge to itself. -/
theorem no_loop_of_finish (h : g.finish unseen stack finished = .ok (unseen', finished'))
    {a : α} (ha : a ∈ unseen) (ha' : a ∉ unseen' ∨ a ∈ stack) : (a, a) ∉ g.edges := by
  fun_induction finish g unseen stack finished with
  | case1 unseen finished =>
    obtain ⟨rfl, rfl⟩ : unseen = unseen' ∧ finished = finished' := by simpa using h
    exact absurd ha (ha'.resolve_right List.not_mem_nil)
  | case2 => cases h
  | case3 unseen finished b rest hb next hself unseen₁ ih =>
    by_cases hab : a = b
    · rw [hab]
      exact fun he => hself (mem_successors.2 he)
    · refine ih h ((List.mem_erase_of_ne hab).2 ha) (ha'.imp_right ?_)
      intro hs
      exact List.mem_append_right _ hs
  | case4 unseen finished b rest hb ih =>
    refine ih h ha (ha'.imp_right fun hs => ?_)
    exact (List.mem_cons.1 hs).resolve_left fun e => hb (e ▸ ha)

end Finish

/-! ## What a topological order holds -/

/-- Searching from each of some nodes in turn finishes those nodes, and nothing
that is no node or met. -/
theorem mem_of_finishAll {g : Digraph α} {nodes unseen finished order : List α}
    (h : g.finishAll nodes unseen finished = .ok order) :
    (∀ a, a ∈ finished ∨ a ∈ nodes → a ∈ order) ∧
      (∀ a ∈ order, a ∈ finished ∨ a ∈ nodes ∨ a ∈ unseen) := by
  induction nodes generalizing unseen finished with
  | nil =>
    obtain rfl : finished = order := by simpa [finishAll] using h
    exact ⟨fun a ha => ha.resolve_right List.not_mem_nil, fun a ha => .inl ha⟩
  | cons b rest ih =>
    unfold finishAll at h
    split at h
    · cases h
    · rename_i u f hb
      refine ⟨fun a ha => (ih h).1 a ?_, fun a ha => ?_⟩
      · rcases ha with ha | ha
        · exact .inl (mem_of_finish hb (.inl ha))
        · rcases List.mem_cons.1 ha with rfl | ha
          · exact .inl (mem_of_finish hb (.inr List.mem_cons_self))
          · exact .inr ha
      · rcases (ih h).2 a ha with ha | ha | ha
        · rcases mem_or_of_mem_finish hb ha with ha | ha | ha
          · exact .inl ha
          · rw [List.mem_singleton.1 ha]
            exact .inr (.inl List.mem_cons_self)
          · exact .inr (.inr ha)
        · exact .inr (.inl (List.mem_cons_of_mem _ ha))
        · exact .inr (.inr ((sublist_of_finish hb).mem ha))

/-- **What one search keeps is kept by searching from some nodes in turn.** -/
theorem of_finishAll {g : Digraph α} {P : List α → List α → Prop}
    (hstep : ∀ {a unseen finished unseen' finished'}, P unseen finished →
      g.finish unseen [a] finished = .ok (unseen', finished') → P unseen' finished')
    {nodes unseen finished order : List α} (hP : P unseen finished)
    (h : g.finishAll nodes unseen finished = .ok order) : ∃ left, P left order := by
  induction nodes generalizing unseen finished with
  | nil =>
    obtain rfl : finished = order := by simpa [finishAll] using h
    exact ⟨unseen, hP⟩
  | cons b rest ih =>
    unfold finishAll at h
    split at h
    · cases h
    · rename_i hb
      exact ih (hstep hP hb) h

/-- No node is finished twice. -/
theorem nodup_of_finishAll {g : Digraph α} {nodes unseen finished order : List α}
    (h : g.finishAll nodes unseen finished = .ok order) (hn : finished.Nodup) :
    order.Nodup := by
  obtain ⟨-, hn⟩ := of_finishAll (P := fun _ finished => finished.Nodup)
    (fun hn hfound => nodup_of_finish hfound hn) hn h
  exact hn

/-- No edge leads backwards in a list exactly when the predecessors of every node
stand before it. -/
theorem backwardEdge?_eq_none_iff {g : Digraph α} {before order : List α} :
    g.backwardEdge? before order = none ↔
      ∀ l a r, order = l ++ a :: r → ∀ p, (p, a) ∈ g.edges → p = a ∨ p ∈ l ∨ p ∈ before := by
  induction order generalizing before with
  | nil =>
    refine iff_of_true rfl fun l a r h => ?_
    exact absurd h (by simp)
  | cons b rest ih =>
    -- The check of the head, without the filter and the last of what is left.
    have hpred : ((g.predecessors b).filter (· ∉ b :: before)).getLast? = none ↔
        ∀ p, (p, b) ∈ g.edges → p = b ∨ p ∈ before := by
      rw [List.getLast?_eq_none_iff, List.filter_eq_nil_iff]
      simp only [mem_predecessors, decide_eq_true_eq, not_not, List.mem_cons]
    unfold backwardEdge?
    split
    · rename_i c hc
      refine iff_of_false (Option.some_ne_none c) fun h => ?_
      rw [hpred.2 fun p hp => (h [] b rest rfl p hp).imp_right fun h =>
        h.resolve_left List.not_mem_nil] at hc
      exact absurd hc.symm (Option.some_ne_none c)
    · rename_i hnone
      have hb := hpred.1 hnone
      rw [ih]
      -- A node of the rest has the head before it, which stands in `l` or, for the recursion, in
      -- `before`.
      constructor
      · intro h l a r hl p hp
        cases l with
        | nil =>
          obtain ⟨rfl, rfl⟩ : b = a ∧ rest = r := by simpa using hl
          exact (hb p hp).imp_right .inr
        | cons c l =>
          obtain ⟨rfl, hrest⟩ : b = c ∧ rest = l ++ a :: r := by simpa using hl
          rcases h l a r hrest p hp with h | h | h
          · exact .inl h
          · exact .inr (.inl (List.mem_cons_of_mem _ h))
          · rcases List.mem_cons.1 h with rfl | h
            · exact .inr (.inl List.mem_cons_self)
            · exact .inr (.inr h)
      · intro h l a r hl p hp
        rcases h (b :: l) a r (by rw [hl]; rfl) p hp with h | h | h
        · exact .inl h
        · rcases List.mem_cons.1 h with rfl | h
          · exact .inr (.inr List.mem_cons_self)
          · exact .inr (.inl h)
        · exact .inr (.inr (List.mem_cons_of_mem _ h))

/-- **What a topological order holds**: all nodes and nothing else, each once,
and before each of them its predecessors. -/
theorem toposort_ok {g : Digraph α} {order : List α} (h : g.toposort = .ok order) :
    (∀ a, a ∈ order ↔ a ∈ g.nodes) ∧ order.Nodup ∧
      ∀ l a r, order = l ++ a :: r → ∀ p, (p, a) ∈ g.edges → p = a ∨ p ∈ l := by
  unfold toposort at h
  split at h
  · cases h
  · rename_i found hfound
    split at h
    · cases h
    · rename_i hback
      obtain rfl : found = order := by simpa using h
      obtain ⟨hall, honly⟩ := mem_of_finishAll hfound
      refine ⟨fun a => ⟨fun ha => ?_, fun ha => hall a (.inr ha)⟩,
        nodup_of_finishAll hfound List.nodup_nil, fun l a r hl p hp => ?_⟩
      · rcases honly a ha with ha | ha | ha
        · exact absurd ha List.not_mem_nil
        · exact ha
        · exact ha
      · exact (backwardEdge?_eq_none_iff.1 hback l a r hl p hp).imp_right fun h =>
          h.resolve_right List.not_mem_nil

/-- Places in a topological order grow along every edge between two nodes. -/
theorem idxOf_lt_of_toposort {g : Digraph α} {order : List α} (h : g.toposort = .ok order)
    {p a : α} (he : (p, a) ∈ g.edges) (ha : a ∈ g.nodes) (hpa : p ≠ a) :
    order.idxOf p < order.idxOf a := by
  obtain ⟨hmem, -, hbefore⟩ := toposort_ok h
  obtain ⟨l, r, hl, hal⟩ := List.eq_append_cons_of_mem ((hmem a).2 ha)
  have hp : p ∈ l := (hbefore l a r hl p he).resolve_left hpa
  rw [hl, List.idxOf_append_of_mem hp, List.idxOf_append_of_notMem hal, List.idxOf_cons_self]
  exact List.idxOf_lt_length_of_mem hp

/-- The nodes of a searched graph have no edge to themselves. -/
theorem no_loop_of_finishAll {g : Digraph α} {nodes unseen finished order : List α}
    (h : g.finishAll nodes unseen finished = .ok order) {a : α} (ha : a ∈ unseen)
    (hn : a ∈ nodes) : (a, a) ∉ g.edges := by
  induction nodes generalizing unseen finished with
  | nil => exact absurd hn List.not_mem_nil
  | cons b rest ih =>
    unfold finishAll at h
    split at h
    · cases h
    · rename_i u f hb
      by_cases hu : a ∈ u
      · rcases List.mem_cons.1 hn with rfl | hn
        · exact no_loop_of_finish hb ha (.inr List.mem_cons_self)
        · exact ih h hu hn
      · exact no_loop_of_finish hb ha (.inl hu)

end Digraph

end IncrementalBuild
