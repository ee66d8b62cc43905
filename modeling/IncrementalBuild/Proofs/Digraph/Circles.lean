import IncrementalBuild.Proofs.Digraph

/-!
# Circles in directed graphs

A topological order exists exactly where no way leads from a node back to it, and a node that is
named in its place lies on such a circle.

The first pass leaves a **trail**: what was met and is not finished stands on the stack, and leads
to everything above it. A node is finished when it comes to the top once more, so a successor that
is not finished by then was met before, stands below and leads there. An edge back in the list of
the finished nodes therefore closes a circle, and the second pass looks for nothing else.
-/

namespace IncrementalBuild

variable {α : Type} [DecidableEq α]

namespace Digraph

/-- Whether an edge leads from one node to another. -/
def Edge (g : Digraph α) (a b : α) : Prop := (a, b) ∈ g.edges

/-- Whether no way leads from a node back to it. -/
def Acyclic (g : Digraph α) : Prop := ∀ a, ¬ Relation.TransGen g.Edge a a

/-- A number for each node that grows along every edge. -/
def Ranked (g : Digraph α) (rank : α → Nat) : Prop := ∀ e ∈ g.edges, rank e.1 < rank e.2

/-! ## The trail of a search -/

section Trail

variable {g : Digraph α} {unseen stack finished unseen' finished' : List α}

/-- **A list without edges back, but for circles**: a successor of a node stands behind it, or
leads back to it. -/
def Linked (g : Digraph α) : List α → Prop
  | [] => True
  | a :: rest => (∀ b, g.Edge a b → b ∈ rest ∨ Relation.TransGen g.Edge b a) ∧ g.Linked rest

omit [DecidableEq α] in
theorem Linked.mem_or_of_edge {l r : List α} {a b : α} (h : g.Linked (l ++ a :: r))
    (he : g.Edge a b) : b ∈ r ∨ Relation.TransGen g.Edge b a := by
  induction l with
  | nil => exact h.1 b he
  | cons c l ih => exact ih h.2

omit [DecidableEq α] in
/-- An edge back, in a list that holds each node once, is answered by a way forth. -/
theorem Linked.leads_of_edge_back {l r : List α} {a b : α} (h : g.Linked (l ++ a :: r))
    (hn : (l ++ a :: r).Nodup) (hb : b ∈ r) (he : g.Edge b a) : Relation.TransGen g.Edge a b := by
  obtain ⟨s, t, rfl⟩ := List.append_of_mem hb
  have h : g.Linked ((l ++ a :: s) ++ b :: t) := by simpa using h
  refine (h.mem_or_of_edge he).resolve_left fun ha => ?_
  have hnot : a ∉ s ++ b :: t := (List.nodup_cons.1 (List.nodup_append.1 hn).2.1).1
  exact hnot (List.mem_append_right s (List.mem_cons_of_mem b ha))

/-- **The trail of a search**: a node that is met and not finished is on the stack, above it stands
only what it leads to, and its successors stand there as far as they are unseen. -/
structure Trail (g : Digraph α) (unseen stack finished : List α) : Prop where
  nodup : unseen.Nodup
  above : ∀ b ∈ g.nodes, b ∉ unseen → b ∉ finished → ∃ s t, stack = s ++ b :: t ∧ b ∉ s ∧
    (∀ c ∈ s, Relation.TransGen g.Edge b c) ∧ ∀ c, g.Edge b c → c ∈ unseen → c ∈ s
  linked : g.Linked finished

omit [DecidableEq α] in
/-- A node below the top of the stack leads to the top. -/
theorem Trail.above_of_ne {a : α} {rest : List α} (h : g.Trail unseen (a :: rest) finished) {b : α}
    (hb : b ∈ g.nodes) (hba : b ≠ a) (hu : b ∉ unseen) (hf : b ∉ finished) :
    ∃ s t, rest = s ++ b :: t ∧ b ∉ s ∧
      Relation.TransGen g.Edge b a ∧ (∀ c ∈ s, Relation.TransGen g.Edge b c) ∧
      ∀ c, g.Edge b c → c ∈ unseen → c = a ∨ c ∈ s := by
  obtain ⟨s, t, hstack, hnot, hreach, hnext⟩ := h.above b hb hu hf
  cases s with
  | nil => exact absurd (List.cons.inj hstack).1.symm hba
  | cons d s =>
    obtain ⟨rfl, hrest⟩ := List.cons.inj hstack
    exact ⟨s, t, hrest, fun hb => hnot (List.mem_cons_of_mem _ hb), hreach a List.mem_cons_self,
      fun c hc => hreach c (List.mem_cons_of_mem _ hc),
      fun c he hc => List.mem_cons.1 (hnext c he hc)⟩

/-- Meeting a node keeps the trail: its unseen successors come above it. -/
theorem Trail.meet {a : α} {rest : List α} (h : g.Trail unseen (a :: rest) finished)
    (ha : a ∈ unseen) :
    g.Trail (unseen.erase a) (((g.successors a).filter (· ∈ unseen.erase a)).reverse ++ a :: rest)
      finished := by
  have hchild {c : α} : c ∈ ((g.successors a).filter (· ∈ unseen.erase a)).reverse ↔
      g.Edge a c ∧ c ∈ unseen.erase a := by
    rw [List.mem_reverse, List.mem_filter, mem_successors, decide_eq_true_eq]
    rfl
  refine ⟨h.nodup.erase a, fun b hb hu hf => ?_, h.linked⟩
  by_cases hba : b = a
  · subst hba
    exact ⟨_, rest, rfl, fun hb => h.nodup.not_mem_erase (hchild.1 hb).2,
      fun c hc => .single (hchild.1 hc).1, fun c he hc => hchild.2 ⟨he, hc⟩⟩
  · have hu : b ∉ unseen := fun hb => hu ((List.mem_erase_of_ne hba).2 hb)
    obtain ⟨s, t, rfl, hnot, hreach, hreaches, hnext⟩ := h.above_of_ne hb hba hu hf
    refine ⟨_ ++ a :: s, t, by rw [List.append_assoc]; rfl, fun hb => ?_, fun c hc => ?_,
      fun c he hc => ?_⟩
    · rcases List.mem_append.1 hb with hb | hb
      · exact hu (List.mem_of_mem_erase (hchild.1 hb).2)
      · exact (List.mem_cons.1 hb).elim hba hnot
    · rcases List.mem_append.1 hc with hc | hc
      · exact hreach.tail (hchild.1 hc).1
      · exact (List.mem_cons.1 hc).elim (fun e => e ▸ hreach) (hreaches c)
    · exact List.mem_append_right _ (List.mem_cons.2 (hnext c he (List.mem_of_mem_erase hc)))

/-- Taking a node that was met from the stack keeps the trail, and the node is finished then: of
its successors those that are not finished were met before it. -/
theorem Trail.finish (hg : g.Closed) {a : α} {rest : List α}
    (h : g.Trail unseen (a :: rest) finished) (ha : a ∉ unseen) :
    g.Trail unseen rest (if a ∈ finished then finished else a :: finished) := by
  refine ⟨h.nodup, fun b hb hu hf => ?_, ?_⟩
  · have hf : b ∉ finished ∧ b ≠ a := by
      split at hf
      · exact ⟨hf, fun e => hf (e ▸ ‹_›)⟩
      · rw [List.mem_cons, not_or] at hf
        exact ⟨hf.2, hf.1⟩
    obtain ⟨s, t, hrest, hnot, -, hreaches, hnext⟩ := h.above_of_ne hb hf.2 hu hf.1
    exact ⟨s, t, hrest, hnot, hreaches, fun c he hc =>
      (hnext c he hc).resolve_left fun e => ha (e ▸ hc)⟩
  · split
    · exact h.linked
    · rename_i hnew
      refine ⟨fun b he => ?_, h.linked⟩
      by_cases hba : b = a
      · subst hba
        exact .inr (.single he)
      have hu : b ∉ unseen := by
        obtain ⟨s, t, hstack, hnot, -, hnext⟩ := h.above a (hg _ he).1 ha hnew
        cases s with
        | nil => exact fun hb => List.not_mem_nil (hnext b he hb)
        | cons d s => exact absurd ((List.cons.inj hstack).1 ▸ List.mem_cons_self) hnot
      by_cases hbf : b ∈ finished
      · exact .inl hbf
      · obtain ⟨s, t, -, -, hreach, -⟩ := h.above_of_ne (hg _ he).2 hba hu hbf
        exact .inr hreach

/-- **A search leaves nothing met and unfinished**, and its list without edges back. -/
theorem Trail.of_finish (hg : g.Closed) (hs : g.Trail unseen stack finished)
    (h : g.finish unseen stack finished = .ok (unseen', finished')) :
    g.Trail unseen' [] finished' := by
  fun_induction Digraph.finish g unseen stack finished with
  | case1 unseen finished =>
    obtain ⟨rfl, rfl⟩ : unseen = unseen' ∧ finished = finished' := by simpa using h
    exact hs
  | case2 => cases h
  | case3 unseen finished a rest ha next hself unseen₁ ih => exact ih (hs.meet ha) h
  | case4 unseen finished a rest ha ih => exact ih (hs.finish hg ha) h

/-- What ends a search has an edge to itself. -/
theorem loop_of_finish_error {a : α} (h : g.finish unseen stack finished = .error a) :
    g.Edge a a := by
  fun_induction Digraph.finish g unseen stack finished with
  | case1 => cases h
  | case2 unseen finished b rest hb next hself =>
    obtain rfl : b = a := by simpa using h
    exact mem_successors.1 hself
  | case3 unseen finished b rest hb next hself unseen₁ ih => exact ih h
  | case4 unseen finished b rest hb ih => exact ih h

/-- Nothing is left on the stack of a search that is over. -/
theorem Trail.mem_finished (h : g.Trail unseen [] finished) {a : α} (hn : a ∈ g.nodes)
    (ha : a ∉ unseen) : a ∈ finished := by
  by_contra hf
  obtain ⟨s, t, hnil, -⟩ := h.above a hn ha hf
  exact absurd hnil (by simp)

/-- Where nothing is on the stack, any node can be searched from. -/
theorem Trail.push (h : g.Trail unseen [] finished) (stack : List α) :
    g.Trail unseen stack finished :=
  ⟨h.nodup, fun _ hb hu hf => absurd (h.mem_finished hb hu) hf, h.linked⟩

/-- Searching from some nodes in turn ends at an edge from a node to itself, or leaves a list
without edges back. -/
theorem linked_of_finishAll (hg : g.Closed) {nodes order : List α} (hs : g.Trail unseen [] finished)
    (h : g.finishAll nodes unseen finished = .ok order) : g.Linked order := by
  obtain ⟨left, hleft⟩ := of_finishAll (P := fun unseen finished => g.Trail unseen [] finished)
    (fun hs hfound => (hs.push [_]).of_finish hg hfound) hs h
  exact hleft.linked

theorem loop_of_finishAll_error {nodes : List α} {a : α}
    (h : g.finishAll nodes unseen finished = .error a) : g.Edge a a := by
  induction nodes generalizing unseen finished with
  | nil => cases h
  | cons b rest ih =>
    unfold finishAll at h
    split at h
    · rename_i hfound
      obtain rfl := Except.error.inj h
      exact loop_of_finish_error hfound
    · exact ih h

/-- The node where an edge leads back in a list stands behind the end of that edge. -/
theorem exists_of_backwardEdge? {before order : List α} {b : α}
    (h : g.backwardEdge? before order = some b) :
    ∃ l a r, order = l ++ a :: r ∧ g.Edge b a ∧ b ≠ a ∧ b ∉ l ∧ b ∉ before := by
  induction order generalizing before with
  | nil => cases h
  | cons c rest ih =>
    unfold backwardEdge? at h
    split at h
    · rename_i d hd
      obtain rfl := Option.some.inj h
      obtain ⟨hedge, hnot⟩ := List.mem_filter.1 (List.mem_of_getLast? hd)
      rw [decide_eq_true_eq, List.mem_cons, not_or] at hnot
      exact ⟨[], c, rest, rfl, mem_predecessors.1 hedge, hnot.1, List.not_mem_nil, hnot.2⟩
    · obtain ⟨l, a, r, rfl, hedge, hne, hl, hbefore⟩ := ih h
      rw [List.mem_cons, not_or] at hbefore
      exact ⟨c :: l, a, r, rfl, hedge, hne, fun hb => (List.mem_cons.1 hb).elim hbefore.1 hl,
        hbefore.2⟩

/-- **The node that is named where there is no topological order lies on a circle.** It has an edge
to itself, or one to a node that the search had finished after it: that node was met already when
the search came to the named one, and leads there. -/
theorem onCircle_of_toposort_eq_error {a : α} (hg : g.Closed) (hn : g.nodes.Nodup)
    (h : g.toposort = .error a) : Relation.TransGen g.Edge a a := by
  have hstart : g.Trail g.nodes [] [] := ⟨hn, fun b hb hu => absurd hb hu, trivial⟩
  unfold toposort at h
  split at h
  · rename_i hloop
    obtain rfl := Except.error.inj h
    exact .single (loop_of_finishAll_error hloop)
  · rename_i order hfound
    split at h
    · rename_i b hback
      obtain rfl := Except.error.inj h
      obtain ⟨l, c, r, rfl, he, hne, hl, -⟩ := exists_of_backwardEdge? hback
      have hb : b ∈ l ++ c :: r := (mem_of_finishAll hfound).1 b (.inr (hg _ he).1)
      have hb : b ∈ r :=
        (List.mem_cons.1 ((List.mem_append.1 hb).resolve_left hl)).resolve_left hne
      exact .head he ((linked_of_finishAll hg hstart hfound).leads_of_edge_back
        (nodup_of_finishAll hfound List.nodup_nil) hb he)
    · cases h

end Trail

/-! ## When a topological order exists -/

/-- Without a circle the number of nodes that lead to a node grows along every
edge. -/
theorem exists_ranked_of_acyclic {g : Digraph α} (hg : g.Closed) (h : g.Acyclic) :
    ∃ rank, g.Ranked rank := by
  classical
  let behind (a : α) : Finset α := g.nodes.toFinset.filter (Relation.TransGen g.Edge · a)
  refine ⟨fun a => (behind a).card, fun (a, b) he => Finset.card_lt_card ?_⟩
  refine (Finset.ssubset_iff_of_subset fun c hc => ?_).2 ⟨a, ?_, ?_⟩
  · obtain ⟨hc, hca⟩ := Finset.mem_filter.1 hc
    exact Finset.mem_filter.2 ⟨hc, hca.tail he⟩
  · exact Finset.mem_filter.2 ⟨List.mem_toFinset.2 (hg _ he).1, .single he⟩
  · exact fun ha => h a (Finset.mem_filter.1 ha).2

omit [DecidableEq α] in
/-- Ranks that grow along the edges leave no circle. -/
theorem Ranked.acyclic {g : Digraph α} {rank : α → Nat} (h : g.Ranked rank) : g.Acyclic := by
  have grows : ∀ {a b : α}, Relation.TransGen g.Edge a b → rank a < rank b := by
    intro a b hab
    induction hab with
    | single he => exact h _ he
    | tail _ he ih => exact ih.trans (h _ he)
  exact fun a ha => Nat.lt_irrefl _ (grows ha)

/-- **Places in a topological order grow along every edge**, as no node has an edge to
itself. -/
theorem ranked_of_toposort {g : Digraph α} {order : List α} (hg : g.Closed)
    (h : g.toposort = .ok order) : g.Ranked (order.idxOf ·) := by
  intro (a, b) he
  refine idxOf_lt_of_toposort h he (hg _ he).2 fun hab => ?_
  unfold toposort at h
  split at h
  · cases h
  · rename_i hfound
    have hab : a = b := hab
    subst hab
    exact no_loop_of_finishAll hfound (hg _ he).1 (hg _ he).1 he

/-- **A topological order exists exactly where there is no circle.** -/
theorem exists_toposort_iff_acyclic {g : Digraph α} (hg : g.Closed) (hn : g.nodes.Nodup) :
    (∃ order, g.toposort = .ok order) ↔ g.Acyclic := by
  constructor
  · rintro ⟨order, h⟩
    exact (ranked_of_toposort hg h).acyclic
  · intro h
    cases hsort : g.toposort with
    | ok order => exact ⟨order, rfl⟩
    | error a => exact absurd (onCircle_of_toposort_eq_error hg hn hsort) (h a)

/-- **Where ranks grow along the edges, there is a topological order.** -/
theorem exists_toposort_of_ranked {g : Digraph α} {rank : α → Nat} (hg : g.Closed)
    (hn : g.nodes.Nodup) (hr : g.Ranked rank) : ∃ order, g.toposort = .ok order :=
  (exists_toposort_iff_acyclic hg hn).2 hr.acyclic

/-! ## The second pass -/

/-- The first node that a search meets is the first on its stack that it may visit. -/
theorem head?_reachable {next : α → List α} {unseen stack : List α} :
    (reachable next unseen stack).head? = stack.find? (· ∈ unseen) := by
  fun_induction reachable next unseen stack with
  | case1 => rfl
  | case2 unseen a rest ha ih => rw [List.find?_cons_of_pos (by simpa using ha)]; rfl
  | case3 unseen a rest ha ih => rw [List.find?_cons_of_neg (by simpa using ha), ih]

/-- Searches against the edges from each node of a list in turn, each of them leaving out what was
met before; the second node that one of them meets, the last predecessor first. -/
def secondMet? (g : Digraph α) (unmet : List α) : List α → Option α
  | [] => none
  | a :: rest =>
    let met := reachable (fun b => (g.predecessors b).reverse) unmet [a]
    match met.tail.head? with
    | some b => some b
    | none => secondMet? g (unmet.filter (· ∉ met)) rest

/-- **Looking for an edge back is searching against the edges** until a search meets a second node:
as long as none does, each of them meets the node it starts from and no other. -/
theorem secondMet?_eq_backwardEdge? {g : Digraph α} (hg : g.Closed) {before unmet order : List α}
    (hn : order.Nodup) (hu : unmet.Nodup) (hmem : ∀ a ∈ order, a ∈ unmet)
    (hunmet : ∀ a ∈ g.nodes, a ∈ unmet ↔ a ∉ before) :
    g.secondMet? unmet order = g.backwardEdge? before order := by
  induction order generalizing before unmet with
  | nil => rfl
  | cons a rest ih =>
    obtain ⟨hnot, hrest⟩ := List.nodup_cons.1 hn
    have ha : a ∈ unmet := hmem a List.mem_cons_self
    have hmet : reachable (fun b => (g.predecessors b).reverse) unmet [a]
        = a :: reachable (fun b => (g.predecessors b).reverse) (unmet.erase a)
          ((g.predecessors a).reverse ++ []) := by
      rw [reachable, dif_pos ha]
    have hsecond : (reachable (fun b => (g.predecessors b).reverse) (unmet.erase a)
        ((g.predecessors a).reverse ++ [])).head?
          = ((g.predecessors a).filter (· ∉ a :: before)).getLast? := by
      rw [head?_reachable, List.append_nil, ← List.head?_filter, List.filter_reverse,
        List.head?_reverse]
      refine congrArg List.getLast? (List.filter_congr fun p hp => decide_eq_decide.2 ?_)
      have hp := (hg _ (mem_predecessors.1 hp)).1
      rw [hu.mem_erase_iff, hunmet p hp, List.mem_cons, not_or]
    unfold secondMet? backwardEdge?
    dsimp only
    rw [hmet, List.tail_cons, hsecond]
    cases hback : ((g.predecessors a).filter (· ∉ a :: before)).getLast? with
    | some b => rfl
    | none =>
      rw [hback, List.head?_eq_none_iff] at hsecond
      dsimp only
      rw [hsecond]
      refine ih hrest (hu.filter _) (fun b hb => ?_) fun b hb => ?_
      · refine List.mem_filter.2 ⟨hmem b (List.mem_cons_of_mem _ hb), decide_eq_true ?_⟩
        exact fun hba => hnot (List.mem_singleton.1 hba ▸ hb)
      · rw [List.mem_filter, hunmet b hb, decide_eq_true_eq, List.mem_singleton, List.mem_cons,
          not_or, and_comm]

/-- **The two passes of a topological sort**: a search along the edges, and one against them. -/
theorem toposort_eq {g : Digraph α} (hg : g.Closed) (hn : g.nodes.Nodup) :
    g.toposort = (g.finishAll g.nodes g.nodes []).bind fun order =>
      (g.secondMet? g.nodes order).elim (Except.ok order) Except.error := by
  unfold toposort
  cases h : g.finishAll g.nodes g.nodes [] with
  | error node => rfl
  | ok order =>
    have hmem : ∀ a ∈ order, a ∈ g.nodes := fun a ha =>
      ((mem_of_finishAll h).2 a ha).elim (fun ha => absurd ha List.not_mem_nil)
        fun ha => ha.elim id id
    show _ = (g.secondMet? g.nodes order).elim (Except.ok order) Except.error
    rw [secondMet?_eq_backwardEdge? hg (nodup_of_finishAll h List.nodup_nil) hn hmem
      fun a ha => iff_of_true ha List.not_mem_nil]
    dsimp only
    cases g.backwardEdge? [] order <;> rfl

end Digraph

end IncrementalBuild
