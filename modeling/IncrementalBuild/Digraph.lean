/-!
# Directed graphs

A finite directed graph as the list of its nodes and the list of its edges,
both in the order in which they were added. The order matters: a search visits
successors and predecessors in the order of their edges, and where a graph has
several cycles that order decides which node is named.
-/

namespace IncrementalBuild

/-- A finite directed graph, nodes and edges in the order of their addition. -/
structure Digraph (α : Type) where
  nodes : List α
  edges : List (α × α)

namespace Digraph

variable {α : Type} [DecidableEq α]

def empty : Digraph α := ⟨[], []⟩

/-- Adds a node, unless it is there. -/
def addNode (g : Digraph α) (a : α) : Digraph α :=
  if a ∈ g.nodes then g else { g with nodes := g.nodes ++ [a] }

/-- Adds an edge and the nodes at its ends, unless they are there. -/
def addEdge (g : Digraph α) (a b : α) : Digraph α :=
  let g := (g.addNode a).addNode b
  if (a, b) ∈ g.edges then g else { g with edges := g.edges ++ [(a, b)] }

/-- The nodes that an edge from `a` leads to. -/
def successors (g : Digraph α) (a : α) : List α :=
  (g.edges.filter (fun e => e.1 = a)).map (·.2)

/-- The nodes from which an edge leads to `a`. -/
def predecessors (g : Digraph α) (a : α) : List α :=
  (g.edges.filter (fun e => e.2 = a)).map (·.1)

/-- **Successors and edges say the same.** -/
@[simp] theorem mem_successors {g : Digraph α} {a b : α} :
    b ∈ g.successors a ↔ (a, b) ∈ g.edges := by
  simp [successors]

@[simp] theorem mem_predecessors {g : Digraph α} {a b : α} :
    a ∈ g.predecessors b ↔ (a, b) ∈ g.edges := by
  simp [predecessors]

end Digraph

/-- How much a search has left to do at most, when it has not met some elements
and meeting one of them puts as many elements on its stack as that one costs. -/
def searchCost {α : Type} (cost : α → Nat) (unseen : List α) : Nat :=
  unseen.foldr (fun a n => cost a + 1 + n) 0

theorem searchCost_erase {α : Type} [DecidableEq α] {cost : α → Nat} {unseen : List α} {a : α}
    (ha : a ∈ unseen) :
    searchCost cost (unseen.erase a) + (cost a + 1) = searchCost cost unseen := by
  induction unseen with
  | nil => exact absurd ha List.not_mem_nil
  | cons b rest ih =>
    by_cases hb : b = a
    · subst hb
      rw [List.erase_cons_head]
      exact Nat.add_comm _ _
    · rw [List.erase_cons_tail (by simpa using hb)]
      have := ih ((List.mem_cons.1 ha).resolve_left (Ne.symm hb))
      show cost b + 1 + searchCost cost (rest.erase a) + (cost a + 1)
        = cost b + 1 + searchCost cost rest
      omega

/-- A search that meets an element has less left to meet, by more than what it
puts on the stack for it. -/
theorem searchCost_erase_lt {α : Type} [DecidableEq α] {cost : α → Nat} {unseen more : List α}
    {a : α} (ha : a ∈ unseen) (hmore : more.length ≤ cost a) (rest : List α) :
    searchCost cost (unseen.erase a) + (more ++ rest).length
      < searchCost cost unseen + rest.length := by
  have hcost := @searchCost_erase α _ cost unseen a ha
  rw [List.length_append]
  omega

/-- The elements that a search meets, each once and in the order in which it
is taken from the stack. The search starts from the stack, goes on to
`next a` from every `a` it meets, and stays within `unseen`. -/
def reachable {α : Type} [DecidableEq α] (next : α → List α) (unseen stack : List α) :
    List α :=
  match stack with
  | [] => []
  | a :: rest =>
    if _h : a ∈ unseen then a :: reachable next (unseen.erase a) (next a ++ rest)
    else reachable next unseen rest
  termination_by searchCost (fun a => (next a).length) unseen + stack.length
  decreasing_by
    · exact Nat.lt_succ_of_lt (searchCost_erase_lt _h (Nat.le_refl _) rest)
    · exact Nat.lt_succ_self _

end IncrementalBuild
