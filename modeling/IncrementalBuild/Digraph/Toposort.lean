import IncrementalBuild.Digraph

/-!
# Topological order

A depth-first search lists the nodes of a graph so that every node comes
before its successors, if the graph allows it. A second pass over the list
looks for an edge that leads backwards: a graph without cycles has none, and
in a graph with a cycle the node where the first such edge begins is named.
-/

namespace IncrementalBuild.Digraph

variable {α : Type} [DecidableEq α]

/-- Searches depth first from the stack. A node is taken from the stack when
it is met for the second time, that is once everything behind it is finished;
`finished` holds those nodes, the last one first. A node with an edge to
itself ends the search. -/
def finish (g : Digraph α) (unseen stack finished : List α) :
    Except α (List α × List α) :=
  match stack with
  | [] => .ok (unseen, finished)
  | a :: rest =>
    if _h : a ∈ unseen then
      let next := g.successors a
      if a ∈ next then .error a
      else
        let unseen' := unseen.erase a
        finish g unseen' ((next.filter (· ∈ unseen')).reverse ++ a :: rest) finished
    else finish g unseen rest (if a ∈ finished then finished else a :: finished)
  termination_by searchCost (fun a => (g.successors a).length) unseen + stack.length
  decreasing_by
    · refine searchCost_erase_lt _h ?_ (a :: rest)
      rw [List.length_reverse]
      exact List.length_filter_le ..
    · exact Nat.lt_succ_self _

/-- Searches from each of some nodes in turn. -/
def finishAll (g : Digraph α) : List α → List α → List α → Except α (List α)
  | [], _, finished => .ok finished
  | a :: rest, unseen, finished =>
    match g.finish unseen [a] finished with
    | .error node => .error node
    | .ok (unseen, finished) => finishAll g rest unseen finished

/-- The beginning of the first edge that leads backwards in a list, where
`before` holds the nodes passed already. -/
def backwardEdge? (g : Digraph α) (before : List α) : List α → Option α
  | [] => none
  | a :: rest =>
    match ((g.predecessors a).filter (· ∉ a :: before)).getLast? with
    | some b => some b
    | none => backwardEdge? g (a :: before) rest

/-- **The nodes in topological order**, or a node that lies on a cycle. -/
def toposort (g : Digraph α) : Except α (List α) :=
  match g.finishAll g.nodes g.nodes [] with
  | .error node => .error node
  | .ok order =>
    match g.backwardEdge? [] order with
    | some node => .error node
    | none => .ok order

end IncrementalBuild.Digraph
