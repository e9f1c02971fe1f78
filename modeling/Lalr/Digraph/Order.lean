import Lalr.Digraph.Basic

/-!
# Lalr.Digraph.Order

The order in which an acyclic graph is resolved: every node comes after all nodes it has edges to.
-/

namespace Lalr.Digraph

variable {α : Type} [DecidableEq α]

/-- Search on: `unvisited` holds the nodes never entered, `path` the current path with its last node
first, and `roots` the nodes from which to start when the path is done.  A node is listed when it is
left. -/
def leaveOrder (g : Digraph α) (unvisited : List α) (path : List (Frame α)) (roots : List α) :
    List α :=
  match path, roots with
  | [], [] => []
  | [], root :: roots =>
    if _h : root ∈ unvisited then
      leaveOrder g (drop unvisited root) [⟨root, g.targets root⟩] roots
    else leaveOrder g unvisited [] roots
  | ⟨x, []⟩ :: path, roots => x :: leaveOrder g unvisited path roots
  | ⟨x, y :: untried⟩ :: path, roots =>
    if _h : y ∈ unvisited then
      leaveOrder g (drop unvisited y) (⟨y, g.targets y⟩ :: ⟨x, untried⟩ :: path) roots
    else leaveOrder g unvisited (⟨x, untried⟩ :: path) roots
termination_by work path roots + reserve g unvisited
decreasing_by
  · have := reserve_drop_lt (g := g) _h
    simp only [work, List.foldr_cons, List.foldr_nil, List.length_cons]; omega
  · simp only [work, List.foldr_nil, List.length_cons]; omega
  · simp only [work, List.foldr_cons, List.length_nil]; omega
  · have := reserve_drop_lt (g := g) _h
    simp only [work, List.foldr_cons, List.length_cons]; omega
  · simp only [work, List.foldr_cons, List.length_cons]; omega

/-- All nodes of the graph, each after the nodes it has edges to. -/
def postOrder (g : Digraph α) : List α := leaveOrder g g.nodes [] g.keys

end Lalr.Digraph
