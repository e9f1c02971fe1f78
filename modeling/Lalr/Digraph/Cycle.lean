import Lalr.Digraph.Basic

/-!
# Lalr.Digraph.Cycle

The search for a cycle, depth first from every node in turn.  An edge back to a node on the current
path closes a cycle; a node that has been left behind cannot lie on one.
-/

namespace Lalr.Digraph

variable {α : Type} [DecidableEq α]

/-- Search on: `unvisited` holds the nodes never entered, `path` the current path with its last node
first, and `roots` the nodes from which to start when the path is done. -/
def searchCycle (g : Digraph α) (unvisited : List α) (path : List (Frame α)) (roots : List α) :
    Option (List α) :=
  match path, roots with
  | [], [] => none
  | [], root :: roots =>
    if _h : root ∈ unvisited then
      searchCycle g (drop unvisited root) [⟨root, g.targets root⟩] roots
    else searchCycle g unvisited [] roots
  | ⟨_, []⟩ :: path, roots => searchCycle g unvisited path roots
  | ⟨x, y :: untried⟩ :: path, roots =>
    let onPath := x :: path.map Frame.node
    if y ∈ onPath then some ((onPath.takeWhile (· ≠ y)) ++ [y]).reverse
    else if _h : y ∈ unvisited then
      searchCycle g (drop unvisited y) (⟨y, g.targets y⟩ :: ⟨x, untried⟩ :: path) roots
    else searchCycle g unvisited (⟨x, untried⟩ :: path) roots
termination_by work path roots + reserve g unvisited
decreasing_by
  · have := reserve_drop_lt (g := g) _h
    simp only [work, List.foldr_cons, List.foldr_nil, List.length_cons]; omega
  · simp only [work, List.foldr_nil, List.length_cons]; omega
  · simp only [work, List.foldr_cons, List.length_nil]; omega
  · have := reserve_drop_lt (g := g) _h
    simp only [work, List.foldr_cons, List.length_cons]; omega
  · simp only [work, List.foldr_cons, List.length_cons]; omega

/-- The nodes of a cycle, each with an edge to the next and the last with one to the first; nothing
if the graph has no cycle. -/
def findCycle (g : Digraph α) : Option (List α) := searchCycle g g.nodes [] g.keys

end Lalr.Digraph
