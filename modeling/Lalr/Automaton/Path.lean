import Lalr.Automaton.Basic

/-!
# Lalr.Automaton.Path

Shortest paths: the symbols that lead from state 0 to a state.  A state number alone tells a reader
little, so conflicts are reported with such a path.
-/

namespace Lalr

namespace Transitions

/-- Why no path to a state was found. -/
inductive PathError where
  /-- No path leads to the state. -/
  | unreachable (target : Int)
  /-- A transition leads to a state that has no row. -/
  | missingState (state : Nat)
deriving DecidableEq, Repr

/-- The wording of a failed search. -/
def PathError.message : PathError → String
  | .unreachable target => "Unable to find a path to state " ++ toString target
  | .missingState state => "There is no state " ++ toString state

/-- Breadth-first search: `unvisited` holds the states whose transitions have not been followed,
and `queue` the states to look at, each with the symbols that lead there. -/
def searchFrom (rows : List Transitions) (target : Int) (unvisited : List Nat)
    (queue : List (Nat × List Symbol)) : Except PathError (List Symbol) :=
  match queue with
  | [] => .error (.unreachable target)
  | (state, path) :: rest =>
    if (state : Int) = target then .ok path
    else
      match rows[state]? with
      | none => .error (.missingState state)
      | some row =>
        if _h : state ∈ unvisited then
          searchFrom rows target (unvisited.erase state)
            (rest ++ row.entries.map fun e => (e.2, path ++ [e.1]))
        else searchFrom rows target unvisited rest
termination_by (unvisited.length, queue.length)
decreasing_by
  · refine Prod.Lex.left _ _ ?_
    have := List.length_pos_of_mem _h
    rw [List.length_erase_of_mem _h]; omega
  · exact Prod.Lex.right _ (by simp)

/-- A shortest string of symbols that leads from state 0 to the target.  A target below zero is no
state, so no path leads to it. -/
def pathTo? (rows : List Transitions) (target : Int) : Except PathError (List Symbol) :=
  searchFrom rows target (List.range rows.length) [(0, [])]

end Transitions

end Lalr
