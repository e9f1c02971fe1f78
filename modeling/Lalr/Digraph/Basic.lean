import Lalr.Keyed

/-!
# Lalr.Digraph.Basic

Finite directed graphs, given by the edges of each node in order of insertion.
-/

namespace Lalr

/-- A directed graph: the targets of every node that has some. -/
abbrev Digraph (α : Type) := Keyed α (List α)

namespace Digraph

variable {α : Type} [DecidableEq α]

/-- The nodes that a node has edges to. -/
def targets (g : Digraph α) (x : α) : List α := (g.get? x).getD []

/-- Add an edge, if it is not there. -/
def addEdge (g : Digraph α) (x y : α) : Digraph α :=
  g.update x [] fun ys => if y ∈ ys then ys else ys ++ [y]

/-- Every node that has an edge or is the target of one; a node may be listed repeatedly. -/
def nodes (g : Digraph α) : List α := g.entries.flatMap fun e => e.1 :: e.2

/-- There is an edge between two nodes. -/
def HasEdge (g : Digraph α) (x y : α) : Prop := y ∈ g.targets x

instance (g : Digraph α) (x y : α) : Decidable (g.HasEdge x y) :=
  inferInstanceAs (Decidable (y ∈ g.targets x))

/-! ## depth-first search -/

/-- A node on the path of a depth-first search, with the targets that are still to be tried. -/
structure Frame (α : Type) where
  node : α
  untried : List α

/-- What a search has still to do on its path and at its roots. -/
def work (path : List (Frame α)) (roots : List α) : Nat :=
  path.foldr (fun f n => f.untried.length + 1 + n) roots.length

/-- What a search can have to do at nodes that it has not entered. -/
def reserve (g : Digraph α) (unvisited : List α) : Nat :=
  unvisited.foldr (fun x n => (g.targets x).length + 1 + n) 0

/-- The nodes of a list without one of them. -/
def drop (xs : List α) (x : α) : List α := xs.filter (· ≠ x)

theorem length_drop_lt {xs : List α} {x : α} (h : x ∈ xs) : (drop xs x).length < xs.length := by
  induction xs with
  | nil => simp at h
  | cons y ys ih =>
    have hle : (drop ys x).length ≤ ys.length := List.length_filter_le _ _
    by_cases hy : y = x
    · have hd : drop (y :: ys) x = drop ys x := by simp [drop, hy]
      rw [hd, List.length_cons]; omega
    · have hx : x ∈ ys := (List.mem_cons.1 h).resolve_left fun e => hy e.symm
      have hd : drop (y :: ys) x = y :: drop ys x := by simp [drop, hy]
      have := ih hx
      rw [hd, List.length_cons, List.length_cons]; omega

theorem reserve_drop_le (g : Digraph α) (xs : List α) (x : α) :
    reserve g (drop xs x) ≤ reserve g xs := by
  induction xs with
  | nil => exact Nat.le_refl _
  | cons y ys ih => by_cases hy : y = x <;> simp [drop, reserve, hy] at ih ⊢ <;> omega

/-- Entering a node takes what is to be done there off the reserve. -/
theorem reserve_drop_lt {g : Digraph α} {xs : List α} {x : α} (h : x ∈ xs) :
    reserve g (drop xs x) + (g.targets x).length < reserve g xs := by
  induction xs with
  | nil => simp at h
  | cons y ys ih =>
    by_cases hy : y = x
    · have hle := reserve_drop_le g ys x
      simp [drop, reserve, hy] at hle ⊢; omega
    · have := ih ((List.mem_cons.1 h).resolve_left fun e => hy e.symm)
      simp [drop, reserve, hy] at this ⊢; omega

end Digraph

end Lalr
