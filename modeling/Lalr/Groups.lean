import Lalr.Keyed

/-!
# Lalr.Groups

A partition into groups that can only be joined.  Elements are linked to parents, and the end of the
chain of parents represents the group.  An element without a link is alone in its group, or
represents it.
-/

namespace Lalr

/-- A partition, as links from elements to others of their group. -/
structure Groups (α : Type) where
  parents : Keyed α α

namespace Groups

variable {α : Type} [DecidableEq α]

instance : EmptyCollection (Groups α) := ⟨⟨∅⟩⟩

instance : Inhabited (Groups α) := ⟨∅⟩

/-- Follow at most `fuel` links; the elements on the way come first, then the last one reached. -/
def climb (links : Keyed α α) : Nat → α → List α × α
  | 0, x => ([], x)
  | fuel + 1, x =>
    match links.get? x with
    | none => ([], x)
    | some parent =>
      let (way, top) := climb links fuel parent
      (x :: way, top)

/-- The elements below the representative of an element's group, and the representative.  Links
form no cycle, so there are no more steps than links. -/
def chain (g : Groups α) (x : α) : List α × α := climb g.parents g.parents.size x

/-- The representative of an element's group. -/
def root (g : Groups α) (x : α) : α := (g.chain x).2

/-- Find the representative, and link everything on the way to it directly. -/
def find (g : Groups α) (x : α) : α × Groups α :=
  let (way, top) := g.chain x
  (top, ⟨way.foldl (fun links y => links.set y top) g.parents⟩)

/-- Join two groups; the representative of the first represents them both. -/
def union (g : Groups α) (x y : α) : Groups α :=
  let (a, g) := g.find x
  let (b, g) := g.find y
  if a = b then g else ⟨g.parents.set b a⟩

end Groups

end Lalr
