import Lalr.Parser.Basic

/-!
# Lalr.Parser.Tree

Parse trees: a node for every reduction, and a leaf for every token.
-/

namespace Lalr

/-- A parse tree; a node holds the index of its production. -/
inductive Tree where
  | leaf (token : Token)
  | node (rule : Nat) (children : List Tree)
deriving Repr, Inhabited

/-- The semantics that builds trees, for a number of productions. -/
def Semantics.tree (rules : Nat) : Semantics Id Tree where
  ofToken := .leaf
  actions := (List.range rules).map fun i children => .node i children

end Lalr
