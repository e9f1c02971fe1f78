import Lalr.Parser.Tree
import Lalr.Proofs.Grammar.Derivation

/-!
# Lalr.Proofs.Parser.Tree

Parse trees of a grammar: what a tree must look like to be one for a symbol, and the tokens at its
leaves.  Trees and derivations are two views of the same thing (`ParseTree.derives`,
`exists_parseTree`).
-/

namespace Lalr

mutual

/-- The tokens at the leaves of a tree, from left to right. -/
def Tree.tokens : Tree → List Token
  | .leaf token => [token]
  | .node _ children => Tree.tokensOf children

/-- The tokens at the leaves of trees that stand next to each other. -/
def Tree.tokensOf : List Tree → List Token
  | [] => []
  | T :: Ts => T.tokens ++ Tree.tokensOf Ts

end

mutual

/-- A parse tree for a symbol: a token that is named by the terminal, or one of the productions of the
nonterminal with parse trees for its symbols. -/
inductive ParseTree (g : Grammar) : Symbol → Tree → Prop
  | leaf {token : Token} (h : token.name ∈ g.terminalNames) : ParseTree g token.name (.leaf token)
  | node {k : Nat} {p : Production} {children : List Tree} (hk : g.productionList[k]? = some p)
      (h : ParseForest g p.symbols children) : ParseTree g p.name (.node k children)

/-- Parse trees for the symbols of a string, one for each. -/
inductive ParseForest (g : Grammar) : List Symbol → List Tree → Prop
  | nil : ParseForest g [] []
  | cons {X : Symbol} {w : List Symbol} {T : Tree} {Ts : List Tree} (h : ParseTree g X T)
      (hs : ParseForest g w Ts) : ParseForest g (X :: w) (T :: Ts)

end

variable {g : Grammar} {X : Symbol} {w v : List Symbol} {T : Tree} {Ts Us : List Tree}

mutual

/-- A symbol derives the names of the tokens of its parse trees. -/
theorem ParseTree.derives : ∀ {X : Symbol} {T : Tree},
    ParseTree g X T → g.Produces.Derives [X] (T.tokens.map Token.name)
  | _, _, .leaf _ => by
      rw [Tree.tokens]
      exact .refl _
  | _, _, @ParseTree.node _ _ p _ hk h => by
      have hrule : g.Produces p.name p.symbols := List.mem_of_getElem? hk
      rw [Tree.tokens]
      exact (RuleSet.Derives.of_rule hrule).trans h.derives

theorem ParseForest.derives : ∀ {w : List Symbol} {Ts : List Tree},
    ParseForest g w Ts → g.Produces.Derives w ((Tree.tokensOf Ts).map Token.name)
  | _, _, .nil => .refl _
  | _, _, .cons h hs => by
      rw [Tree.tokensOf, List.map_append]
      exact h.derives.append hs.derives

/-- The leaves are terminals that reach the parser. -/
theorem ParseTree.name_mem : ∀ {X : Symbol} {T : Tree},
    ParseTree g X T → ∀ token ∈ T.tokens, token.name ∈ g.terminalNames
  | _, _, .leaf h => by
      rw [Tree.tokens]
      simpa using h
  | _, _, .node _ h => by
      rw [Tree.tokens]
      exact h.name_mem

theorem ParseForest.name_mem : ∀ {w : List Symbol} {Ts : List Tree},
    ParseForest g w Ts → ∀ token ∈ Tree.tokensOf Ts, token.name ∈ g.terminalNames
  | _, _, .nil => by simp [Tree.tokensOf]
  | _, _, .cons h hs => by
      rw [Tree.tokensOf]
      intro token htoken
      rcases List.mem_append.1 htoken with htoken | htoken
      · exact h.name_mem token htoken
      · exact hs.name_mem token htoken

end

theorem tokensOf_append (Ts Us : List Tree) :
    Tree.tokensOf (Ts ++ Us) = Tree.tokensOf Ts ++ Tree.tokensOf Us := by
  induction Ts with
  | nil => rfl
  | cons T Ts ih => rw [List.cons_append, Tree.tokensOf, Tree.tokensOf, ih, List.append_assoc]

theorem ParseForest.append (h : ParseForest g w Ts) (h' : ParseForest g v Us) :
    ParseForest g (w ++ v) (Ts ++ Us) := by
  induction w generalizing Ts with
  | nil => cases h with | nil => exact h'
  | cons X w ih => cases h with | cons hX hw => exact .cons hX (ih hw)

/-- Trees for a string of two parts are trees for both. -/
theorem ParseForest.of_append (h : ParseForest g (w ++ v) Ts) :
    ∃ Us Vs, Ts = Us ++ Vs ∧ ParseForest g w Us ∧ ParseForest g v Vs := by
  induction w generalizing Ts with
  | nil => exact ⟨[], Ts, rfl, .nil, h⟩
  | cons X w ih =>
      cases h with
      | cons hX hw =>
          obtain ⟨Us, Vs, rfl, hU, hV⟩ := ih hw
          exact ⟨_ :: Us, Vs, rfl, .cons hX hU, hV⟩

/-- Tokens of terminals are trees by themselves. -/
theorem parseForest_leaves {tokens : List Token} (h : ∀ token ∈ tokens, token.name ∈ g.terminalNames) :
    ParseForest g (tokens.map Token.name) (tokens.map .leaf) ∧
      Tree.tokensOf (tokens.map .leaf) = tokens := by
  induction tokens with
  | nil => exact ⟨.nil, rfl⟩
  | cons token tokens ih =>
      obtain ⟨hforest, htokens⟩ := ih fun tok htok => h tok (List.mem_cons_of_mem token htok)
      refine ⟨.cons (.leaf (h token List.mem_cons_self)) hforest, ?_⟩
      rw [List.map_cons, Tree.tokensOf, htokens, Tree.tokens]
      rfl

/-- A string that derives the names of some tokens has parse trees with these tokens. -/
theorem exists_parseForest {tokens : List Token}
    (hnames : ∀ token ∈ tokens, token.name ∈ g.terminalNames)
    (h : g.Produces.Derives w (tokens.map Token.name)) :
    ∃ Ts, ParseForest g w Ts ∧ Tree.tokensOf Ts = tokens := by
  induction h using Relation.ReflTransGen.head_induction_on with
  | refl => exact ⟨_, parseForest_leaves hnames⟩
  | head hstep _ ih =>
      obtain @⟨A, v, x, y, hA⟩ := hstep
      obtain ⟨Ts, hforest, htokens⟩ := ih
      -- The trees of the replacement become the children of one tree.
      obtain ⟨Us, Ys, rfl, hU, hY⟩ := hforest.of_append
      obtain ⟨Xs, Vs, rfl, hX, hV⟩ := hU.of_append
      obtain ⟨k, hk⟩ := List.mem_iff_getElem?.1 hA
      refine ⟨Xs ++ .node k Vs :: Ys, hX.append (.cons (.node hk hV) hY), ?_⟩
      rw [← htokens]
      simp only [tokensOf_append, Tree.tokensOf, Tree.tokens, List.append_assoc]

/-- A symbol that derives the names of some tokens has a parse tree with these tokens. -/
theorem exists_parseTree {tokens : List Token}
    (hnames : ∀ token ∈ tokens, token.name ∈ g.terminalNames)
    (h : g.Produces.Derives [X] (tokens.map Token.name)) :
    ∃ T, ParseTree g X T ∧ T.tokens = tokens := by
  obtain ⟨Ts, hforest, htokens⟩ := exists_parseForest hnames h
  cases hforest with
  | @cons _ _ T _ hX hnil =>
      cases hnil with
      | nil => exact ⟨T, hX, by simpa [Tree.tokensOf] using htokens⟩

end Lalr
