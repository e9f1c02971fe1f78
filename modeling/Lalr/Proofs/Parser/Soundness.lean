import Lalr.Proofs.Parser.Tree
import Lalr.Proofs.Parser.Value
import Mathlib

/-!
# Lalr.Proofs.Parser.Soundness

A value that a parse returns is a parse tree for the start symbol, with the tokens before the first end
at its leaves (`parseTree_of_parseTokens`).  That holds for every list of tokens, whatever their names.
-/

namespace Lalr

open Construction (rowGrammar rowToken)

namespace Parser

variable {g : Grammar} {w : List Symbol} {Ts : List Tree} {u : List Token}

/-! ## trees -/

/-- Values that are parse trees with their tokens form a forest with all tokens. -/
theorem parseForest_of_values
    (h : Values (fun X T y => ParseTree g X T ∧ T.tokens = y) w Ts u) :
    ParseForest g w Ts ∧ Tree.tokensOf Ts = u := by
  induction h with
  | nil => exact ⟨.nil, rfl⟩
  | cons hv _ ih =>
      obtain ⟨htree, rfl⟩ := hv
      obtain ⟨hforest, rfl⟩ := ih
      exact ⟨.cons htree hforest, rfl⟩

theorem actions_tree_eq {rules k : Nat} {f : List Tree → Id Tree}
    (h : (Semantics.tree rules).actions[k]? = some f) (Ts : List Tree) : (f Ts).run = .node k Ts := by
  simp only [Semantics.tree, List.getElem?_map] at h
  obtain ⟨i, hi, rfl⟩ := Option.map_eq_some_iff.1 h
  obtain ⟨-, rfl⟩ := List.getElem?_eq_some_iff.1 hi
  rw [List.getElem_range]
  rfl

/-- The semantics of trees makes parse trees. -/
theorem respects_tree (g : Grammar) (rules : Nat) :
    Respects g (Semantics.tree rules) (fun X T y => ParseTree g X T ∧ T.tokens = y) where
  token := fun token h => ⟨.leaf h, rfl⟩
  action := fun k p f Ts u hp hf h => by
    obtain ⟨hforest, htokens⟩ := parseForest_of_values h
    rw [actions_tree_eq hf]
    exact ⟨.node hp hforest, htokens⟩

end Parser

/-- The value of a parse is a parse tree of the tokens before the first end. -/
theorem parseTree_of_parseTokens {g : Grammar} {c : Construction}
    (hc : Construction.ofGrammar g = .ok c) {tokens : List Token} {T : Tree}
    (h : Parser.parseTokens c.table (Semantics.tree g.rules.length) tokens = some (.ok T)) :
    ParseTree g g.start T ∧ T.tokens = tokens.takeWhile (·.name ≠ endMarker) :=
  Parser.value_of_parseTokens (Construction.built_of_ofGrammar hc) (Parser.respects_tree g _) h

/-- A row of one token has a value, and that is a parse tree of the row. -/
theorem exists_parseTree_row : ∃ c T, Construction.ofGrammar rowGrammar = .ok c ∧
    Parser.parseTokens c.table (Semantics.tree 2) [rowToken] = some (.ok T) ∧
    ParseTree rowGrammar "S" T ∧ T.tokens = [rowToken] := by
  have heval : (Construction.ofGrammar rowGrammar).toOption.map (fun c =>
      (Parser.parseTokens c.table (Semantics.tree 2) [rowToken] : Option (Except ParseError Tree))) =
      some (some (.ok (.node 0 [.leaf rowToken, .node 1 []]))) := by
    simp only [Parser.parseTokens, Parser.enoughFuel, Nat.pow_eq]
    cbv
  obtain ⟨c, hc, hparse⟩ := exists_ok_of_map_toOption heval
  obtain ⟨htree, htokens⟩ := parseTree_of_parseTokens hc hparse
  exact ⟨c, _, hc, hparse, htree, htokens⟩

end Lalr
