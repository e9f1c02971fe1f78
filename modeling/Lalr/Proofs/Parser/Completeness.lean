import Lalr.Proofs.Lookahead
import Lalr.Proofs.Parser.Tree
import Lalr.Proofs.Parser.Value
import Mathlib

/-!
# Lalr.Proofs.Parser.Completeness

The parser builds every parse tree again from its tokens (`parseTokens_tokens`), so it accepts every
sentence, and no sentence has two trees.

A tree is built on top of a stack while the machine consumes its tokens (`ParseTree.moves`).  The
induction is on the tree: in the context of a production around it, with what is still to come after it
known to begin with the next token, the table has the shifts and reductions that the tree needs.
-/

namespace Lalr

open Lalr.Parser Construction

variable {g : Grammar} {c : Construction} {w tail : List Symbol} {token : Token} {rest : List Token}
  {T : Tree} {Ts : List Tree}

/-! ## building trees -/

/-- What comes after some trees and before a token that can come after them. -/
theorem ParseForest.exists_next (h : ParseForest g w Ts)
    (ht : token.name ∈ g.terminalNames ∨ token.name = endMarker)
    (hb : g.Produces.Begins tail [token.name]) (rest : List Token) :
    ∃ token' rest', Tree.tokensOf Ts ++ token :: rest = token' :: rest' ∧
      (token'.name ∈ g.terminalNames ∨ token'.name = endMarker) ∧
      g.Produces.Begins (w ++ tail) [token'.name] := by
  have hderives := h.derives
  have hnames := h.name_mem
  cases htokens : Tree.tokensOf Ts with
  | nil =>
      rw [htokens] at hderives
      exact ⟨token, rest, rfl, ht, RuleSet.begins_append_singleton_iff.2 (.inr ⟨hderives, hb⟩)⟩
  | cons token' tokens =>
      rw [htokens] at hderives hnames
      refine ⟨token', tokens ++ token :: rest, rfl, .inl (hnames token' List.mem_cons_self), ?_⟩
      exact RuleSet.begins_append_singleton_iff.2
        (.inl (RuleSet.begins_iff.2 ⟨tokens.map Token.name, hderives⟩))

theorem actions_tree_getElem? {rules k : Nat} (hk : k < rules) :
    (Semantics.tree rules).actions[k]? = some fun Ts => .node k Ts := by
  simp [Semantics.tree, hk]

theorem ParseForest.length_eq (h : ParseForest g w Ts) : Ts.length = w.length := by
  induction w generalizing Ts with
  | nil => cases h with | nil => rfl
  | cons X w ih => cases h with | cons _ hs => simp [ih hs]

mutual

/-- The machine builds a tree from its tokens, on the state in front of its symbol. -/
theorem ParseTree.moves (hc : Built g c) : ∀ {X : Symbol} {T : Tree}, ParseTree g X T →
    ∀ {d b r tail : List Symbol} {B : Symbol} {stack : List (Frame Tree)} {token : Token}
      (rest : List Token), g.Context d B tail → g.HasProduction ⟨B, b ++ X :: r⟩ →
      (automatonOf g).walk? 0 (d ++ b) = some (topState stack) →
      (token.name ∈ g.terminalNames ∨ token.name = endMarker) →
      g.Produces.Begins (r ++ tail) [token.name] →
      ∃ q, (automatonOf g).target? (topState stack) X = some q ∧
        Relation.ReflTransGen (Moves c.table (Semantics.tree g.rules.length))
          (stack, T.tokens ++ token :: rest) (⟨q, T⟩ :: stack, token :: rest)
  | _, _, @ParseTree.leaf _ leaf hleaf, d, b, r, tail, B, stack, token, rest, hctx, hp, hwalk, _, _ => by
      obtain ⟨q, hq, hshift⟩ := hc.exists_shift_of_context hctx hp hwalk hleaf
      rw [Tree.tokens]
      exact ⟨q, hq, .single (.shift hshift)⟩
  | _, _, @ParseTree.node _ k p children hk hforest, d, b, r, tail, B, stack, token, rest, hctx, hp,
      hwalk, ht, hb => by
      have hprod : g.HasProduction ⟨p.name, [] ++ p.symbols⟩ := .inr (List.mem_of_getElem? hk)
      have hinner := hctx.step hp
      obtain ⟨frames, hvalues, hend, hmoves⟩ := ParseForest.moves hc hforest rest hinner hprod
        (by simpa using hwalk) ht hb
      obtain ⟨q, hq, hgoto⟩ := hc.exists_goto_of_context hctx hp hwalk
        (Grammar.WellFormed.name_mem (List.mem_of_getElem? hk))
      have hreduce := hc.action?_of_context hk hinner
        (q := topState (frames ++ stack)) (by rw [Automaton.walk?_append, hwalk]; exact hend) ht hb
      have hlen : frames.length = p.symbols.length := by
        rw [← hforest.length_eq, ← hvalues, List.length_map, List.length_reverse]
      have hlt := Grammar.WellFormed.lt_length_rules hk
      refine ⟨q, hq, ?_⟩
      rw [Tree.tokens]
      refine hmoves.tail ?_
      have hlen' : p.symbols.length ≤ (frames ++ stack).length := by
        rw [List.length_append, hlen]
        exact Nat.le_add_right _ _
      have hgoto' : c.table.action? (topState ((frames ++ stack).drop p.symbols.length)) p.name =
          some (.goto q) := by
        rw [← hlen, List.drop_left]
        exact hgoto
      have hmove : Moves c.table (Semantics.tree g.rules.length) (frames ++ stack, token :: rest) _ :=
        .reduce hreduce (actions_tree_getElem? hlt) hlen' hgoto'
      rw [← hlen, List.take_left, List.drop_left, hvalues] at hmove
      exact hmove

/-- The machine builds trees for the rest of a production, one after the other. -/
theorem ParseForest.moves (hc : Built g c) : ∀ {w : List Symbol} {Ts : List Tree}, ParseForest g w Ts →
    ∀ {d v tail : List Symbol} {A : Symbol} {stack : List (Frame Tree)} {token : Token}
      (rest : List Token), g.Context d A tail → g.HasProduction ⟨A, v ++ w⟩ →
      (automatonOf g).walk? 0 (d ++ v) = some (topState stack) →
      (token.name ∈ g.terminalNames ∨ token.name = endMarker) →
      g.Produces.Begins tail [token.name] →
      ∃ frames : List (Frame Tree), frames.reverse.map Frame.value = Ts ∧
        (automatonOf g).walk? (topState stack) w = some (topState (frames ++ stack)) ∧
        Relation.ReflTransGen (Moves c.table (Semantics.tree g.rules.length))
          (stack, Tree.tokensOf Ts ++ token :: rest) (frames ++ stack, token :: rest)
  | _, _, .nil, d, v, tail, A, stack, token, rest, _, _, _, _, _ => ⟨[], rfl, rfl, .refl⟩
  | _, _, @ParseForest.cons _ X w T Ts htree hforest, d, v, tail, A, stack, token, rest, hctx, hp,
      hwalk, ht, hb => by
      obtain ⟨token', rest', htokens, ht', hb'⟩ := hforest.exists_next ht hb rest
      obtain ⟨q, hq, hmoves⟩ := ParseTree.moves hc htree rest' hctx hp hwalk ht' hb'
      have hp' : g.HasProduction ⟨A, (v ++ [X]) ++ w⟩ := by simpa using hp
      have hwalk' : (automatonOf g).walk? 0 (d ++ (v ++ [X])) = some (topState (⟨q, T⟩ :: stack)) := by
        rw [← List.append_assoc, Automaton.walk?_snoc, hwalk]
        exact hq
      obtain ⟨frames, hvalues, hend, hmoves'⟩ := ParseForest.moves hc hforest rest hctx hp'
        hwalk' ht hb
      refine ⟨frames ++ [⟨q, T⟩], by simp [hvalues], ?_, ?_⟩
      · rw [Automaton.walk?, hq, List.append_assoc]
        exact hend
      · rw [Tree.tokensOf, List.append_assoc, htokens, List.append_assoc]
        rw [htokens] at hmoves'
        exact hmoves.trans hmoves'

end

/-! ## whole parses -/

/-- The tokens of a tree, with an end behind them, end in the tree. -/
theorem exists_ends_of_parseTree (hc : Built g c) (h : ParseTree g g.start T)
    (htoken : token.name = endMarker) : ∃ n, Ends c.table (Semantics.tree g.rules.length)
      ([], T.tokens ++ token :: rest) (.ok T) n := by
  have hg := hc.wellFormed
  have hp : g.HasProduction ⟨startSymbol, [] ++ g.start :: []⟩ := .inl hg.startProduction_eq.symm
  have hwalk : (automatonOf g).walk? 0 ([] ++ []) = some (topState ([] : List (Frame Tree))) := rfl
  obtain ⟨q, hq, hmoves⟩ := h.moves hc rest .start hp hwalk
    (.inr htoken) (by rw [htoken]; exact .keep (.done _))
  refine Ends.of_moves (n := 1) hmoves (.stop (.ended ?_))
  exact congrArg Id.run (step_of_accept (hc.accept_iff.2 ⟨hq, htoken⟩))

/-- Parsing the tokens of a tree gives the tree, with or without an end behind them. -/
theorem parseTokens_of_parseTree (hc : Built g c) (h : ParseTree g g.start T) :
    parseTokens c.table (Semantics.tree g.rules.length) T.tokens = some (.ok T) ∧
      ∀ ending rest, ending.name = endMarker →
        parseTokens c.table (Semantics.tree g.rules.length) (T.tokens ++ ending :: rest) =
          some (.ok T) := by
  have hne : ∀ token ∈ T.tokens, token.name ≠ endMarker := fun token htoken =>
    hc.wellFormed.ne_end (.inl (h.name_mem token htoken))
  constructor
  · obtain ⟨ending, hending, heq⟩ := exists_terminated_eq hne .start
    refine parseTokens_eq_some_iff.2 ?_
    rw [heq]
    exact exists_ends_of_parseTree hc h hending
  · intro ending rest hending
    refine parseTokens_eq_some_iff.2 ?_
    rw [terminated_append_ending hne hending]
    exact exists_ends_of_parseTree hc h hending

/-- The parser is complete: from the tokens of a parse tree it builds that tree.  So it accepts every
sentence, and no sentence has two trees. -/
theorem parseTokens_tokens (hc : Construction.ofGrammar g = .ok c) :
    (∀ T, ParseTree g g.start T →
      parseTokens c.table (Semantics.tree g.rules.length) T.tokens = some (.ok T) ∧
        ∀ ending rest, ending.name = endMarker →
          parseTokens c.table (Semantics.tree g.rules.length) (T.tokens ++ ending :: rest) =
            some (.ok T)) ∧
      ∀ tokens : List Token, (∀ token ∈ tokens, token.name ∈ g.terminalNames) →
        g.Produces.Derives [g.start] (tokens.map Token.name) →
          ∃ T, parseTokens c.table (Semantics.tree g.rules.length) tokens = some (.ok T) ∧
            ∀ T', ParseTree g g.start T' ∧ T'.tokens = tokens ↔ T' = T := by
  have hbuilt := built_of_ofGrammar hc
  refine ⟨fun T h => parseTokens_of_parseTree hbuilt h, fun tokens hnames hderives => ?_⟩
  obtain ⟨T, hT, rfl⟩ := exists_parseTree hnames hderives
  have hparse := (parseTokens_of_parseTree hbuilt hT).1
  refine ⟨T, hparse, fun T' => ⟨?_, ?_⟩⟩
  · rintro ⟨hT', heq⟩
    have hparse' := (parseTokens_of_parseTree hbuilt hT').1
    rw [heq, hparse] at hparse'
    exact (Except.ok.inj (Option.some.inj hparse')).symm
  · rintro rfl
    exact ⟨hT, rfl⟩

/-- The tree of a row of one token comes back from the token. -/
theorem parseTokens_row : ∃ c, Construction.ofGrammar rowGrammar = .ok c ∧
    ParseTree rowGrammar "S" (.node 0 [.leaf rowToken, .node 1 []]) ∧
    parseTokens c.table (Semantics.tree 2) [rowToken] =
      some (.ok (.node 0 [.leaf rowToken, .node 1 []])) := by
  have heval : (Construction.ofGrammar rowGrammar).toOption.map (fun _ => ()) = some () := by cbv
  obtain ⟨c, hc, -⟩ := exists_ok_of_map_toOption heval
  have hleaf : ParseTree rowGrammar rowToken.name (.leaf rowToken) := .leaf (by decide)
  have hempty : ParseTree rowGrammar "S" (.node 1 []) := .node (p := ⟨"S", []⟩) rfl .nil
  have htree : ParseTree rowGrammar "S" (.node 0 [.leaf rowToken, .node 1 []]) :=
    .node (p := ⟨"S", ["a", "S"]⟩) rfl (.cons hleaf (.cons hempty .nil))
  exact ⟨c, hc, htree, ((parseTokens_tokens hc).1 _ htree).1⟩

end Lalr
