import Lalr.Parser.Tree
import Lalr.Proofs.Parser.Settling
import Mathlib

/-!
# Lalr.Proofs.Parser.Termination

Every parse ends (`parse_ends`): with a table that was built from a grammar, reductions in a row come to
an end at every token, and the tokens are finitely many.
-/

namespace Lalr

open Construction (rowGrammar rowToken)

namespace Parser

variable {α : Type} {g : Grammar} {c : Construction} {sem : Semantics Id α} {stack : List (Frame α)}
  {input : List Token} {γ : List Symbol}

/-- From every stack that spells a string, reductions at a lookahead end, whatever their values. -/
theorem Spells.exists_lasts (hc : Construction.Built g c) (h : Spells g stack γ) (N : Nat) (a : Symbol) :
    ∃ n, Lasts c.table N a (statesOf stack) n := by
  obtain ⟨stack', hstack'⟩ := exists_spells (Justified.walk_eq h)
  obtain ⟨n, hlasts⟩ := settles_statesOf (a := a) hc (Nat.le_max_left g.rules.length N) hstack'
  rw [← h.states_eq hstack'] at hlasts
  obtain ⟨m, -, hlasts'⟩ := hlasts.of_le (Nat.le_max_right g.rules.length N)
  exact ⟨m, hlasts'⟩

/-- The stacks of a parse spell strings. -/
theorem exists_spells_of_moves (hc : Construction.Built g c) {s : List (Frame α) × List Token}
    (h : Relation.ReflTransGen (Moves c.table sem) ([], input) s) : ∃ γ, Spells g s.1 γ := by
  induction h with
  | refl => exact ⟨[], spells_nil⟩
  | tail _ hm ih =>
      obtain ⟨γ, hstack⟩ := ih
      exact hstack.moves hc hm

/-- A run ends if the stack that it starts from spells a string. -/
theorem Spells.exists_ends (hc : Construction.Built g c) (sem : Semantics Id α) (h : Spells g stack γ)
    (input : List Token) : ∃ r n, Ends c.table sem (stack, input) r n := by
  induction input generalizing stack γ with
  | nil => exact ⟨_, 1, .stop (.exhausted stack)⟩
  | cons token rest ih =>
      obtain ⟨k, hlasts⟩ := h.exists_lasts hc sem.actions.length token.name
      generalize hs : statesOf stack = s at hlasts
      induction hlasts generalizing stack γ with
      | stuck hstuck =>
          obtain ⟨s', hm⟩ | ⟨r, hstop⟩ := exists_moves_or_stops c.table sem (stack, token :: rest)
          · obtain ⟨γ', hstack'⟩ := h.moves hc hm
            cases hm with
            | shift haction =>
                obtain ⟨r, n, hend⟩ := ih hstack'
                exact ⟨r, n + 1, .move (.shift haction) hend⟩
            | reduce haction hk hn hq =>
                have hm : Moves c.table sem (stack, token :: rest) (_, token :: rest) :=
                  .reduce haction hk hn hq
                exact absurd (hs ▸ hm.reduces) (hstuck _)
          · exact ⟨r, 1, .stop hstop⟩
      | step hr _ ihr =>
          obtain ⟨stack', hm⟩ := exists_moves_of_reduces rest (hs ▸ hr)
          obtain ⟨γ', hstack'⟩ := h.moves hc hm
          obtain ⟨r, n, hend⟩ := ihr hstack' ((hs ▸ hm.reduces).unique hr)
          exact ⟨r, n + 1, .move hm hend⟩

end Parser

/-- Every parse ends.  The machine stops after finitely many steps, with a value or an error; so does
every parse whose actions have effects.  In no configuration that a parse comes to does the table
make it reduce for ever. -/
theorem parse_ends {g : Grammar} {c : Construction} (hc : Construction.ofGrammar g = .ok c) :
    (∀ {α : Type} (sem : Semantics Id α) (tokens : List Token), ∃ r n,
        Parser.Ends c.table sem ([], Supply.terminated .start tokens) r n ∧
          Parser.parseTokens c.table sem tokens = some r) ∧
      (∀ {m : Type → Type} [Monad m] [LawfulMonad m] {α : Type} (sem : Semantics m α)
        (tokens : List Token), Ensures (·.isSome) (Parser.parseTokens c.table sem tokens)) ∧
      ∀ {α : Type} (sem : Semantics Id α) (tokens : List Token) (stack : List (Parser.Frame α))
        (token : Token) (rest : List Token),
        Relation.ReflTransGen (Parser.Moves c.table sem) ([], Supply.terminated .start tokens)
          (stack, token :: rest) →
        ∃ n, Parser.Lasts c.table sem.actions.length token.name (Parser.statesOf stack) n := by
  have hbuilt := Construction.built_of_ofGrammar hc
  have hends {α : Type} (sem : Semantics Id α) (tokens : List Token) : ∃ r n,
      Parser.Ends c.table sem ([], Supply.terminated .start tokens) r n ∧
        Parser.parseTokens c.table sem tokens = some r := by
    obtain ⟨r, n, hend⟩ := Parser.spells_nil.exists_ends hbuilt sem (Supply.terminated .start tokens)
    exact ⟨r, n, hend, Parser.parseTokens_eq_some_iff.2 ⟨n, hend⟩⟩
  refine ⟨hends, fun sem tokens => ?_, fun sem tokens stack token rest hmoves => ?_⟩
  · obtain ⟨r, -, -, hr⟩ := hends (Parser.idle sem.actions.length) tokens
    refine (Parser.ensures_parseTokens hr).imp ?_
    rintro _ ⟨r', rfl, -⟩
    rfl
  · obtain ⟨γ, hstack⟩ := Parser.exists_spells_of_moves hbuilt hmoves
    exact hstack.exists_lasts hbuilt _ _

/-- Rows have a construction. -/
theorem exists_ofGrammar_row : ∃ c, Construction.ofGrammar rowGrammar = .ok c := by
  have heval : (Construction.ofGrammar rowGrammar).toOption.map (fun _ => ()) = some () := by cbv
  obtain ⟨c, hc, -⟩ := exists_ok_of_map_toOption heval
  exact ⟨c, hc⟩

/-- The parse of a row ends. -/
theorem exists_ends_row : ∃ c r n, Construction.ofGrammar rowGrammar = .ok c ∧
    Parser.Ends c.table (Semantics.tree 2) ([], Supply.terminated .start [rowToken]) r n := by
  obtain ⟨c, hc⟩ := exists_ofGrammar_row
  obtain ⟨r, n, hend, -⟩ := (parse_ends hc).1 (Semantics.tree 2) [rowToken]
  exact ⟨c, r, n, hc, hend⟩

end Lalr
