import Lalr.Proofs.Lookahead
import Mathlib

/-!
# Lalr.Proofs.Exactness

The table is that of the LALR(1) method (`Construction.reduce_iff_context`): a production is reduced on
a terminal exactly if some context that leads to the state can go on with the terminal.  The lookaheads
of different contexts with one state are merged, and nothing else is added to them.
-/

namespace Lalr

open Construction (Built built_of_ofGrammar rowGrammar)

/-- The lookaheads of a table are exactly the LALR(1) ones. -/
theorem Construction.reduce_iff_context {g : Grammar} {c : Construction}
    (hc : Construction.ofGrammar g = .ok c) {A t : Symbol} {w : List Symbol} {q k : Nat}
    (ht : t ∈ g.terminals.map Terminal.name ∨ t = endMarker)
    (hk : g.productionList[k]? = some ⟨A, w⟩) :
    c.table.action? q t = some (.reduce k A w.length) ↔
      ∃ d tail, g.Context d A tail ∧ c.automaton.walk? 0 (d ++ w) = some q ∧
        ∃ rest, g.Produces.Derives tail (t :: rest) := by
  have hbuilt := built_of_ofGrammar hc
  have hcell : c.table.action? q t = some (.reduce k A w.length) ↔ Built.Reduces g c q t ⟨A, w⟩ :=
    hbuilt.action?_reduce_iff hk
  rw [hcell, hbuilt.reduces_iff (List.mem_of_getElem? hk) ht, hbuilt.automaton]
  simp only [RuleSet.begins_iff, List.singleton_append]

/-- In rows, the empty production is reduced where nothing has been read and the end comes. -/
theorem Construction.reduce_empty_row : ∃ c, Construction.ofGrammar rowGrammar = .ok c ∧
    rowGrammar.productionList[1]? = some ⟨"S", []⟩ ∧
    c.table.action? 0 endMarker = some (.reduce 1 "S" 0) := by
  have heval : (Construction.ofGrammar rowGrammar).toOption.map (fun _ => ()) = some () := by cbv
  obtain ⟨c, hc, -⟩ := exists_ok_of_map_toOption heval
  have hctx : rowGrammar.Context ([] ++ []) "S" ([] ++ [endMarker]) := .step .start (.inl rfl)
  have hcell := reduce_iff_context hc (q := 0) (k := 1) (w := []) (.inr rfl) (A := "S") rfl
  exact ⟨c, hc, rfl, hcell.2 ⟨_, _, hctx, rfl, [], .refl _⟩⟩

end Lalr
