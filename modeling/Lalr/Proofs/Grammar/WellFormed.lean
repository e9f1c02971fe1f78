import Lalr.Construction
import Lalr.Proofs.Grammar.Derivation
import Lalr.Proofs.Keyed
import Mathlib.Tactic.ByContra

/-!
# Lalr.Proofs.Grammar.WellFormed

What a grammar that passes its check is known to satisfy, and the productions the construction
works with: those of the grammar by nonterminal, and those with the synthetic start production.

The check reports the first mistake; `Grammar.wellFormed_of_validate` says what the absence of
mistakes means for names and productions.
-/

namespace Lalr

/-! ## the check -/

/-- No element repeats one that stands before it. -/
theorem firstRepeat?_eq_none {α : Type} [DecidableEq α] {before xs : List α}
    (h : firstRepeat? before xs = none) : xs.Nodup ∧ ∀ x ∈ xs, x ∉ before := by
  induction xs generalizing before with
  | nil => simp
  | cons x xs ih =>
      simp only [firstRepeat?] at h
      split at h
      · contradiction
      · next hx =>
          obtain ⟨hn, hb⟩ := ih h
          refine ⟨List.nodup_cons.2 ⟨fun hmem => hb x hmem List.mem_cons_self, hn⟩, ?_⟩
          intro y hy
          rcases List.mem_cons.1 hy with rfl | hy
          · exact hx
          · exact fun hmem => hb y hy (List.mem_cons_of_mem x hmem)

/-- What the construction relies on: declared names are not reserved, terminals and nonterminals do
not meet, nothing is declared twice, and productions use only what the parser can see. -/
structure Grammar.WellFormed (g : Grammar) : Prop where
  unreserved : ∀ s ∈ g.terminals.map Terminal.name ++ g.nonterminalNames, isReserved s = false
  nodup_terminals : (g.terminals.map Terminal.name).Nodup
  disjoint : ∀ s ∈ g.nonterminalNames, s ∉ g.terminals.map Terminal.name
  nodup_productions : g.productionList.Nodup
  start_mem : g.start ∈ g.nonterminalNames
  declared : ∀ p ∈ g.productionList, ∀ s ∈ p.symbols, s ∈ g.terminalNames ∨ s ∈ g.nonterminalNames

/-- A grammar that passes its check has no mistakes. -/
theorem Grammar.mistake?_of_validate {g : Grammar} (h : g.validate = .ok ()) : g.mistake? = none := by
  unfold validate at h
  split at h
  · assumption
  · contradiction

theorem Grammar.wellFormed_of_validate {g : Grammar} (h : g.validate = .ok ()) : g.WellFormed := by
  have hm := mistake?_of_validate h
  simp only [mistake?, Option.orElse_eq_orElse, Option.orElse_eq_or, Option.or_eq_none_iff] at hm
  obtain ⟨h₁, h₂, h₃, h₄, h₅, h₆, -, -⟩ := hm
  simp only [reservedName?, Option.map_eq_none_iff, List.find?_eq_none] at h₁
  simp only [duplicateTerminal?, Option.map_eq_none_iff] at h₂
  simp only [terminalAndRule?, Option.map_eq_none_iff, List.find?_eq_none] at h₃
  simp only [duplicateProduction?, Option.map_eq_none_iff] at h₄
  simp only [missingStart?] at h₅
  simp only [undefinedSymbol?, List.findSome?_eq_none_iff] at h₆
  refine ⟨?_, (firstRepeat?_eq_none h₂).1, ?_, (firstRepeat?_eq_none h₄).1, ?_, ?_⟩
  · intro s hs
    simpa using h₁ s hs
  · intro s hs
    simpa using h₃ s hs
  · by_contra hstart
    simp [hstart] at h₅
  · intro p hp s hs
    have := h₆ p hp s hs
    by_contra hundeclared
    rw [if_neg hundeclared] at this
    split at this <;> contradiction

end Lalr
