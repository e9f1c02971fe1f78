import Lalr.Proofs.Conflicts

/-!
# Lalr.Proofs.Outcome

The check of a grammar is all that a construction needs (`outcome_of_validate`): after it, nothing can go
wrong but a conflict.  Every lookup finds what it looks for, pointers are only moved where there is
something to move past, and the fuel of the searches outlasts them (`Finished`).
-/

namespace Lalr

variable {g : Grammar} {i : Item} {X : Symbol}

/-- What a well-formed item points at can be read. -/
theorem Item.pointed_eq (h : i.WellFormed) : i.pointed = .ok i.next? := if_pos h

/-- An item that points at something can be moved past it. -/
theorem Item.advance_eq (h : i.next? = some X) : i.advance = .ok i.shifted := by
  refine if_neg ?_
  rw [Item.atEnd, beq_iff_eq]
  exact Nat.ne_of_lt (Item.pointer_lt_of_next? h)

namespace Construction

open FollowSets (Equations condensation)

/-- No search stopped before its end: all states have transitions, another round of FIRST sets would
change nothing, no cycle of dependencies is left, and every instance has a representative. -/
structure Finished (g : Grammar) (firsts : FirstSets) (equations : Equations) : Prop where
  states : (automatonOf g).transitions.length = (automatonOf g).itemSets.length
  firsts : FirstSets.round (augmented g) firsts = .ok firsts
  cycles : (condensation equations.dependencies).graph.findCycle = none
  groups : (condensation equations.dependencies).groups.Rooted

theorem Analysed.finished {c : Construction} (hc : Analysed g c) : ∃ equations,
    Equations.ofRules c.extended g.terminalNames c.firsts = .ok equations ∧
      Finished g c.firsts equations := by
  have hg := hc.wellFormed
  obtain ⟨equations, hequations, -⟩ := bind_eq_ok_iff.1 hc.follows
  have hloop := (Equations.reads_ofRules hequations).not_hasEdge_self
  have hε : epsilon ∉ g.terminalNames := fun h => hg.ne_epsilon (.inl h) rfl
  refine ⟨equations, hequations, (Automaton.explored_automatonOf g).2, ?_,
    FollowSets.findCycle_condensation hloop, (FollowSets.merges_condensation hloop).rooted⟩
  exact (FirstSets.sound_closed_of_ofGrammar hε (terminalNames_disjoint hg) hc.firsts).1

/-- A grammar that passes its check gets a table or a conflict is reported, and nothing else goes wrong
on the way. -/
theorem outcome_of_validate {g : Grammar} (h : g.validate = .ok ()) :
    ((∃ c, ofGrammar g = .ok c) ∨
      ∃ conflict, ofGrammar g = .error (.table (.conflict conflict))) ∧
    (∀ items ∈ (automatonOf g).itemSets, ∀ i ∈ items, i.pointed = .ok i.next? ∧
      ∀ X, i.next? = some X → i.advance = .ok i.shifted) ∧
    ∃ extended firsts equations, extendedOf (automatonOf g) = .ok extended ∧
      firstsOf g = .ok firsts ∧
      Equations.ofRules extended g.terminalNames firsts = .ok equations ∧
      Finished g firsts equations := by
  have hg := Grammar.wellFormed_of_validate h
  refine ⟨?_, fun items hitems i hi => ⟨?_, fun X => Item.advance_eq⟩, ?_⟩
  · exact (exists_table_or_reported h).imp (fun ⟨c, hc, _⟩ => ⟨c, hc⟩)
      fun ⟨conflict, hconflict, _⟩ => ⟨conflict, hconflict⟩
  · obtain ⟨q, hq⟩ := List.mem_iff_getElem?.1 hitems
    have hholds : (automatonOf g).Holds q i := ⟨items, hq, hi⟩
    exact Item.pointed_eq (hholds.hasProduction hg).2
  · obtain ⟨c, hc⟩ := exists_analysed hg
    obtain ⟨equations, hequations, hfinished⟩ := hc.finished
    exact ⟨c.extended, c.firsts, equations, mapError_eq_ok_iff.2 hc.extended,
      mapError_eq_ok_iff.2 hc.firsts, hequations, hfinished⟩

/-- Rows pass their check, so the construction has one of the two outcomes, with FIRST sets that another
round would not change. -/
theorem outcome_row : rowGrammar.validate = .ok () ∧
    ((∃ c, ofGrammar rowGrammar = .ok c) ∨
      ∃ conflict, ofGrammar rowGrammar = .error (.table (.conflict conflict))) ∧
    ∃ firsts, firstsOf rowGrammar = .ok firsts ∧
      FirstSets.round (augmented rowGrammar) firsts = .ok firsts := by
  have hvalid : rowGrammar.validate = .ok () := by cbv
  obtain ⟨houtcome, -, _, firsts, _, -, hfirsts, -, hfinished⟩ := outcome_of_validate hvalid
  exact ⟨hvalid, houtcome, firsts, hfirsts, hfinished.firsts⟩

end Construction

end Lalr
