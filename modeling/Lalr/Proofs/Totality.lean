import Lalr.Proofs.Follow.Totality
import Lalr.Proofs.Lookahead
import Lalr.Proofs.Table.Clash

/-!
# Lalr.Proofs.Totality

A grammar without mistakes can be analysed (`exists_analysed`): the automaton follows every production
to its end, every symbol that comes up has a FIRST set, and every instance a FOLLOW set.  Whatever the
table asks for afterwards is there as well (`Analysed.placed`).
-/

namespace Lalr.Construction

variable {g : Grammar} {c : Construction} {r : ExtendedRule} {firsts : FirstSets} {A : Symbol}

open FollowSets (Readable)

theorem mem_keys_augmented (hg : g.WellFormed) (hA : A ∈ g.nonterminalNames) :
    A ∈ (augmented g).keys := by
  obtain ⟨p, hp, hname⟩ := Grammar.mem_nonterminalNames_iff.1 hA
  obtain ⟨rules, hrules, -⟩ := hg.augmented_lists_iff.2 ⟨.inr hp, hname⟩
  exact Keyed.mem_keys_iff.2 ⟨rules, hrules⟩

/-- There are FIRST sets of all symbols that productions have. -/
theorem exists_firsts (hg : g.WellFormed) :
    ∃ firsts, FirstSets.ofGrammar (augmented g) g.terminalNames = .ok firsts ∧
      ∀ s, Grammar.WellFormed.Visible g s → s ∈ firsts.keys := by
  have hkey {s : Symbol} (hs : Grammar.WellFormed.Visible g s) :
      s ∈ (augmented g).keys ∨ s ∈ g.terminalNames := hs.symm.imp_left (mem_keys_augmented hg)
  obtain ⟨firsts, hfirsts, hmem⟩ := FirstSets.exists_ofGrammar (augmented g) g.terminalNames
    fun X p hp s hs => hkey (hg.visible_of_mem (hg.augmented_lists_iff.1 hp).1 hs)
  exact ⟨firsts, hfirsts, fun s hs => hmem s (hkey hs)⟩

/-- The rules of the extended grammar have all their states, and FIRST sets of their symbols. -/
theorem readable_of_mem (hg : g.WellFormed) {extended : List ExtendedRule}
    (hextended : (automatonOf g).extendedRules = .ok extended)
    (hfirsts : ∀ s, Grammar.WellFormed.Visible g s → s ∈ firsts.keys) (hr : r ∈ extended) :
    Readable firsts r := by
  obtain ⟨q, hq, hrec⟩ := Automaton.exists_holds_of_mem_extendedRules hextended hr
  obtain ⟨t, ht, -⟩ := hrec.states_eq _ (Nat.le_refl _)
  exact ⟨⟨_, hrec.instance_eq⟩, Nat.le_of_lt (List.getElem?_eq_some_iff.1 ht).1,
    fun s hs => hfirsts s (hg.visible_of_mem (hq.hasProduction hg).1 hs)⟩

/-- A grammar without mistakes can be analysed. -/
theorem exists_analysed (hg : g.WellFormed) : ∃ c, Analysed g c := by
  obtain ⟨extended, hextended⟩ := Automaton.exists_extendedRules hg
  obtain ⟨firsts, hfirsts, hmem⟩ := exists_firsts hg
  obtain ⟨follows, hfollows⟩ := FollowSets.exists_ofRules g.terminalNames fun r hr =>
    readable_of_mem hg hextended hmem hr
  exact ⟨⟨automatonOf g, extended, firsts, follows, ⟨[]⟩⟩, hg, rfl, hextended, hfirsts, hfollows⟩

/-- What the table looks up for a rule of the extended grammar is there. -/
theorem Analysed.placed (hc : Analysed g c) (hr : r ∈ c.extended) :
    Placed g.productionList c.follows (automatonOf g).transitions.length r := by
  have hg := hc.wellFormed
  obtain ⟨q, hq, hrec⟩ := Automaton.exists_holds_of_mem_extendedRules hc.extended hr
  refine ⟨?_, fun hname => ?_, ?_⟩
  · obtain ⟨t, ht, hw⟩ := hrec.reduce_eq
    refine ⟨t, ht, ?_⟩
    rw [(Automaton.explored_automatonOf g).2]
    exact (hq.completed hw).lt_size
  · obtain ⟨k, hk⟩ := List.mem_iff_getElem?.1
      (hg.mem_productionList (hq.hasProduction hg).1 hname)
    exact ⟨k, (idxOf?_productionList_iff hg).2 hk⟩
  · obtain ⟨S, hS⟩ := FollowSets.exists_get?_sets hc.follows hr hrec.instance_eq
    exact ⟨_, S, hrec.instance_eq, hS⟩

end Lalr.Construction
