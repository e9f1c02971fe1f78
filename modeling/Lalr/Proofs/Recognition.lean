import Lalr.Proofs.Construction
import Lalr.Proofs.Extended
import Mathlib

/-!
# Lalr.Proofs.Recognition

The extended grammar has every way in which a production can be recognised, and no other
(`recognitions_of_validate`).  Its rules are one to one with the states and the productions fresh in
them, and each lists the states that the production leads through (`ExtendedRule.Traces`).

What a rule leads to is a state where the whole production has been seen.  For the converse one goes
backwards: a state where all of a production has been seen knows it from every state that the symbols
of the production lead from (`Holds.fresh_of_walk`), since what is valid for a string depends on the
string alone.
-/

namespace Lalr

/-- What a rule recognises, and from where. -/
def ExtendedRule.origin (r : ExtendedRule) : Option Nat × Production where
  fst := r.entry?
  snd := r.production

namespace Automaton

variable {a : Automaton} {g : Grammar} {q t : Nat} {p : Production} {r : ExtendedRule}
  {rules : List ExtendedRule} {items : List Item}

/-! ## one rule for each recognition -/

/-- The states, each with the productions that are fresh in it. -/
def origins (a : Automaton) : List (Option Nat × Production) :=
  a.itemSets.zipIdx.flatMap fun (items, q) => (freshProductions items).map (some q, ·)

/-- The rules are one for each production that is fresh in a state, in order. -/
theorem map_origin_extendedRules (h : a.extendedRules = .ok rules) :
    rules.map ExtendedRule.origin = a.origins := by
  rw [extendedRules, bind_eq_ok_iff] at h
  obtain ⟨perState, hper, h⟩ := h
  obtain rfl : perState.flatten = rules := Except.ok.inj h
  have hstate (e : List Item × Nat) (rs : List ExtendedRule)
      (hrs : (freshProductions e.1).mapM (a.extendedRule e.2) = .ok rs) :
      rs.map ExtendedRule.origin = (freshProductions e.1).map (some e.2, ·) := by
    refine map_eq_map_of_mapM_eq_ok hrs fun p r hr => ?_
    obtain ⟨rfl, htraces⟩ := traces_of_extendedRule hr
    rw [ExtendedRule.origin, htraces.entry_eq]
  rw [origins, List.map_flatten, map_eq_map_of_mapM_eq_ok hper hstate]
  rfl

theorem mem_origins_iff : (some q, p) ∈ a.origins ↔ a.Holds q (.fresh p) := by
  simp only [origins, List.mem_flatMap, List.mem_map, Prod.mk.injEq, Option.some.injEq, Prod.exists,
    List.mem_zipIdx_iff_getElem?, mem_freshProductions_iff, Holds]
  constructor
  · rintro ⟨items, q', hget, p', hp, rfl, rfl⟩
    exact ⟨items, hget, hp⟩
  · rintro ⟨items, hget, hp⟩
    exact ⟨items, q, hget, p, hp, rfl, rfl⟩

theorem nodup_freshProductions (h : items.Nodup) : (freshProductions items).Nodup := by
  refine (h.filter _).map_on fun i hi j hj heq => ?_
  simp only [List.mem_filter, decide_eq_true_eq] at hi hj
  cases i
  cases j
  simp_all

/-- No state has a production twice. -/
theorem nodup_origins (h : ∀ items ∈ a.itemSets, items.Nodup) : a.origins.Nodup := by
  rw [origins, List.nodup_flatMap]
  constructor
  · rintro ⟨items, q⟩ he
    have hitems := h items (List.mem_of_getElem? (List.mem_zipIdx_iff_getElem?.1 he))
    exact (nodup_freshProductions hitems).map fun _ _ heq => (Prod.mk.inj heq).2
  · rw [List.pairwise_iff_getElem]
    intro i j hi hj hlt
    simp only [List.getElem_zipIdx, Function.onFun, List.disjoint_left, List.mem_map, not_exists, not_and]
    rintro _ ⟨p, -, rfl⟩ p' - heq
    have := Option.some.inj (Prod.mk.inj heq).1
    omega

theorem nodup_itemSets (g : Grammar) :
    ∀ items ∈ (Construction.automatonOf g).itemSets, items.Nodup := by
  intro items hitems
  obtain ⟨seeds, rfl⟩ := (explored_automatonOf g).1.closures items hitems
  exact Item.nodup_closure _ seeds

/-! ## backwards -/

/-- Every state on a walk to a state can be reached. -/
theorem exists_walk_of_walk {γ : List Symbol} {i : Item}
    (hw : (Construction.automatonOf g).walk? q γ = some t) (ht : (Construction.automatonOf g).Holds t i) :
    ∃ δ, (Construction.automatonOf g).walk? 0 δ = some q := by
  cases γ with
  | nil =>
      obtain rfl : q = t := Option.some.inj hw
      exact exists_walk ht
  | cons X γ =>
      obtain ⟨s, hs, -⟩ := Option.bind_eq_some_iff.1 hw
      exact exists_walk_of_target hs

/-- A production that has been seen in full was fresh in every state that its symbols lead from. -/
theorem Holds.fresh_of_walk (hg : g.WellFormed)
    (h : (Construction.automatonOf g).Holds t ⟨p, p.length⟩)
    (hw : (Construction.automatonOf g).walk? q p.symbols = some t) :
    (Construction.automatonOf g).Holds q (.fresh p) := by
  obtain ⟨γ, hγ⟩ := exists_walk_of_walk hw h
  have hwalk : (Construction.automatonOf g).walk? 0 (γ ++ p.symbols) = some t := by
    rw [walk?_append, hγ]
    exact hw
  obtain ⟨d, tail, hctx, hprod, -, heq⟩ := (Grammar.validItem_iff hg).1 (validItem_of_holds hg hwalk h)
  -- The symbols of the production are the end of the string, so the context is what is in front.
  obtain rfl : γ = d := by
    rw [Production.length, List.take_length] at heq
    exact List.append_cancel_right heq
  exact (holds_iff hg hγ).2 (hctx.validItem_fresh hg hprod)

/-! ## the extended grammar -/

/-- The extended grammar misses and invents no recognition.  Every grammar that passes its check has
one.  Its rules correspond to the states and the productions fresh in them, and pass through the states
of their productions to one where all of the production has been seen.  Conversely, a state where all of
a production has been seen is the end of exactly one rule from each state that the production leads
from. -/
theorem recognitions_of_validate (h : g.validate = .ok ()) :
    ∃ rules, (Construction.automatonOf g).extendedRules = .ok rules ∧
      (rules.map ExtendedRule.origin).Nodup ∧
      (∀ q p, (some q, p) ∈ rules.map ExtendedRule.origin ↔
        (Construction.automatonOf g).Holds q (.fresh p)) ∧
      (∀ r ∈ rules, ∃ q, r.Traces (Construction.automatonOf g) q ∧ ∃ t, r.reduceState? = some t ∧
        (Construction.automatonOf g).Holds t ⟨r.production, r.production.length⟩) ∧
      ∀ p q t, (Construction.automatonOf g).Holds t ⟨p, p.length⟩ →
        (Construction.automatonOf g).walk? q p.symbols = some t →
        ∃ r ∈ rules, r.reduceState? = some t ∧
          ∀ r' ∈ rules, r'.production = p ∧ r'.entry? = some q ↔ r' = r := by
  have hg := Grammar.wellFormed_of_validate h
  obtain ⟨rules, hrules⟩ := exists_extendedRules hg
  have horigins := map_origin_extendedRules hrules
  have hnodup : (rules.map ExtendedRule.origin).Nodup := horigins ▸ nodup_origins (nodup_itemSets g)
  have htraces {r : ExtendedRule} (hr : r ∈ rules) : ∃ q,
      (Construction.automatonOf g).Holds q (.fresh r.production) ∧
        r.Traces (Construction.automatonOf g) q := by
    obtain ⟨q, p, hq, hpr⟩ := (mem_extendedRules_iff hrules).1 hr
    obtain ⟨rfl, htraces⟩ := traces_of_extendedRule hpr
    exact ⟨q, hq, htraces⟩
  refine ⟨rules, hrules, hnodup, fun q p => horigins ▸ mem_origins_iff, fun r hr => ?_,
    fun p q t hp hw => ?_⟩
  · obtain ⟨q, hq, hr⟩ := htraces hr
    obtain ⟨t, ht⟩ := hq.exists_walk_symbols hg
    exact ⟨q, hr, t, hr.reduceState_eq.trans ht, hq.completed ht⟩
  · have hmem : (some q, p) ∈ rules.map ExtendedRule.origin :=
      horigins ▸ mem_origins_iff.2 (hp.fresh_of_walk hg hw)
    obtain ⟨r, hr, horigin⟩ := List.mem_map.1 hmem
    obtain ⟨hentry, rfl⟩ := Prod.mk.inj horigin
    obtain ⟨q', -, hpath⟩ := htraces hr
    obtain rfl : q' = q := Option.some.inj (hpath.entry_eq.symm.trans hentry)
    refine ⟨r, hr, hpath.reduceState_eq.trans hw, fun r' hr' => ⟨?_, ?_⟩⟩
    · rintro ⟨hprod', hentry'⟩
      refine List.inj_on_of_nodup_map hnodup hr' hr ?_
      rw [ExtendedRule.origin, ExtendedRule.origin, hprod', hentry', hentry]
    · rintro rfl
      exact ⟨rfl, hentry⟩

/-- A longer row may have been recognised from where one more `a` had been read, and there is exactly
one rule for that. -/
theorem recognitions_row : Construction.rowGrammar.validate = .ok () ∧
    ∃ rules, (Construction.automatonOf Construction.rowGrammar).extendedRules = .ok rules ∧
      ∃ r ∈ rules, r.reduceState? = some 3 ∧
        ∀ r' ∈ rules, r'.production = ⟨"S", ["a", "S"]⟩ ∧ r'.entry? = some 2 ↔ r' = r := by
  have hvalid : Construction.rowGrammar.validate = .ok () := by cbv
  have hitems : (Construction.automatonOf Construction.rowGrammar).itemSets[3]? =
      some [⟨⟨"S", ["a", "S"]⟩, 2⟩] := by cbv
  have hwalk : (Construction.automatonOf Construction.rowGrammar).walk? 2 ["a", "S"] = some 3 := by cbv
  obtain ⟨rules, hrules, -, -, -, hback⟩ := recognitions_of_validate hvalid
  exact ⟨hvalid, rules, hrules,
    hback ⟨"S", ["a", "S"]⟩ 2 3 ⟨_, hitems, List.mem_singleton_self _⟩ hwalk⟩

end Automaton

end Lalr
