import Lalr.Proofs.Automaton.Validity
import Lalr.Proofs.Construction
import Mathlib

/-!
# Lalr.Proofs.Automaton.Canonical

The automaton of a grammar without mistakes is the canonical one (`canonical_of_validate`): its
walks from state 0 are the strings for which some item is valid, and a walk leads to the state that
has just these items.  There is one state for every such set of items, and none that no walk leads
to.

The states are found by a loop that is given fuel.  The loop ends because it is done, and not
because the fuel is spent: more fuel gives the same automaton (`complete_of_le`).
-/

namespace Lalr.Automaton

open Item (closure)

variable {ps : Productions} {start : Item} {g : Grammar} {itemSets : List (List Item)}
  {rows : List Transitions} {fuel n : Nat}

/-! ## fuel -/

/-- When all states have their transitions, the loop is done. -/
theorem complete_of_finished (h : itemSets.length ≤ rows.length) :
    complete ps fuel itemSets rows = ⟨itemSets, rows⟩ := by
  cases fuel <;> simp [complete, h]

theorem complete_succ {items : List Item} (h : itemSets[rows.length]? = some items) :
    complete ps (fuel + 1) itemSets rows =
      complete ps fuel (expand ps itemSets items).1 (rows ++ [(expand ps itemSets items).2]) := by
  simp [complete, h]

/-- Some fuel may be spent first and the rest afterwards. -/
theorem complete_add (n fuel : Nat) (itemSets : List (List Item)) (rows : List Transitions) :
    complete ps (n + fuel) itemSets rows =
      complete ps fuel (complete ps n itemSets rows).itemSets
        (complete ps n itemSets rows).transitions := by
  induction n generalizing itemSets rows with
  | zero =>
      rw [Nat.zero_add]
      rfl
  | succ n ih =>
      cases hitems : itemSets[rows.length]? with
      | none =>
          have hle := List.getElem?_eq_none_iff.1 hitems
          rw [complete_of_finished hle, complete_of_finished hle, complete_of_finished hle]
      | some items =>
          rw [Nat.succ_add, complete_succ hitems, complete_succ hitems]
          exact ih _ _

/-- The fuel that an automaton is built with is enough. -/
theorem complete_of_le (hs : start.WellFormed) (h : 2 ^ itemCount ps start ≤ fuel) :
    complete ps fuel [closure ps [start]] [] = build ps start := by
  obtain ⟨k, rfl⟩ := Nat.exists_eq_add_of_le h
  rw [complete_add]
  exact complete_of_finished (Nat.le_of_eq (explored_build ps hs).2.symm)

/-! ## the canonical automaton -/

/-- An automaton is canonical for a grammar if it tells the strings apart by the items that are valid for
them, and has nothing beside that. -/
structure Canonical (g : Grammar) (a : Automaton) : Prop where
  /-- The walks from state 0 are the strings for which some item is valid. -/
  walk_iff : ∀ γ, (∃ q, a.walk? 0 γ = some q) ↔ ∃ i, g.ValidItem γ i
  /-- A walk leads to the state that has the items that are valid for it. -/
  holds_iff : ∀ γ q, a.walk? 0 γ = some q → ∀ i, a.Holds q i ↔ g.ValidItem γ i
  /-- States with the same items are the same. -/
  distinct : ∀ q < a.size, ∀ q' < a.size, (∀ i, a.Holds q i ↔ a.Holds q' i) → q = q'
  /-- Every state is the end of a walk. -/
  reachable : ∀ q < a.size, ∃ γ, a.walk? 0 γ = some q
  /-- A state has transitions on the symbols that its items point at, and on no others. -/
  target_iff : ∀ q X, (∃ t, a.target? q X = some t) ↔ ∃ i, a.Holds q i ∧ i.next? = some X
  /-- Every state has its row of transitions. -/
  finished : a.transitions.length = a.size

theorem holds_getElem_iff {a : Automaton} {q : Nat} (hq : q < a.itemSets.length) {i : Item} :
    a.Holds q i ↔ i ∈ a.itemSets[q] := by
  rw [Holds, List.getElem?_eq_getElem hq]
  simp

/-- Distinct states are told apart by their items. -/
theorem Distinct.eq_of_holds {a : Automaton} (h : Distinct a.itemSets) {q q' : Nat} (hq : q < a.size)
    (hq' : q' < a.size) (hsame : ∀ i, a.Holds q i ↔ a.Holds q' i) : q = q' := by
  have hitems (i : Item) : i ∈ a.itemSets[q] ↔ i ∈ a.itemSets[q'] := by
    rw [← holds_getElem_iff hq, hsame, holds_getElem_iff hq']
  rcases Nat.lt_trichotomy q q' with hlt | rfl | hlt
  · exact absurd hitems (List.pairwise_iff_getElem.1 h q q' hq hq' hlt)
  · rfl
  · exact absurd (fun i => (hitems i).symm) (List.pairwise_iff_getElem.1 h q' q hq' hq hlt)

theorem canonical_automatonOf (hg : g.WellFormed) : Canonical g (Construction.automatonOf g) := by
  obtain ⟨hexplored, hfinished⟩ := explored_automatonOf g
  constructor
  case walk_iff =>
    intro γ
    constructor
    · rintro ⟨q, hw⟩
      exact exists_validItem hg hw
    · rintro ⟨i, hi⟩
      obtain ⟨q, hw, -⟩ := exists_walk_of_validItem hg hi
      exact ⟨q, hw⟩
  case holds_iff => exact fun γ q hw i => Automaton.holds_iff hg hw
  case distinct => exact fun q hq q' hq' => hexplored.distinct.eq_of_holds hq hq'
  case reachable => exact hexplored.reachable
  case target_iff =>
    intro q X
    constructor
    · rintro ⟨t, ht⟩
      exact exists_holds_of_target ht
    · rintro ⟨i, hi, hnext⟩
      exact hi.exists_target hnext
  case finished => exact hfinished

/-- A grammar that passes its check has the canonical automaton, and finding it takes no more turns than
there are sets of items. -/
theorem canonical_of_validate (h : g.validate = .ok ()) :
    Canonical g (Construction.automatonOf g) ∧
      ∀ fuel, 2 ^ itemCount (Construction.augmented g) (.fresh (Construction.startProduction g)) ≤ fuel →
        complete (Construction.augmented g) fuel
          [closure (Construction.augmented g) [.fresh (Construction.startProduction g)]] [] =
            Construction.automatonOf g :=
  ⟨canonical_automatonOf (Grammar.wellFormed_of_validate h), fun _ => complete_of_le (Nat.zero_le _)⟩

/-- A row of two `a`s has been seen with another row after it. -/
theorem canonical_row : Construction.rowGrammar.validate = .ok () ∧
    (Construction.automatonOf Construction.rowGrammar).walk? 0 ["a", "a", "S"] = some 3 ∧
      ∀ i, (Construction.automatonOf Construction.rowGrammar).Holds 3 i ↔
        Construction.rowGrammar.ValidItem ["a", "a", "S"] i := by
  have hvalid : Construction.rowGrammar.validate = .ok () := by cbv
  have hwalk : (Construction.automatonOf Construction.rowGrammar).walk? 0 ["a", "a", "S"] = some 3 := by
    cbv
  exact ⟨hvalid, hwalk, (canonical_of_validate hvalid).1.holds_iff _ _ hwalk⟩

end Lalr.Automaton
