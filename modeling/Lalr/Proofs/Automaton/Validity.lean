import Lalr.Proofs.Automaton.Exploration
import Lalr.Proofs.Grammar.Context

/-!
# Lalr.Proofs.Automaton.Validity

The automaton of a grammar tells exactly which items are valid: a string of symbols leads somewhere
from state 0 if some item is valid for it, and the state it leads to holds the items that are
(`holds_iff`).  Whatever the parser has on its stack is such a string, so this is how the parser's
proofs learn what its states mean.
-/

namespace Lalr.Automaton

open Item (closure InClosure past)

/-- A state has an item. -/
def Holds (a : Automaton) (q : Nat) (i : Item) : Prop :=
  ∃ items, a.itemSets[q]? = some items ∧ i ∈ items

variable {g : Grammar} {q t : Nat} {X : Symbol} {γ : List Symbol} {i : Item} {p : Production}

/-- The automaton of a grammar is fully explored. -/
theorem explored_automatonOf (g : Grammar) :
    Explored (Construction.augmented g) (.fresh (Construction.startProduction g))
        (Construction.automatonOf g) ∧
      (Construction.automatonOf g).transitions.length =
        (Construction.automatonOf g).itemSets.length :=
  explored_build _ (Nat.zero_le _)

theorem holds_of_holdsClosure {a : Automaton} {ps : Productions} {seeds : List Item}
    (h : HoldsClosure ps a.itemSets t seeds) : a.Holds t i ↔ InClosure ps seeds i := by
  obtain ⟨items, hget, hmem⟩ := h
  rw [← hmem]
  exact ⟨fun ⟨items', hget', hi⟩ => by simp_all, fun hi => ⟨items, hget, hi⟩⟩

/-- There are states only up to the number of item sets. -/
theorem Holds.lt_size {a : Automaton} (h : a.Holds q i) : q < a.itemSets.length := by
  obtain ⟨items, hget, -⟩ := h
  exact (List.getElem?_eq_some_iff.1 hget).1

/-! ## transitions -/

/-- Transitions lead to states that there are. -/
theorem target?_lt_size (h : (Construction.automatonOf g).target? q X = some t) :
    t < (Construction.automatonOf g).itemSets.length := by
  obtain ⟨-, -, -, items, hget, -⟩ := (explored_automatonOf g).1.target q X t h
  exact (List.getElem?_eq_some_iff.1 hget).1

/-- A transition moves the items that point at its symbol past it. -/
theorem Holds.shift (h : (Construction.automatonOf g).Holds q i) (hi : i.next? = some X)
    (ht : (Construction.automatonOf g).target? q X = some t) :
    (Construction.automatonOf g).Holds t i.shifted := by
  obtain ⟨items, hget, hmem⟩ := h
  obtain ⟨items', hget', -, hholds⟩ := (explored_automatonOf g).1.target q X t ht
  obtain rfl : items = items' := by simpa [hget] using hget'
  exact (holds_of_holdsClosure hholds).2 (.seed (Item.mem_past_iff.2 ⟨i, hmem, hi, rfl⟩))

/-- A state has a transition on every symbol that one of its items points at. -/
theorem Holds.exists_target (h : (Construction.automatonOf g).Holds q i) (hi : i.next? = some X) :
    ∃ t, (Construction.automatonOf g).target? q X = some t := by
  obtain ⟨items, hget, hmem⟩ := id h
  obtain ⟨hexp, hlen⟩ := explored_automatonOf g
  exact hexp.total q X items (hlen ▸ h.lt_size) hget (Item.past_ne_nil_iff.2 ⟨i, hmem, hi⟩)

/-- A state has a transition only on symbols that its items point at. -/
theorem exists_holds_of_target (h : (Construction.automatonOf g).target? q X = some t) :
    ∃ i, (Construction.automatonOf g).Holds q i ∧ i.next? = some X := by
  obtain ⟨items, hget, hpast, -⟩ := (explored_automatonOf g).1.target q X t h
  obtain ⟨i, hi, hnext⟩ := Item.past_ne_nil_iff.1 hpast
  exact ⟨i, ⟨items, hget, hi⟩, hnext⟩

/-- Every state is the end of a walk. -/
theorem exists_walk (h : (Construction.automatonOf g).Holds q i) :
    ∃ γ, (Construction.automatonOf g).walk? 0 γ = some q :=
  (explored_automatonOf g).1.reachable q h.lt_size

theorem exists_walk_of_target (h : (Construction.automatonOf g).target? q X = some t) :
    ∃ γ, (Construction.automatonOf g).walk? 0 γ = some q := by
  obtain ⟨i, hi, -⟩ := exists_holds_of_target h
  exact exists_walk hi

theorem holds_zero_iff : (Construction.automatonOf g).Holds 0 i ↔
    InClosure (Construction.augmented g) [.fresh (Construction.startProduction g)] i :=
  holds_of_holdsClosure ⟨_, (explored_automatonOf g).1.first, fun _ => Item.mem_closure_iff⟩

/-- A state holds the fresh productions of every nonterminal that one of its items points at. -/
theorem Holds.expand (hg : g.WellFormed) (h : (Construction.automatonOf g).Holds q i)
    (hi : i.next? = some p.name) (hp : g.HasProduction p) :
    (Construction.automatonOf g).Holds q (.fresh p) := by
  obtain ⟨items, hget, hmem⟩ := h
  obtain ⟨seeds, rfl⟩ := (explored_automatonOf g).1.closures items (List.mem_of_getElem? hget)
  refine ⟨_, hget, Item.mem_closure_iff.2 ?_⟩
  exact (Item.mem_closure_iff.1 hmem).expand hi (hg.augmented_lists_iff.2 ⟨hp, rfl⟩)

/-- The symbols of a production lead from a state where it is fresh to one where all of them are
seen. -/
theorem Holds.completed (h : (Construction.automatonOf g).Holds q (.fresh p))
    (hw : (Construction.automatonOf g).walk? q p.symbols = some t) :
    (Construction.automatonOf g).Holds t ⟨p, p.length⟩ := by
  have hprefix (n : Nat) (hn : n ≤ p.symbols.length) : ∀ s,
      (Construction.automatonOf g).walk? q (p.symbols.take n) = some s →
        (Construction.automatonOf g).Holds s ⟨p, n⟩ := by
    induction n with
    | zero =>
        intro s hs
        obtain rfl : q = s := by simpa [walk?] using hs
        exact h
    | succ n ih =>
        intro s hs
        have hlt : n < p.symbols.length := hn
        rw [← List.take_append_getElem hlt, walk?_snoc] at hs
        obtain ⟨s', hs', ht⟩ := Option.bind_eq_some_iff.1 hs
        have hnext : (⟨p, n⟩ : Item).next? = some p.symbols[n] := List.getElem?_eq_getElem hlt
        exact (ih (Nat.le_of_lt hlt) s' hs').shift hnext ht
  exact hprefix _ (Nat.le_refl _) t (by rwa [List.take_length])

/-! ## valid items -/

/-- The least closed set around valid items holds valid items. -/
theorem validItem_of_inClosure (hg : g.WellFormed) {seeds : List Item}
    (hs : ∀ j ∈ seeds, g.ValidItem γ j) (h : InClosure (Construction.augmented g) seeds i) :
    g.ValidItem γ i := by
  induction h with
  | seed h => exact hs _ h
  | expand _ hi hp ih =>
      obtain ⟨hprod, rfl⟩ := hg.augmented_lists_iff.1 hp
      exact ih.expand hi hprod

/-- The items of the state that a string leads to are valid for it. -/
theorem validItem_of_holds (hg : g.WellFormed)
    (hw : (Construction.automatonOf g).walk? 0 γ = some q)
    (h : (Construction.automatonOf g).Holds q i) : g.ValidItem γ i := by
  induction γ using List.reverseRecOn generalizing q i with
  | nil =>
      obtain rfl : 0 = q := by simpa [walk?] using hw
      refine validItem_of_inClosure hg (fun j hj => ?_) (holds_zero_iff.1 h)
      exact List.mem_singleton.1 hj ▸ .start
  | append_singleton γ X ih =>
      rw [walk?_snoc] at hw
      obtain ⟨p, hp, ht⟩ := Option.bind_eq_some_iff.1 hw
      obtain ⟨items, hget, -, hholds⟩ := (explored_automatonOf g).1.target p X q ht
      refine validItem_of_inClosure hg (fun j hj => ?_) ((holds_of_holdsClosure hholds).1 h)
      obtain ⟨k, hk, hnext, rfl⟩ := Item.mem_past_iff.1 hj
      exact (ih hp ⟨items, hget, hk⟩).shift hnext

/-- The items of a state belong to productions of the grammar, and their pointers lie within. -/
theorem Holds.hasProduction (hg : g.WellFormed) (h : (Construction.automatonOf g).Holds q i) :
    g.HasProduction i.production ∧ i.WellFormed := by
  obtain ⟨γ, hγ⟩ := exists_walk h
  obtain ⟨-, -, -, hprod, hle, -⟩ := (Grammar.validItem_iff hg).1 (validItem_of_holds hg hγ h)
  exact ⟨hprod, hle⟩

/-- A transition is on a symbol of some production. -/
theorem visible_of_target (hg : g.WellFormed)
    (ht : (Construction.automatonOf g).target? q X = some t) : Grammar.WellFormed.Visible g X := by
  obtain ⟨i, hi, hnext⟩ := exists_holds_of_target ht
  exact hg.visible_of_mem (hi.hasProduction hg).1 (List.mem_of_getElem? hnext)

/-- A state is entered on one symbol only: a string that leads to it ends with the symbol. -/
theorem exists_eq_snoc (hg : g.WellFormed) (ht : (Construction.automatonOf g).target? q X = some t)
    (hw : (Construction.automatonOf g).walk? 0 γ = some t) : ∃ δ, γ = δ ++ [X] := by
  obtain ⟨i, hi, hnext⟩ := exists_holds_of_target ht
  obtain ⟨d, tail, -, -, -, rfl⟩ :=
    (Grammar.validItem_iff hg).1 (validItem_of_holds hg hw (hi.shift hnext ht))
  exact ⟨_, by rw [Item.take_shifted hnext, ← List.append_assoc]⟩

/-- A string for which an item is valid leads to a state that has the item. -/
theorem exists_walk_of_validItem (hg : g.WellFormed) (h : g.ValidItem γ i) :
    ∃ q, (Construction.automatonOf g).walk? 0 γ = some q ∧
      (Construction.automatonOf g).Holds q i := by
  induction h with
  | start => exact ⟨0, rfl, holds_zero_iff.2 (.seed (List.mem_singleton_self _))⟩
  | expand _ hi hp ih =>
      obtain ⟨q, hw, hq⟩ := ih
      exact ⟨q, hw, hq.expand hg hi hp⟩
  | shift _ hi ih =>
      obtain ⟨q, hw, hq⟩ := ih
      obtain ⟨t, ht⟩ := hq.exists_target hi
      exact ⟨t, by rw [walk?_snoc, hw]; exact ht, hq.shift hi ht⟩

/-- The state that a string leads to has exactly the items that are valid for the string. -/
theorem holds_iff (hg : g.WellFormed) (hw : (Construction.automatonOf g).walk? 0 γ = some q) :
    (Construction.automatonOf g).Holds q i ↔ g.ValidItem γ i := by
  refine ⟨validItem_of_holds hg hw, fun h => ?_⟩
  obtain ⟨q', hw', hq⟩ := exists_walk_of_validItem hg h
  obtain rfl : q = q' := by simpa [hw] using hw'
  exact hq

/-- Some item is valid for every string that leads somewhere. -/
theorem exists_validItem (hg : g.WellFormed)
    (hw : (Construction.automatonOf g).walk? 0 γ = some q) : ∃ i, g.ValidItem γ i := by
  induction γ using List.reverseRecOn generalizing q with
  | nil => exact ⟨_, .start⟩
  | append_singleton γ X _ =>
      rw [walk?_snoc] at hw
      obtain ⟨p, hp, ht⟩ := Option.bind_eq_some_iff.1 hw
      obtain ⟨i, hi, hnext⟩ := exists_holds_of_target ht
      exact ⟨_, (validItem_of_holds hg hp hi).shift hnext⟩

/-- Every string leads to a state that there is. -/
theorem walk?_lt_size (hg : g.WellFormed) (hw : (Construction.automatonOf g).walk? 0 γ = some q) :
    q < (Construction.automatonOf g).itemSets.length := by
  obtain ⟨i, hi⟩ := exists_validItem hg hw
  exact ((holds_iff hg hw).2 hi).lt_size

/-- The state in front of a symbol of a production has a transition on the symbol. -/
theorem exists_target_of_context (hg : g.WellFormed) {d b r tail : List Symbol} {A : Symbol}
    (hctx : g.Context d A tail) (hp : g.HasProduction ⟨A, b ++ X :: r⟩)
    (hq : (Construction.automatonOf g).walk? 0 (d ++ b) = some q) :
    ∃ t, (Construction.automatonOf g).target? q X = some t := by
  have hval : g.ValidItem (d ++ b) ⟨⟨A, b ++ X :: r⟩, b.length⟩ :=
    (Grammar.validItem_iff hg).2 ⟨d, tail, hctx, hp, by simp [Production.length], by simp⟩
  exact ((holds_iff hg hq).2 hval).exists_target (by simp [Item.next?])

/-! ## what a fresh production finds -/

/-- The symbols of a production lead somewhere from a state where it is fresh. -/
theorem Holds.exists_walk_symbols (hg : g.WellFormed)
    (h : (Construction.automatonOf g).Holds q (.fresh p)) :
    ∃ t, (Construction.automatonOf g).walk? q p.symbols = some t := by
  obtain ⟨γ, hγ⟩ := exists_walk h
  have hval := (validItem_of_holds hg hγ h).advance (Nat.le_refl p.length)
  obtain ⟨t, ht, -⟩ := exists_walk_of_validItem hg hval
  rw [Production.length, List.take_length, walk?_append, hγ] at ht
  exact ⟨t, ht⟩

/-- A state where a production is fresh has a transition on the nonterminal, except for the start. -/
theorem Holds.exists_target_name (hg : g.WellFormed)
    (h : (Construction.automatonOf g).Holds q (.fresh p)) (hp : p.name ≠ startSymbol) :
    ∃ t, (Construction.automatonOf g).target? q p.name = some t := by
  obtain ⟨γ, hγ⟩ := exists_walk h
  obtain ⟨d, tail, hctx, -, -, hd⟩ := (Grammar.validItem_iff hg).1 (validItem_of_holds hg hγ h)
  obtain rfl : γ = d := by simpa [Item.fresh] using hd
  change g.Context γ p.name tail at hctx
  generalize p.name = A at hctx hp ⊢
  cases hctx with
  | start => exact absurd rfl hp
  | step houter hprod => exact exists_target_of_context hg houter hprod hγ

end Lalr.Automaton
