import Lalr.Automaton.Basic
import Lalr.Proofs.Automaton.Closure
import Mathlib.Data.Finset.Powerset
import Mathlib.Data.Finset.Card

/-!
# Lalr.Proofs.Automaton.Exploration

The states are found by exploring: every state in turn is given its transitions, and what they lead
to is added unless a state with the same items is there.  `Explored` says what holds between two
turns, `RowFound` what holds while one state is given its transitions.

`explored_build` is the result: in the finished automaton every state has its transitions.  The
exploration ends because distinct states are distinct sets of items, of which there are no more than
`2 ^ itemCount`.
-/

namespace Lalr.Automaton

open Item (closure InClosure past)

variable {ps : Productions} {start : Item} {a : Automaton} {q t : Nat} {X : Symbol}

/-! ## walks -/

theorem walk?_append (a : Automaton) (q : Nat) (γ δ : List Symbol) :
    a.walk? q (γ ++ δ) = (a.walk? q γ).bind fun p => a.walk? p δ := by
  induction γ generalizing q with
  | nil => rfl
  | cons X γ ih =>
      simp only [List.cons_append, walk?]
      cases a.target? q X with
      | none => rfl
      | some t => exact ih t

theorem walk?_singleton (a : Automaton) (q : Nat) (X : Symbol) : a.walk? q [X] = a.target? q X := by
  simp only [walk?]
  cases a.target? q X <;> rfl

theorem walk?_snoc (a : Automaton) (q : Nat) (γ : List Symbol) (X : Symbol) :
    a.walk? q (γ ++ [X]) = (a.walk? q γ).bind fun p => a.target? p X := by
  rw [walk?_append]
  simp only [walk?_singleton]

/-- The number of a state and the state that a transition leads to are below the number of rows. -/
theorem exists_row_of_target? (h : a.target? q X = some t) :
    ∃ row, a.transitions[q]? = some row ∧ row.get? X = some t :=
  Option.bind_eq_some_iff.1 h

/-! ## finding the transitions of one state -/

/-- The state numbered `t` holds exactly the closure of some seeds. -/
def HoldsClosure (ps : Productions) (itemSets : List (List Item)) (t : Nat) (seeds : List Item) :
    Prop :=
  ∃ items, itemSets[t]? = some items ∧ ∀ i, i ∈ items ↔ InClosure ps seeds i

/-- Sets of items are distinct as sets. -/
def Distinct (itemSets : List (List Item)) : Prop :=
  itemSets.Pairwise fun a b => ¬ ∀ i, i ∈ a ↔ i ∈ b

theorem HoldsClosure.append {itemSets : List (List Item)} {seeds : List Item}
    (h : HoldsClosure ps itemSets t seeds) (more : List (List Item)) :
    HoldsClosure ps (itemSets ++ more) t seeds := by
  obtain ⟨items, hget, hmem⟩ := h
  have hlt : t < itemSets.length := (List.getElem?_eq_some_iff.1 hget).1
  exact ⟨items, by rwa [List.getElem?_append_left hlt], hmem⟩

theorem holdsClosure_closure (itemSets : List (List Item)) (seeds : List Item) :
    HoldsClosure ps (itemSets ++ [closure ps seeds]) itemSets.length seeds :=
  ⟨closure ps seeds, by simp, fun _ => Item.mem_closure_iff⟩

/-- What holds while the successors of a state are turned into transitions: `old` holds the item
sets before, and `done` the successors that have their transition. -/
structure RowFound (ps : Productions) (old : List (List Item)) (done : List (Symbol × List Item))
    (found : List (List Item) × Transitions) : Prop where
  grown : ∃ more, found.1 = old ++ more
  target : ∀ e ∈ done, ∃ t, found.2.get? e.1 = some t ∧ HoldsClosure ps found.1 t e.2
  only : ∀ X t, found.2.get? X = some t → ∃ e ∈ done, e.1 = X
  new : ∀ t, old.length ≤ t → t < found.1.length → ∃ X, found.2.get? X = some t
  closures : ∀ items ∈ found.1, items ∈ old ∨ ∃ e ∈ done, items = closure ps e.2
  distinct : Distinct found.1

/-- The item sets of a search are closures. -/
def AllClosures (ps : Productions) (itemSets : List (List Item)) : Prop :=
  ∀ items ∈ itemSets, ∃ seeds, items = closure ps seeds

theorem RowFound.allClosures {old : List (List Item)} {done : List (Symbol × List Item)}
    {found : List (List Item) × Transitions} (h : RowFound ps old done found)
    (hold : AllClosures ps old) : AllClosures ps found.1 := by
  intro items hmem
  rcases h.closures items hmem with hmem | ⟨e, -, rfl⟩
  · exact hold items hmem
  · exact ⟨e.2, rfl⟩

/-- Among closures, a state is found by its items. -/
theorem number?_eq_some {itemSets : List (List Item)} {seeds : List Item}
    (hc : AllClosures ps itemSets) (h : number? itemSets (closure ps seeds) = some t) :
    HoldsClosure ps itemSets t seeds := by
  obtain ⟨hlt, hsame, -⟩ := List.findIdx?_eq_some_iff_getElem.1 h
  obtain ⟨seeds', hs⟩ := hc _ (List.getElem_mem hlt)
  have hnd : itemSets[t].Nodup := hs ▸ Item.nodup_closure ps seeds'
  have hiff := (Item.sameItems_iff (Item.nodup_closure ps seeds) hnd).1 hsame
  exact ⟨itemSets[t], List.getElem?_eq_getElem hlt, fun i => by rw [← hiff, Item.mem_closure_iff]⟩

theorem number?_eq_none {itemSets : List (List Item)} {seeds : List Item}
    (hc : AllClosures ps itemSets) (h : number? itemSets (closure ps seeds) = none) :
    ∀ items ∈ itemSets, ¬ ∀ i, i ∈ items ↔ i ∈ closure ps seeds := by
  intro items hmem hiff
  obtain ⟨seeds', rfl⟩ := hc items hmem
  have hsame := (Item.sameItems_iff (Item.nodup_closure ps seeds) (Item.nodup_closure ps seeds')).2
    fun i => (hiff i).symm
  simpa [hsame] using List.findIdx?_eq_none_iff.1 h _ hmem

/-- The state of a transition is there already, or is added last. -/
theorem exists_addTransition_eq {found : List (List Item) × Transitions}
    (hc : AllClosures ps found.1) (e : Symbol × List Item) :
    ∃ more t, HoldsClosure ps (found.1 ++ more) t e.2 ∧
      addTransition ps found e = (found.1 ++ more, found.2.set e.1 t) ∧
      (more = [] ∨ more = [closure ps e.2] ∧ t = found.1.length ∧
        ∀ items ∈ found.1, ¬ ∀ i, i ∈ items ↔ i ∈ closure ps e.2) := by
  cases hn : number? found.1 (closure ps e.2) with
  | some t =>
      refine ⟨[], t, ?_, by simp [addTransition, hn], .inl rfl⟩
      simpa using number?_eq_some hc hn
  | none =>
      exact ⟨[closure ps e.2], found.1.length, holdsClosure_closure _ _,
        by simp [addTransition, hn], .inr ⟨rfl, rfl, number?_eq_none hc hn⟩⟩

/-- Giving one more transition. -/
theorem RowFound.addTransition {old : List (List Item)} {done : List (Symbol × List Item)}
    {found : List (List Item) × Transitions} (h : RowFound ps old done found)
    (hold : AllClosures ps old) {e : Symbol × List Item} (he : ∀ e' ∈ done, e'.1 ≠ e.1) :
    RowFound ps old (done ++ [e]) (addTransition ps found e) := by
  have hc := h.allClosures hold
  obtain ⟨more, t, hholds, heq, hmore⟩ := exists_addTransition_eq hc e
  rw [heq]
  exact {
    grown := by
      obtain ⟨more', hgrown⟩ := h.grown
      exact ⟨more' ++ more, by simp [hgrown]⟩
    target := by
      intro e' he'
      rcases List.mem_append.1 he' with he' | he'
      · obtain ⟨t', ht', hh⟩ := h.target e' he'
        refine ⟨t', ?_, hh.append more⟩
        rw [Keyed.get?_set, if_neg (he e' he').symm]
        exact ht'
      · obtain rfl := List.mem_singleton.1 he'
        exact ⟨t, by rw [Keyed.get?_set, if_pos rfl], hholds⟩
    only := by
      intro X t' ht'
      rw [Keyed.get?_set] at ht'
      split at ht'
      · next hX => exact ⟨e, by simp, hX⟩
      · obtain ⟨e', he', hX⟩ := h.only X t' ht'
        exact ⟨e', List.mem_append_left _ he', hX⟩
    new := by
      intro t' hle hlt
      by_cases hlt' : t' < found.1.length
      · obtain ⟨X, hX⟩ := h.new t' hle hlt'
        obtain ⟨e', he', hX'⟩ := h.only X t' hX
        refine ⟨X, ?_⟩
        rw [Keyed.get?_set, if_neg (hX' ▸ (he e' he').symm)]
        exact hX
      · rcases hmore with rfl | ⟨rfl, rfl, -⟩
        · simp at hlt
          omega
        · simp at hlt
          obtain rfl : t' = found.1.length := by omega
          exact ⟨e.1, by rw [Keyed.get?_set, if_pos rfl]⟩
    closures := by
      intro items hitems
      rcases List.mem_append.1 hitems with hitems | hitems
      · rcases h.closures items hitems with ho | ⟨e', he', rfl⟩
        · exact .inl ho
        · exact .inr ⟨e', List.mem_append_left _ he', rfl⟩
      · rcases hmore with rfl | ⟨rfl, -, -⟩
        · simp at hitems
        · exact .inr ⟨e, by simp, List.mem_singleton.1 hitems⟩
    distinct := by
      rcases hmore with rfl | ⟨rfl, -, hnew⟩
      · simpa using h.distinct
      · refine List.pairwise_append.2 ⟨h.distinct, List.pairwise_singleton _ _, ?_⟩
        intro items hitems items' hitems'
        exact List.mem_singleton.1 hitems' ▸ hnew items hitems }

theorem RowFound.foldl {old : List (List Item)} (hold : AllClosures ps old)
    (rest : List (Symbol × List Item)) {done : List (Symbol × List Item)}
    {found : List (List Item) × Transitions} (h : RowFound ps old done found)
    (hn : ((done ++ rest).map Prod.fst).Nodup) :
    RowFound ps old (done ++ rest) (rest.foldl (Automaton.addTransition ps) found) := by
  induction rest generalizing done found with
  | nil => simpa using h
  | cons e rest ih =>
      have he : ∀ e' ∈ done, e'.1 ≠ e.1 := by
        rw [List.map_append, List.nodup_append] at hn
        exact fun e' he' => hn.2.2 _ (List.mem_map_of_mem he') _ (by simp)
      have hstep := h.addTransition hold he
      rw [List.foldl_cons, show done ++ e :: rest = done ++ [e] ++ rest by simp]
      exact ih hstep (by simpa using hn)

/-- All transitions of a state are found. -/
theorem rowFound_expand {old : List (List Item)} (hold : AllClosures ps old)
    (hd : Distinct old) (items : List Item) :
    RowFound ps old (Item.successors items).entries (expand ps old items) := by
  have hinit : RowFound ps old [] (old, (∅ : Transitions)) :=
    ⟨⟨[], by simp⟩, by simp, by simp, fun t h h' => absurd h (Nat.not_le_of_lt h'),
      fun _ h => .inl h, hd⟩
  exact hinit.foldl hold _ (Item.successors items).nodup_keys

/-! ## exploring all states -/

/-- All items that a state may hold. -/
def allItems (ps : Productions) (start : Item) : List Item :=
  (start.production :: ps.values.flatten).flatMap fun p =>
    (List.range (p.length + 1)).map (Item.mk p)

theorem mem_allItems_iff {i : Item} :
    i ∈ allItems ps start ↔
      (i.production = start.production ∨ i.production ∈ ps.values.flatten) ∧ i.WellFormed := by
  obtain ⟨p, n⟩ := i
  simp only [allItems, List.mem_flatMap, List.mem_map, List.mem_range, List.mem_cons,
    Item.WellFormed, Item.mk.injEq, Nat.lt_succ_iff]
  exact ⟨fun ⟨p', hp, n', hn, he, hn'⟩ => he ▸ hn' ▸ ⟨hp, hn⟩, fun ⟨hp, hn⟩ => ⟨p, hp, n, hn, rfl, rfl⟩⟩

theorem length_allItems (ps : Productions) (start : Item) :
    (allItems ps start).length = itemCount ps start := by
  rw [allItems, itemCount, List.flatMap_cons, List.length_append, List.length_map, List.length_range]
  induction ps.values.flatten with
  | nil => rfl
  | cons p rest ih =>
      rw [List.flatMap_cons, List.length_append, List.length_map, List.length_range, List.foldr_cons]
      omega

theorem inClosure_allItems {seeds : List Item} (hs : ∀ i ∈ seeds, i ∈ allItems ps start) {i : Item}
    (h : InClosure ps seeds i) : i ∈ allItems ps start := by
  induction h with
  | seed h => exact hs _ h
  | expand _ _ hp _ => exact mem_allItems_iff.2 ⟨.inr hp.mem_flatten, Nat.zero_le _⟩

theorem past_allItems {items : List Item} (hs : ∀ i ∈ items, i ∈ allItems ps start) :
    ∀ i ∈ past X items, i ∈ allItems ps start := by
  intro j hj
  obtain ⟨i, hi, hnext, rfl⟩ := Item.mem_past_iff.1 hj
  have hlt : i.pointer < i.production.symbols.length := (List.getElem?_eq_some_iff.1 hnext).1
  exact mem_allItems_iff.2 ⟨(mem_allItems_iff.1 (hs i hi)).1, hlt⟩

/-- There are no more distinct states than sets of items. -/
theorem length_le_of_distinct {itemSets : List (List Item)} (hd : Distinct itemSets)
    (hu : ∀ items ∈ itemSets, ∀ i ∈ items, i ∈ allItems ps start) :
    itemSets.length ≤ 2 ^ itemCount ps start := by
  have hnd : (itemSets.map List.toFinset).Nodup := by
    refine List.pairwise_map.2 (hd.imp fun hne heq => hne fun i => ?_)
    rw [← List.mem_toFinset, heq, List.mem_toFinset]
  have hsub : (itemSets.map List.toFinset).toFinset ⊆ (allItems ps start).toFinset.powerset := by
    intro s hs
    obtain ⟨items, hitems, rfl⟩ := List.mem_map.1 (List.mem_toFinset.1 hs)
    refine Finset.mem_powerset.2 fun i hi => ?_
    exact List.mem_toFinset.2 (hu items hitems i (List.mem_toFinset.1 hi))
  calc itemSets.length = (itemSets.map List.toFinset).toFinset.card := by
        rw [List.toFinset_card_of_nodup hnd, List.length_map]
    _ ≤ (allItems ps start).toFinset.powerset.card := Finset.card_le_card hsub
    _ = 2 ^ (allItems ps start).toFinset.card := Finset.card_powerset _
    _ ≤ 2 ^ itemCount ps start := by
        refine Nat.pow_le_pow_right (by decide) ?_
        exact length_allItems ps start ▸ List.toFinset_card_le _

/-- What holds between two turns of the exploration: the states that have a row of transitions have
the right ones, and every state can be reached. -/
structure Explored (ps : Productions) (start : Item) (a : Automaton) : Prop where
  first : a.itemSets[0]? = some (closure ps [start])
  length_le : a.transitions.length ≤ a.itemSets.length
  closures : AllClosures ps a.itemSets
  within : ∀ items ∈ a.itemSets, ∀ i ∈ items, i ∈ allItems ps start
  distinct : Distinct a.itemSets
  target : ∀ q X t, a.target? q X = some t → ∃ items, a.itemSets[q]? = some items ∧
    past X items ≠ [] ∧ HoldsClosure ps a.itemSets t (past X items)
  total : ∀ q X items, q < a.transitions.length → a.itemSets[q]? = some items →
    past X items ≠ [] → ∃ t, a.target? q X = some t
  reachable : ∀ t < a.itemSets.length, ∃ γ, a.walk? 0 γ = some t

theorem explored_initial (hs : start.WellFormed) :
    Explored ps start ⟨[closure ps [start]], []⟩ where
  first := rfl
  length_le := Nat.zero_le _
  closures := fun items h => ⟨[start], List.mem_singleton.1 h⟩
  within := by
    intro items h i hi
    rw [List.mem_singleton.1 h, Item.mem_closure_iff] at hi
    refine inClosure_allItems (fun j hj => ?_) hi
    rw [List.mem_singleton.1 hj]
    exact mem_allItems_iff.2 ⟨.inl rfl, hs⟩
  distinct := List.pairwise_singleton _ _
  target := by simp [target?]
  total := by simp
  reachable := by
    intro t ht
    obtain rfl : t = 0 := by simpa using ht
    exact ⟨[], rfl⟩

/-- Adding a row keeps the transitions of the rows before it. -/
theorem target?_append_row {itemSets more : List (List Item)} {rows : List Transitions}
    (row : Transitions) :
    (⟨itemSets ++ more, rows ++ [row]⟩ : Automaton).target? q X =
      if q < rows.length then (⟨itemSets, rows⟩ : Automaton).target? q X
      else if q = rows.length then row.get? X else none := by
  simp only [target?]
  split
  · next h => rw [List.getElem?_append_left h]
  · next h =>
      rw [List.getElem?_append_right (Nat.le_of_not_lt h)]
      split
      · next h' => simp [h']
      · next h' =>
          have : q - rows.length ≠ 0 := by omega
          simp [this]

theorem target?_lt (h : a.target? q X = some t) : q < a.transitions.length := by
  obtain ⟨row, hrow, -⟩ := exists_row_of_target? h
  exact (List.getElem?_eq_some_iff.1 hrow).1

/-- Walks of an automaton are walks of one with more transitions. -/
theorem walk?_mono {b : Automaton} (h : ∀ q X t, a.target? q X = some t → b.target? q X = some t)
    {γ : List Symbol} (hw : a.walk? q γ = some t) : b.walk? q γ = some t := by
  induction γ generalizing q with
  | nil => exact hw
  | cons X γ ih =>
      obtain ⟨p, hp, hrest⟩ := Option.bind_eq_some_iff.1 hw
      simp only [walk?, h q X p hp]
      exact ih hrest

/-- More states and one more row keep the transitions that there are. -/
theorem target?_append {itemSets more : List (List Item)} {rows : List Transitions} {row : Transitions}
    (h : (⟨itemSets, rows⟩ : Automaton).target? q X = some t) :
    (⟨itemSets ++ more, rows ++ [row]⟩ : Automaton).target? q X = some t := by
  rw [target?_append_row, if_pos (target?_lt h)]
  exact h

/-- Giving the next state its transitions. -/
theorem Explored.expand {itemSets : List (List Item)} {rows : List Transitions}
    (h : Explored ps start ⟨itemSets, rows⟩) {items : List Item}
    (hitems : itemSets[rows.length]? = some items) :
    Explored ps start ⟨(Automaton.expand ps itemSets items).1,
      rows ++ [(Automaton.expand ps itemSets items).2]⟩ := by
  have hfound := rowFound_expand h.closures h.distinct items
  generalize Automaton.expand ps itemSets items = found at hfound
  obtain ⟨found, row⟩ := found
  obtain ⟨⟨more, rfl⟩, htarget, honly, hnew, hclosures, hdistinct⟩ := hfound
  simp only at htarget honly hnew hclosures hdistinct
  have hlt : rows.length < itemSets.length := (List.getElem?_eq_some_iff.1 hitems).1
  have hrow (X : Symbol) : (⟨itemSets ++ more, rows ++ [row]⟩ : Automaton).target? rows.length X =
      row.get? X := by
    rw [target?_append_row, if_neg (Nat.lt_irrefl _), if_pos rfl]
  have hget {q : Nat} {its : List Item} (h : itemSets[q]? = some its) :
      (itemSets ++ more)[q]? = some its := by
    rwa [List.getElem?_append_left (List.getElem?_eq_some_iff.1 h).1]
  exact {
    first := hget h.first
    length_le := by
      simp only [List.length_append, List.length_singleton]
      omega
    closures := by
      intro its hmem
      rcases hclosures its hmem with hmem | ⟨e, -, rfl⟩
      · exact h.closures its hmem
      · exact ⟨e.2, rfl⟩
    within := by
      intro its hmem i hi
      rcases hclosures its hmem with hmem | ⟨⟨X, seeds⟩, he, rfl⟩
      · exact h.within its hmem i hi
      · obtain ⟨-, rfl⟩ := Item.mem_successors_iff.1 he
        rw [Item.mem_closure_iff] at hi
        exact inClosure_allItems (past_allItems (h.within items (List.mem_of_getElem? hitems))) hi
    distinct := hdistinct
    target := by
      intro q X t ht
      rw [target?_append_row] at ht
      split at ht
      · obtain ⟨its, hits, hpast, hholds⟩ := h.target q X t ht
        exact ⟨its, hget hits, hpast, hholds.append more⟩
      · split at ht
        · next hq =>
            subst hq
            obtain ⟨⟨Y, seeds⟩, he, rfl⟩ := honly X t ht
            obtain ⟨t', ht', hholds⟩ := htarget _ he
            obtain ⟨hpast, rfl⟩ := Item.mem_successors_iff.1 he
            obtain rfl : t = t' := by simpa [ht] using ht'
            exact ⟨items, hget hitems, hpast, hholds⟩
        · contradiction
    total := by
      intro q X its hq hits hpast
      by_cases hqlt : q < rows.length
      · have hits' : itemSets[q]? = some its := by
          rwa [List.getElem?_append_left (Nat.lt_trans hqlt hlt)] at hits
        obtain ⟨t, ht⟩ := h.total q X its hqlt hits' hpast
        exact ⟨t, target?_append ht⟩
      · obtain rfl : q = rows.length := by
          simp only [List.length_append, List.length_singleton] at hq
          omega
        obtain rfl : items = its := by simpa [hget hitems] using hits
        obtain ⟨t, ht, -⟩ := htarget _ (Item.mem_successors_iff.2 ⟨hpast, rfl⟩)
        exact ⟨t, by rw [hrow]; exact ht⟩
    reachable := by
      intro t ht
      by_cases htold : t < itemSets.length
      · obtain ⟨γ, hγ⟩ := h.reachable t htold
        exact ⟨γ, walk?_mono (fun _ _ _ => target?_append) hγ⟩
      · -- A new state is the target of one of the new transitions.
        obtain ⟨X, hX⟩ := hnew t (Nat.le_of_not_lt htold) ht
        obtain ⟨γ, hγ⟩ := h.reachable rows.length hlt
        refine ⟨γ ++ [X], ?_⟩
        rw [walk?_snoc, walk?_mono (fun _ _ _ => target?_append) hγ, Option.bind_some, hrow]
        exact hX }

theorem Explored.complete (fuel : Nat) {itemSets : List (List Item)} {rows : List Transitions}
    (h : Explored ps start ⟨itemSets, rows⟩) :
    Explored ps start (Automaton.complete ps fuel itemSets rows) ∧
      ((Automaton.complete ps fuel itemSets rows).transitions.length =
          (Automaton.complete ps fuel itemSets rows).itemSets.length ∨
        (Automaton.complete ps fuel itemSets rows).transitions.length = rows.length + fuel) := by
  induction fuel generalizing itemSets rows with
  | zero => exact ⟨h, .inr rfl⟩
  | succ fuel ih =>
      cases hitems : itemSets[rows.length]? with
      | none =>
          have hle : itemSets.length ≤ rows.length := List.getElem?_eq_none_iff.1 hitems
          have hstop : Automaton.complete ps (fuel + 1) itemSets rows = ⟨itemSets, rows⟩ := by
            simp [Automaton.complete, hitems]
          rw [hstop]
          exact ⟨h, .inl (Nat.le_antisymm h.length_le hle)⟩
      | some items =>
          have hstep : Automaton.complete ps (fuel + 1) itemSets rows =
              Automaton.complete ps fuel (Automaton.expand ps itemSets items).1
                (rows ++ [(Automaton.expand ps itemSets items).2]) := by
            simp [Automaton.complete, hitems]
          rw [hstep]
          obtain ⟨hexp, hlen⟩ := ih (h.expand hitems)
          refine ⟨hexp, hlen.imp_right fun hlen => ?_⟩
          rw [hlen, List.length_append, List.length_singleton]
          omega

/-- The finished automaton: every state is explored, and every state has its transitions. -/
theorem explored_build (ps : Productions) (hs : start.WellFormed) :
    Explored ps start (build ps start) ∧
      (build ps start).transitions.length = (build ps start).itemSets.length := by
  have hinitial : Explored ps start ⟨[closure ps [start]], []⟩ := explored_initial hs
  obtain ⟨h, hlen⟩ := hinitial.complete (Nat.pow 2 (itemCount ps start))
  refine ⟨h, hlen.elim id fun hlen => Nat.le_antisymm h.length_le ?_⟩
  have hle : _ ≤ Nat.pow 2 (itemCount ps start) := length_le_of_distinct h.distinct h.within
  simp only [build, hlen, List.length_nil, Nat.zero_add] at hle ⊢
  exact hle

end Lalr.Automaton
