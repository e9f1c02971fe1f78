import Lalr.Automaton.Closure
import Lalr.Proofs.Grammar.Productions
import Mathlib.Data.List.Perm.Subperm
import Mathlib.Order.Bounds.Basic

/-!
# Lalr.Proofs.Automaton.Closure

The closure of seed items holds exactly the items of the least closed set around the seeds
(`Item.isLeast_closureIn`, and `Item.mem_closure_iff` for the productions of a grammar), each once
(`Item.nodup_closureIn`), and the successors of a set of items on a symbol are the items before that
symbol, moved past it (`Item.get?_successors`).

The invariant of the search is `Pending`: what a closed item brings in is closed or queued, and all
that is closed or queued belongs to every closed set around the seeds.
-/

namespace Lalr.Item

variable {es : Expansions} {ps : Productions} {seeds closed queue : List Item} {i : Item}
  {X : Symbol}

/-- A set of items that holds the seeds and, with every item that points at a symbol, all that is
listed under that symbol. -/
structure ClosedOver (es : Expansions) (seeds : List Item) (S : Set Item) : Prop where
  seeds : ∀ i ∈ seeds, i ∈ S
  expand : ∀ i ∈ S, ∀ X, i.next? = some X → ∀ j ∈ es.under X, j ∈ S

/-- The least set that holds the seeds and, with every item that points at a nonterminal, the
productions of that nonterminal with nothing seen. -/
inductive InClosure (ps : Productions) (seeds : List Item) : Item → Prop
  | seed {i : Item} (h : i ∈ seeds) : InClosure ps seeds i
  | expand {i : Item} {X : Symbol} {p : Production} (h : InClosure ps seeds i)
      (hi : i.next? = some X) (hp : ps.Lists X p) : InClosure ps seeds (fresh p)

/-! ## the search -/

/-- An item brings in what is listed under the symbol it points at. -/
theorem mem_broughtBy_iff {j : Item} :
    j ∈ es.broughtBy i ↔ ∃ X, i.next? = some X ∧ j ∈ es.under X := by
  cases h : i.next? <;> simp [Expansions.broughtBy, h]

/-- What holds at every turn of the search. -/
structure Pending (es : Expansions) (seeds closed queue : List Item) : Prop where
  sound : ∀ j, j ∈ closed ∨ j ∈ queue → ∀ S, ClosedOver es seeds S → j ∈ S
  seeded : ∀ j ∈ seeds, j ∈ closed ∨ j ∈ queue
  expanded : ∀ j ∈ closed, ∀ k ∈ es.broughtBy j, k ∈ closed ∨ k ∈ queue
  nodup : closed.Nodup

namespace Pending

variable {item : Item} {rest : List Item}

theorem initial (es : Expansions) (seeds : List Item) : Pending es seeds [] seeds where
  sound j hj _ hS := hS.seeds j (hj.resolve_left List.not_mem_nil)
  seeded _ h := .inr h
  expanded _ h := absurd h List.not_mem_nil
  nodup := List.nodup_nil

/-- An item that is closed already is dropped. -/
theorem skip (h : Pending es seeds closed (item :: rest)) (hmem : item ∈ closed) :
    Pending es seeds closed rest := by
  have hkeep {j : Item} (hj : j ∈ closed ∨ j ∈ item :: rest) : j ∈ closed ∨ j ∈ rest :=
    hj.elim .inl fun hj => (List.mem_cons.1 hj).elim (fun e => .inl (e ▸ hmem)) .inr
  exact {
    sound := fun j hj => h.sound j (hj.imp_right (List.mem_cons_of_mem _))
    seeded := fun j hj => hkeep (h.seeded j hj)
    expanded := fun j hj k hk => hkeep (h.expanded j hj k hk)
    nodup := h.nodup }

/-- An item that is not closed is, and what it brings in is queued unless it is closed. -/
theorem close (h : Pending es seeds closed (item :: rest)) (hmem : item ∉ closed) :
    Pending es seeds (closed ++ [item])
      (rest ++ (es.broughtBy item).filter (· ∉ closed ++ [item])) := by
  have hkeep {j : Item} (hj : j ∈ closed ∨ j ∈ item :: rest) : j ∈ closed ++ [item] ∨
      j ∈ rest ++ (es.broughtBy item).filter (· ∉ closed ++ [item]) := by
    simp only [List.mem_cons, List.mem_append] at hj ⊢
    tauto
  have hbrought {k : Item} (hk : k ∈ es.broughtBy item) : k ∈ closed ++ [item] ∨
      k ∈ rest ++ (es.broughtBy item).filter (· ∉ closed ++ [item]) := by
    by_cases hclosed : k ∈ closed ++ [item]
    · exact .inl hclosed
    · exact .inr (List.mem_append_right _ (List.mem_filter.2 ⟨hk, decide_eq_true hclosed⟩))
  exact {
    sound := by
      intro j hj S hS
      have hcases : (j ∈ closed ∨ j ∈ item :: rest) ∨ j ∈ es.broughtBy item := by
        simp only [List.mem_append, List.mem_cons, List.mem_filter, List.not_mem_nil] at hj ⊢
        tauto
      rcases hcases with hj | hj
      · exact h.sound j hj S hS
      · obtain ⟨X, hX, hjX⟩ := mem_broughtBy_iff.1 hj
        exact hS.expand item (h.sound item (.inr List.mem_cons_self) S hS) X hX j hjX
    seeded := fun j hj => hkeep (h.seeded j hj)
    expanded := by
      intro j hj k hk
      rcases List.mem_append.1 hj with hj | hj
      · exact hkeep (h.expanded j hj k hk)
      · obtain rfl := List.mem_singleton.1 hj
        exact hbrought hk
    nodup := by
      rw [List.nodup_append]
      refine ⟨h.nodup, by simp, fun a ha b hb e => hmem ?_⟩
      rwa [← List.mem_singleton.1 hb, ← e] }

/-- The invariant holds at the end of the search, when nothing is queued. -/
theorem closeFrom (h : Pending es seeds closed queue) :
    Pending es seeds (Item.closeFrom es closed queue) [] := by
  fun_induction Item.closeFrom es closed queue with
  | case1 closed => exact h
  | case2 closed item rest hmem ih => exact ih (h.skip hmem)
  | case3 closed item rest hmem ih => exact ih (h.close hmem)

end Pending

/-! ## the closure -/

/-- The closure of seed items is the least closed set around them. -/
theorem isLeast_closureIn (es : Expansions) (seeds : List Item) :
    IsLeast {S | ClosedOver es seeds S} {i | i ∈ closureIn es seeds} := by
  have hend := (Pending.initial es seeds).closeFrom
  refine ⟨⟨fun i hi => ?_, fun i hi X hX j hj => ?_⟩, fun S hS i hi => ?_⟩
  · exact (hend.seeded i hi).resolve_right List.not_mem_nil
  · have hbrought : j ∈ es.broughtBy i := mem_broughtBy_iff.2 ⟨X, hX, hj⟩
    exact (hend.expanded i hi j hbrought).resolve_right List.not_mem_nil
  · exact hend.sound i (.inl hi) S hS

theorem nodup_closureIn (es : Expansions) (seeds : List Item) : (closureIn es seeds).Nodup :=
  (Pending.initial es seeds).closeFrom.nodup

/-- What is listed under a nonterminal are its productions with nothing seen. -/
theorem mem_under_expansions_iff :
    i ∈ ps.expansions.under X ↔ ∃ p, ps.Lists X p ∧ fresh p = i := by
  rw [Expansions.under, Productions.expansions, Keyed.get?_mapValues]
  cases h : ps.get? X <;> simp [Productions.Lists, h]

/-- The closure of seed items under productions is the least closed set that holds them. -/
theorem mem_closure_iff : i ∈ closure ps seeds ↔ InClosure ps seeds i := by
  have hleast := isLeast_closureIn ps.expansions seeds
  have hclosed : ClosedOver ps.expansions seeds {i | InClosure ps seeds i} := by
    refine ⟨fun i hi => .seed hi, fun i hi X hX j hj => ?_⟩
    obtain ⟨p, hp, rfl⟩ := mem_under_expansions_iff.1 hj
    exact .expand hi hX hp
  constructor
  · exact fun h => hleast.2 hclosed h
  · intro h
    induction h with
    | seed h => exact hleast.1.seeds _ h
    | expand _ hi hp ih => exact hleast.1.expand _ ih _ hi _ (mem_under_expansions_iff.2 ⟨_, hp, rfl⟩)

theorem nodup_closure (ps : Productions) (seeds : List Item) : (closure ps seeds).Nodup :=
  nodup_closureIn ps.expansions seeds

/-! ## comparing closures -/

/-- Closures compare equal exactly if they have the same items. -/
theorem sameItems_iff {a b : List Item} (ha : a.Nodup) (hb : b.Nodup) :
    sameItems a b ↔ ∀ i, i ∈ a ↔ i ∈ b := by
  simp only [sameItems, Bool.and_eq_true, beq_iff_eq, List.all_eq_true, List.contains_iff_mem]
  constructor
  · rintro ⟨hlen, hsub⟩ i
    exact ((List.subperm_of_subset ha hsub).perm_of_length_le (Nat.le_of_eq hlen.symm)).mem_iff
  · intro h
    have hperm : a.Perm b := (List.perm_ext_iff_of_nodup ha hb).2 h
    exact ⟨hperm.length_eq, fun i hi => (h i).1 hi⟩

/-! ## the closures of other seeds -/

/-- More seeds have a larger closure. -/
theorem closureIn_subset_closureIn {seeds' : List Item} (h : seeds ⊆ seeds') :
    closureIn es seeds ⊆ closureIn es seeds' := by
  obtain ⟨hclosed, -⟩ := isLeast_closureIn es seeds'
  exact (isLeast_closureIn es seeds).2 ⟨fun i hi => hclosed.seeds i (h hi), hclosed.expand⟩

/-- The closure does not depend on the order of the seeds, nor on how often they are given. -/
theorem sameItems_closureIn {seeds' : List Item} (h : ∀ i, i ∈ seeds ↔ i ∈ seeds') :
    sameItems (closureIn es seeds) (closureIn es seeds') := by
  rw [sameItems_iff (nodup_closureIn es seeds) (nodup_closureIn es seeds')]
  exact fun i => ⟨fun hi => closureIn_subset_closureIn (fun j => (h j).1) hi,
    fun hi => closureIn_subset_closureIn (fun j => (h j).2) hi⟩

/-- Closing the items of a closure brings in nothing. -/
theorem sameItems_closureIn_closureIn (es : Expansions) (seeds : List Item) :
    sameItems (closureIn es seeds) (closureIn es (closureIn es seeds)) := by
  rw [sameItems_iff (nodup_closureIn es _) (nodup_closureIn es _)]
  have hself : ClosedOver es (closureIn es seeds) {i | i ∈ closureIn es seeds} :=
    ⟨fun i hi => hi, (isLeast_closureIn es seeds).1.expand⟩
  have hagain := isLeast_closureIn es (closureIn es seeds)
  exact fun i => ⟨fun hi => hagain.1.seeds i hi, fun hi => hagain.2 hself hi⟩

/-! ## pointers that can be read -/

/-- No closure of well-formed items has an ill-formed one, so the search goes through. -/
theorem wellFormed_of_mem_closureIn (hes : ∀ j ∈ es.listed, j.WellFormed)
    (hseeds : ∀ i ∈ seeds, i.WellFormed) (h : i ∈ closureIn es seeds) : i.WellFormed := by
  have hclosed : ClosedOver es seeds {i | i.WellFormed} :=
    ⟨hseeds, fun _ _ X _ j hj => hes j ((es.under_sublist_listed X).subset hj)⟩
  exact (isLeast_closureIn es seeds).2 hclosed h

theorem closureIn?_eq_ok (hes : ∀ j ∈ es.listed, j.WellFormed)
    (hseeds : ∀ i ∈ seeds, i.WellFormed) : closureIn? es seeds = .ok (closureIn es seeds) := by
  have hnone : (closureIn es seeds).find? (fun i => ¬ i.WellFormed) = none :=
    List.find?_eq_none.2 fun i hi => by simp [wellFormed_of_mem_closureIn hes hseeds hi]
  rw [closureIn?, hnone]

/-- Closing well-formed seeds under well-formed items goes through, and its answer is the least
closed set around the seeds, without repetition.  So the order and the multiplicity of the seeds do
not matter, more seeds have a larger closure, and closing a closure changes nothing. -/
theorem closureIn?_isLeast (hes : ∀ j ∈ es.listed, j.WellFormed)
    (hseeds : ∀ i ∈ seeds, i.WellFormed) :
    ∃ items, closureIn? es seeds = .ok items ∧ items.Nodup ∧
      IsLeast {S | ClosedOver es seeds S} {i | i ∈ items} ∧
      (∀ seeds', (∀ i, i ∈ seeds ↔ i ∈ seeds') →
        ∃ items', closureIn? es seeds' = .ok items' ∧ sameItems items items') ∧
      (∀ seeds', seeds ⊆ seeds' → (∀ i ∈ seeds', i.WellFormed) →
        ∃ items', closureIn? es seeds' = .ok items' ∧ items ⊆ items') ∧
      ∃ again, closureIn? es items = .ok again ∧ sameItems items again := by
  have hitems : ∀ i ∈ closureIn es seeds, i.WellFormed := fun _ =>
    wellFormed_of_mem_closureIn hes hseeds
  refine ⟨closureIn es seeds, closureIn?_eq_ok hes hseeds, nodup_closureIn es seeds,
    isLeast_closureIn es seeds, fun seeds' hsame => ?_, fun seeds' hsub hseeds' => ?_, ?_⟩
  · have hseeds' : ∀ i ∈ seeds', i.WellFormed := fun i hi => hseeds i ((hsame i).2 hi)
    exact ⟨_, closureIn?_eq_ok hes hseeds', sameItems_closureIn hsame⟩
  · exact ⟨_, closureIn?_eq_ok hes hseeds', closureIn_subset_closureIn hsub⟩
  · exact ⟨_, closureIn?_eq_ok hes hitems, sameItems_closureIn_closureIn es seeds⟩

/-- A recursive grammar, an expression in parentheses listed with its first parenthesis seen, and a
seed that is given twice. -/
theorem closureIn?_recursive :
    let sum : Production := ⟨"E", ["E", "+", "T"]⟩
    let nested : Item := ⟨⟨"T", ["(", "E", ")"]⟩, 1⟩
    let es : Expansions := .ofList [("E", [fresh sum, fresh ⟨"E", ["T"]⟩]), ("T", [nested])]
    let seeds : List Item := [⟨sum, 2⟩, ⟨sum, 3⟩, ⟨sum, 2⟩]
    (∀ j ∈ es.listed, j.WellFormed) ∧ (∀ i ∈ seeds, i.WellFormed) ∧
      ∃ items, closureIn? es seeds = .ok items ∧ items.Nodup ∧
        IsLeast {S | ClosedOver es seeds S} {i | i ∈ items} ∧
        (∀ seeds', (∀ i, i ∈ seeds ↔ i ∈ seeds') →
          ∃ items', closureIn? es seeds' = .ok items' ∧ sameItems items items') ∧
        (∀ seeds', seeds ⊆ seeds' → (∀ i ∈ seeds', i.WellFormed) →
          ∃ items', closureIn? es seeds' = .ok items' ∧ items ⊆ items') ∧
        ∃ again, closureIn? es items = .ok again ∧ sameItems items again := by
  intro sum nested es seeds
  have hes : ∀ j ∈ es.listed, j.WellFormed := by decide +zetaReduce
  have hseeds : ∀ i ∈ seeds, i.WellFormed := by decide +zetaReduce
  exact ⟨hes, hseeds, closureIn?_isLeast hes hseeds⟩

/-! ## successors -/

/-- The items that point at a symbol, moved past it. -/
def past (X : Symbol) (items : List Item) : List Item :=
  (items.filter fun i => i.next? = some X).map shifted

theorem mem_past_iff {items : List Item} {j : Item} :
    j ∈ past X items ↔ ∃ i ∈ items, i.next? = some X ∧ i.shifted = j := by
  simp [past, and_assoc]

theorem past_ne_nil_iff {items : List Item} :
    past X items ≠ [] ↔ ∃ i ∈ items, i.next? = some X := by
  simp [past]

theorem get?_foldl_successors (items : List Item) (m : Keyed Symbol (List Item)) (X : Symbol) :
    (items.foldl (fun m i => match i.next? with
      | none => m
      | some s => m.update s [] (· ++ [i.shifted])) m).get? X =
      if past X items = [] then m.get? X else some ((m.get? X).getD [] ++ past X items) := by
  induction items generalizing m with
  | nil => simp [past]
  | cons i items ih =>
      rw [List.foldl_cons, ih]
      cases hi : i.next? with
      | none => simp [past, hi]
      | some Y =>
          by_cases hYX : Y = X
          · by_cases hpast : past X items = [] <;>
              simp_all [past, Keyed.get?_update]
          · simp [past, hi, hYX, Keyed.get?_update]

/-- The successors on a symbol are the items that point at it, moved past it. -/
theorem get?_successors (items : List Item) (X : Symbol) :
    (successors items).get? X = if past X items = [] then none else some (past X items) := by
  refine (get?_foldl_successors items ∅ X).trans ?_
  simp

theorem mem_successors_iff {items seeds : List Item} {X : Symbol} :
    (X, seeds) ∈ (successors items).entries ↔ past X items ≠ [] ∧ seeds = past X items := by
  rw [Keyed.mem_entries_iff, get?_successors]
  split
  · next hnil => simp [hnil]
  · next hnil => simp [hnil, eq_comm]

end Lalr.Item
