import Lalr.Proofs.Grammar.WellFormed

/-!
# Lalr.Proofs.Grammar.Productions

The productions of a grammar by the nonterminal they define, and those the automaton is built from:
the grammar's own together with the synthetic start production.  Terminals, nonterminals and the
three reserved names never meet in a well-formed grammar.
-/

namespace Lalr

/-- A production is listed under a nonterminal. -/
def Productions.Lists (ps : Productions) (X : Symbol) (p : Production) : Prop :=
  ∃ rules, ps.get? X = some rules ∧ p ∈ rules

theorem Productions.Lists.mem_flatten {ps : Productions} {X : Symbol} {p : Production}
    (h : ps.Lists X p) : p ∈ ps.values.flatten := by
  obtain ⟨rules, hr, hp⟩ := h
  exact List.mem_flatten.2 ⟨rules, Keyed.mem_values_iff.2 ⟨X, hr⟩, hp⟩

namespace Grammar

/-- Grouping productions appends those of a nonterminal, in order, to what is listed under it. -/
theorem get?_foldl_update (L : List Production) (m : Productions) (X : Symbol) :
    (L.foldl (fun m p => m.update p.name [] (· ++ [p])) m).get? X =
      if L.filter (·.name = X) = [] then m.get? X
      else some ((m.get? X).getD [] ++ L.filter (·.name = X)) := by
  induction L generalizing m with
  | nil => simp
  | cons p L ih =>
      rw [List.foldl_cons, ih, Keyed.get?_update]
      by_cases h : p.name = X
      · by_cases hL : L.filter (·.name = X) = [] <;> simp [h, hL]
      · simp [h]

theorem get?_productions (g : Grammar) (X : Symbol) :
    g.productions.get? X =
      if g.productionList.filter (·.name = X) = [] then none
      else some (g.productionList.filter (·.name = X)) := by
  rw [productions, get?_foldl_update]
  simp

/-- The productions listed under a nonterminal are those that define it. -/
theorem productions_lists_iff {g : Grammar} {X : Symbol} {p : Production} :
    g.productions.Lists X p ↔ p ∈ g.productionList ∧ p.name = X := by
  have hmem : p ∈ g.productionList.filter (·.name = X) ↔ p ∈ g.productionList ∧ p.name = X := by
    simp
  rw [Productions.Lists, get?_productions, ← hmem]
  split
  · next h => simp [h]
  · simp

/-- The nonterminals are the names of the productions. -/
theorem mem_nonterminalNames_iff {g : Grammar} {X : Symbol} :
    X ∈ g.nonterminalNames ↔ ∃ p ∈ g.productionList, p.name = X := by
  rw [nonterminalNames, Keyed.mem_keys_iff]
  constructor
  · rintro ⟨rules, hr⟩
    rw [get?_productions] at hr
    split at hr
    · contradiction
    · next h =>
        obtain ⟨p, hp⟩ := List.exists_mem_of_ne_nil _ h
        exact ⟨p, by simpa using hp⟩
  · rintro ⟨p, hp⟩
    obtain ⟨rules, hr, -⟩ := productions_lists_iff.2 hp
    exact ⟨rules, hr⟩

/-- The productions of the automaton: the grammar's, and the synthetic start production. -/
def HasProduction (g : Grammar) (p : Production) : Prop :=
  p = Construction.startProduction g ∨ p ∈ g.productionList

theorem mem_terminalNames_subset {g : Grammar} {s : Symbol} (h : s ∈ g.terminalNames) :
    s ∈ g.terminals.map Terminal.name := by
  obtain ⟨t, ht, rfl⟩ := List.mem_map.1 h
  exact List.mem_map_of_mem (List.mem_filter.1 ht).1

namespace WellFormed

variable {g : Grammar} {p : Production} {s : Symbol}

/-! ## names -/

theorem not_reserved_of_terminal (hg : g.WellFormed) (h : s ∈ g.terminalNames) :
    isReserved s = false :=
  hg.unreserved s (List.mem_append_left _ (mem_terminalNames_subset h))

theorem not_reserved_of_nonterminal (hg : g.WellFormed) (h : s ∈ g.nonterminalNames) :
    isReserved s = false :=
  hg.unreserved s (List.mem_append_right _ h)

theorem not_terminal (hg : g.WellFormed) (h : s ∈ g.nonterminalNames) : s ∉ g.terminalNames :=
  fun ht => hg.disjoint s h (mem_terminalNames_subset ht)

theorem name_mem (hp : p ∈ g.productionList) : p.name ∈ g.nonterminalNames :=
  mem_nonterminalNames_iff.2 ⟨p, hp, rfl⟩

/-- A symbol that no reserved name can be. -/
def Visible (g : Grammar) (s : Symbol) : Prop := s ∈ g.terminalNames ∨ s ∈ g.nonterminalNames

theorem not_reserved (hg : g.WellFormed) (h : Visible g s) : isReserved s = false :=
  h.elim hg.not_reserved_of_terminal hg.not_reserved_of_nonterminal

theorem ne_start (hg : g.WellFormed) (h : Visible g s) : s ≠ startSymbol := by
  rintro rfl
  exact absurd (hg.not_reserved h) (by decide)

theorem ne_end (hg : g.WellFormed) (h : Visible g s) : s ≠ endMarker := by
  rintro rfl
  exact absurd (hg.not_reserved h) (by decide)

theorem ne_epsilon (hg : g.WellFormed) (h : Visible g s) : s ≠ epsilon := by
  rintro rfl
  exact absurd (hg.not_reserved h) (by decide)

/-- The end is not replaced by anything. -/
theorem not_produces_end (hg : g.WellFormed) (w : List Symbol) : ¬ g.Produces endMarker w :=
  fun h => hg.ne_end (.inr (name_mem h)) rfl

theorem name_ne_start (hg : g.WellFormed) (hp : p ∈ g.productionList) : p.name ≠ startSymbol :=
  hg.ne_start (.inr (name_mem hp))

/-- Productions are numbered as the rules are. -/
theorem lt_length_rules {k : Nat} (hk : g.productionList[k]? = some p) : k < g.rules.length := by
  have hlt := (List.getElem?_eq_some_iff.1 hk).1
  rwa [productionList, List.length_map] at hlt

/-! ## productions of the automaton -/

theorem startProduction_eq (hg : g.WellFormed) :
    Construction.startProduction g = ⟨startSymbol, [g.start]⟩ := by
  have h : g.start ≠ epsilon := hg.ne_epsilon (.inr hg.start_mem)
  simp [Construction.startProduction, Production.of, h]

theorem visible_of_mem (hg : g.WellFormed) (hp : g.HasProduction p) (hs : s ∈ p.symbols) :
    Visible g s := by
  rcases hp with rfl | hp
  · rw [hg.startProduction_eq, List.mem_singleton] at hs
    exact .inr (hs ▸ hg.start_mem)
  · exact hg.declared p hp s hs

/-- Only the synthetic start production defines the start symbol. -/
theorem eq_startProduction (hg : g.WellFormed) (hp : g.HasProduction p)
    (hname : p.name = startSymbol) : p = Construction.startProduction g :=
  hp.resolve_right fun h => hg.name_ne_start h hname

theorem mem_productionList (hg : g.WellFormed) (hp : g.HasProduction p)
    (hname : p.name ≠ startSymbol) : p ∈ g.productionList :=
  hp.resolve_left fun h => hname (by rw [h, hg.startProduction_eq])

/-- The automaton's productions by nonterminal are the grammar's and the start production. -/
theorem augmented_lists_iff (hg : g.WellFormed) {X : Symbol} :
    (Construction.augmented g).Lists X p ↔ g.HasProduction p ∧ p.name = X := by
  have hone : ([(startSymbol, [Construction.startProduction g])].map Prod.fst).Nodup := by simp
  have hget : (Construction.augmented g).get? X = (g.productions.get? X).or
      (if startSymbol = X then some [Construction.startProduction g] else none) := by
    rw [Construction.augmented, Keyed.get?_union, Keyed.get?_ofList hone]
    rfl
  constructor
  · rintro ⟨rules, hr, hp⟩
    rw [hget] at hr
    cases hX : g.productions.get? X with
    | some rules' =>
        obtain rfl : rules' = rules := by simpa [hX] using hr
        obtain ⟨hmem, hname⟩ := productions_lists_iff.1 ⟨rules', hX, hp⟩
        exact ⟨.inr hmem, hname⟩
    | none =>
        rw [hX, Option.none_or] at hr
        split at hr
        · next h =>
            obtain rfl : [Construction.startProduction g] = rules := by simpa using hr
            obtain rfl := List.mem_singleton.1 hp
            exact ⟨.inl rfl, by rw [hg.startProduction_eq, ← h]⟩
        · contradiction
  · rintro ⟨rfl | hp, hname⟩
    · have hX : startSymbol = X := by rw [← hname, hg.startProduction_eq]
      have hnone : g.productions.get? X = none := by
        rw [Keyed.get?_eq_none_iff]
        intro h
        exact hg.ne_start (.inr h) hX.symm
      exact ⟨[Construction.startProduction g], by simp [hget, hnone, hX], List.mem_singleton_self _⟩
    · obtain ⟨rules, hr, hmem⟩ := productions_lists_iff.2 ⟨hp, hname⟩
      exact ⟨rules, by simp [hget, hr], hmem⟩

end WellFormed

end Grammar

end Lalr
