import Lalr.Proofs.Automaton.Canonical
import Lalr.Proofs.Automaton.Path
import Mathlib

/-!
# Lalr.Proofs.Automaton.Numbering

States are numbered breadth first: the targets of all transitions, row by row, come in order, each number
for the first time after all smaller ones (`inOrder_build`).  So a state with a smaller number is no
farther from state 0 (`exists_walk_le`), and the strings that the search for paths finds are shortest
(`shortest_paths`).
-/

namespace Lalr

/-! ## numbers in order -/

/-- The largest of some numbers and zero. -/
def largest (ns : List Nat) : Nat := ns.foldl max 0

theorem largest_snoc (ns : List Nat) (n : Nat) : largest (ns ++ [n]) = max (largest ns) n := by
  rw [largest, List.foldl_append]
  rfl

/-- Numbers come in order if each exceeds the largest before it by one at most. -/
def InOrder (ns : List Nat) : Prop :=
  ∀ before n after, ns = before ++ n :: after → n ≤ largest before + 1

theorem inOrder_nil : InOrder [] := by
  intro before n after h
  simp at h

theorem InOrder.of_append {ns ms : List Nat} (h : InOrder (ns ++ ms)) : InOrder ns := by
  intro before n after heq
  exact h before n (after ++ ms) (by rw [heq, List.append_assoc, List.cons_append])

theorem InOrder.snoc {ns : List Nat} {n : Nat} (h : InOrder ns) (hn : n ≤ largest ns + 1) :
    InOrder (ns ++ [n]) := by
  intro before m after heq
  rcases List.eq_nil_or_concat' after with rfl | ⟨after, k, rfl⟩
  · obtain ⟨rfl, hm⟩ := List.append_inj' heq rfl
    exact (List.cons.inj hm).1 ▸ hn
  · rw [← List.cons_append, ← List.append_assoc] at heq
    exact h before m after (List.append_inj' heq rfl).1

/-- Numbers that come in order leave none out. -/
theorem InOrder.mem {ns : List Nat} (h : InOrder ns) {i : Nat} (hpos : 0 < i) (hle : i ≤ largest ns) :
    i ∈ ns := by
  induction ns using List.reverseRecOn with
  | nil => exact absurd hpos (Nat.not_lt.2 hle)
  | append_singleton ns n ih =>
      have hn : n ≤ largest ns + 1 := h ns n [] rfl
      rw [largest_snoc] at hle
      rcases Nat.lt_or_ge (largest ns) i with hlt | hge
      · obtain rfl : i = n := by omega
        exact List.mem_append_right _ List.mem_cons_self
      · exact List.mem_append_left _ (ih h.of_append hge)

/-- Before a number come all smaller ones. -/
theorem InOrder.mem_before {before after : List Nat} {j i : Nat} (h : InOrder (before ++ j :: after))
    (hpos : 0 < i) (hlt : i < j) : i ∈ before :=
  h.of_append.mem hpos (Nat.le_of_lt_succ (Nat.lt_of_lt_of_le hlt (h before j after rfl)))

/-! ## the targets of the transitions -/

namespace Transitions

/-- The states that the transitions lead to, row by row in order of discovery. -/
def targets (rows : List Transitions) : List Nat := rows.flatMap Keyed.values

theorem targets_snoc (rows : List Transitions) (row : Transitions) :
    targets (rows ++ [row]) = targets rows ++ row.values := by
  rw [targets, List.flatMap_append, List.flatMap_singleton]
  rfl

theorem mem_targets_of_target? {a : Automaton} {q t : Nat} {X : Symbol} (h : a.target? q X = some t) :
    t ∈ targets a.transitions := by
  obtain ⟨row, hrow, ht⟩ := Automaton.exists_row_of_target? h
  exact List.mem_flatMap.2 ⟨row, List.mem_of_getElem? hrow, Keyed.mem_values_iff.2 ⟨X, ht⟩⟩

theorem exists_target?_of_mem {a : Automaton} {t : Nat} (h : t ∈ targets a.transitions) :
    ∃ q X, a.target? q X = some t := by
  obtain ⟨row, hmem, ht⟩ := List.mem_flatMap.1 h
  obtain ⟨q, hq⟩ := List.mem_iff_getElem?.1 hmem
  obtain ⟨X, hX⟩ := Keyed.mem_values_iff.1 ht
  exact ⟨q, X, by rw [Automaton.target?, hq, Option.bind_some, hX]⟩

end Transitions

namespace Automaton

open Transitions (targets Shortest pathTo?)

variable {ps : Productions} {a : Automaton} {g : Grammar}

/-- What holds while states are numbered: their numbers come in order, and all numbers are taken up to the
largest that a transition leads to. -/
def Numbered (ns : List Nat) (count : Nat) : Prop := InOrder ns ∧ count = largest ns + 1

/-- A state that has a number already may be led to, and the next number may be taken. -/
theorem Numbered.snoc {ns : List Nat} {count t : Nat} (h : Numbered ns count) (ht : t < count) :
    Numbered (ns ++ [t]) count := by
  obtain ⟨hin, rfl⟩ := h
  refine ⟨hin.snoc (Nat.le_of_lt ht), ?_⟩
  rw [largest_snoc, Nat.max_eq_left (Nat.le_of_lt_succ ht)]

theorem Numbered.snoc_new {ns : List Nat} {count : Nat} (h : Numbered ns count) :
    Numbered (ns ++ [count]) (count + 1) := by
  obtain ⟨hin, rfl⟩ := h
  refine ⟨hin.snoc (Nat.le_refl _), ?_⟩
  rw [largest_snoc, Nat.max_eq_right (Nat.le_succ _)]

/-- Recording one transition keeps the numbers in order. -/
theorem Numbered.addTransition {ns : List Nat} {found : List (List Item) × Transitions}
    (h : Numbered (ns ++ found.2.values) found.1.length) {e : Symbol × List Item}
    (he : e.1 ∉ found.2.keys) :
    Numbered (ns ++ (addTransition ps found e).2.values) (addTransition ps found e).1.length := by
  rw [Automaton.addTransition]
  cases hn : number? found.1 (Item.closure ps e.2) with
  | some t =>
      simp only [Keyed.values_set_of_notMem he, ← List.append_assoc]
      exact h.snoc (List.findIdx?_eq_some_iff_getElem.1 hn).1
  | none =>
      simp only [Keyed.values_set_of_notMem he, ← List.append_assoc, List.length_append,
        List.length_singleton]
      exact h.snoc_new

theorem keys_addTransition {found : List (List Item) × Transitions} {e : Symbol × List Item}
    (he : e.1 ∉ found.2.keys) : (addTransition ps found e).2.keys = found.2.keys ++ [e.1] := by
  rw [addTransition]
  split <;> rw [Keyed.keys_set, if_neg he]

theorem Numbered.foldl {ns : List Nat} (es : List (Symbol × List Item))
    {found : List (List Item) × Transitions} (h : Numbered (ns ++ found.2.values) found.1.length)
    (hn : (found.2.keys ++ es.map Prod.fst).Nodup) :
    Numbered (ns ++ (es.foldl (Automaton.addTransition ps) found).2.values)
      (es.foldl (Automaton.addTransition ps) found).1.length := by
  induction es generalizing found with
  | nil => exact h
  | cons e es ih =>
      have he : e.1 ∉ found.2.keys := fun hmem =>
        (List.nodup_append.1 hn).2.2 _ hmem _ List.mem_cons_self rfl
      refine ih (h.addTransition he) ?_
      rw [keys_addTransition he, List.append_assoc, List.singleton_append]
      exact hn

/-- Giving the states their transitions keeps the numbers in order. -/
theorem Numbered.complete (fuel : Nat) {itemSets : List (List Item)} {rows : List Transitions}
    (h : Numbered (targets rows) itemSets.length) :
    Numbered (targets (complete ps fuel itemSets rows).transitions)
      (complete ps fuel itemSets rows).itemSets.length := by
  induction fuel generalizing itemSets rows with
  | zero => exact h
  | succ fuel ih =>
      cases hitems : itemSets[rows.length]? with
      | none => simpa [Automaton.complete, hitems] using h
      | some items =>
          rw [complete_succ hitems]
          refine ih ?_
          rw [Transitions.targets_snoc]
          have hstart : Numbered (targets rows ++ (∅ : Transitions).values) itemSets.length :=
            (List.append_nil (targets rows)).symm ▸ h
          exact Numbered.foldl (Item.successors items).entries hstart (Item.successors items).nodup_keys

/-- The states of an automaton are numbered in the order of their discovery. -/
theorem inOrder_build (ps : Productions) (start : Item) : InOrder (targets (build ps start).transitions) := by
  have hstart : Numbered (targets []) [Item.closure ps [start]].length := ⟨inOrder_nil, rfl⟩
  exact (hstart.complete _).1

/-! ## distances -/

/-- What a state leads to has all smaller states before it, in the same row or an earlier one. -/
theorem exists_target?_of_lt (hin : InOrder (targets a.transitions)) {p i j : Nat} {X : Symbol}
    (ht : a.target? p X = some j) (hpos : 0 < i) (hlt : i < j) :
    ∃ q ≤ p, ∃ Y, a.target? q Y = some i := by
  obtain ⟨row, hrow, hX⟩ := exists_row_of_target? ht
  have hp : p < a.transitions.length := (List.getElem?_eq_some_iff.1 hrow).1
  obtain ⟨before, after, hvalues⟩ := List.append_of_mem (Keyed.mem_values_iff.2 ⟨X, hX⟩)
  have hsplit : targets a.transitions = (targets (a.transitions.take p) ++ before) ++
      j :: (after ++ targets (a.transitions.drop (p + 1))) := by
    have hrows : a.transitions = a.transitions.take p ++ row :: a.transitions.drop (p + 1) := by
      rw [← (List.getElem?_eq_some_iff.1 hrow).2, List.getElem_cons_drop, List.take_append_drop]
    conv_lhs => rw [hrows, targets, List.flatMap_append, List.flatMap_cons, hvalues]
    simp [targets]
  rw [hsplit] at hin
  rcases List.mem_append.1 (hin.mem_before hpos hlt) with hmem | hmem
  · obtain ⟨q, Y, hq⟩ := Transitions.exists_target?_of_mem (a := ⟨a.itemSets, a.transitions.take p⟩) hmem
    have hqp : q < p := Nat.lt_of_lt_of_le (target?_lt hq) (List.length_take_le _ _)
    refine ⟨q, Nat.le_of_lt hqp, Y, ?_⟩
    rwa [target?, List.getElem?_take_of_lt hqp] at hq
  · have hvalue : i ∈ row.values := hvalues ▸ List.mem_append_left _ hmem
    obtain ⟨Y, hY⟩ := Keyed.mem_values_iff.1 hvalue
    exact ⟨p, Nat.le_refl _, Y, by rw [target?, hrow, Option.bind_some, hY]⟩

/-- A state with a smaller number is no farther from state 0. -/
theorem exists_walk_le (hin : InOrder (targets a.transitions)) {i j : Nat} {γ : List Symbol} (hle : i ≤ j)
    (hw : a.walk? 0 γ = some j) : ∃ δ, a.walk? 0 δ = some i ∧ δ.length ≤ γ.length := by
  induction γ using List.reverseRecOn generalizing i j with
  | nil =>
      obtain rfl : 0 = j := by simpa [walk?] using hw
      exact ⟨[], congrArg some (Nat.le_zero.1 hle).symm, Nat.le_refl _⟩
  | append_singleton γ X ih =>
      rcases Nat.eq_zero_or_pos i with rfl | hpos
      · exact ⟨[], rfl, Nat.zero_le _⟩
      rcases Nat.eq_or_lt_of_le hle with rfl | hlt
      · exact ⟨_, hw, Nat.le_refl _⟩
      rw [walk?_snoc] at hw
      obtain ⟨p, hp, ht⟩ := Option.bind_eq_some_iff.1 hw
      obtain ⟨q, hqp, Y, hY⟩ := exists_target?_of_lt hin ht hpos hlt
      obtain ⟨δ, hδ, hlength⟩ := ih hqp hp
      refine ⟨δ ++ [Y], by rw [walk?_snoc, hδ, Option.bind_some, hY], ?_⟩
      simpa using hlength

/-- Every number that an automaton mentions is that of a state: state 0, and what transitions lead to. -/
def Closed (a : Automaton) : Prop := ∀ n ∈ 0 :: targets a.transitions, n < a.transitions.length

instance (a : Automaton) : Decidable (Closed a) :=
  inferInstanceAs (Decidable (∀ n ∈ 0 :: targets a.transitions, n < a.transitions.length))

theorem Closed.pathTo?_cases (h : Closed a) (target : Int) :
    (∃ (q : Nat) (path : List Symbol), (q : Int) = target ∧
      pathTo? a.transitions target = .ok path ∧ Shortest a q path) ∨
    (pathTo? a.transitions target = .error (.unreachable target) ∧
      ∀ (q : Nat) γ, a.walk? 0 γ = some q → (q : Int) ≠ target) :=
  Transitions.pathTo?_cases
    (fun _ _ _ ht => h _ (List.mem_cons_of_mem _ (Transitions.mem_targets_of_target? ht)))
    (h 0 List.mem_cons_self) target

theorem closed_automatonOf (g : Grammar) : Closed (Construction.automatonOf g) := by
  obtain ⟨hexplored, hlength⟩ := explored_automatonOf g
  intro n hn
  rw [hlength]
  rcases List.mem_cons.1 hn with rfl | hn
  · exact (List.getElem?_eq_some_iff.1 hexplored.first).1
  · obtain ⟨q, X, ht⟩ := Transitions.exists_target?_of_mem hn
    exact target?_lt_size ht

/-- The states of a grammar's automaton are numbered breadth first: no number comes before a smaller one,
and the shortest strings to the states grow with their numbers.  In any automaton that mentions only its
own states, the search for a path to a target finds a shortest one, or nothing leads to the target. -/
theorem shortest_paths :
    (∀ g : Grammar, g.validate = .ok () →
      InOrder (targets (Construction.automatonOf g).transitions) ∧
      Closed (Construction.automatonOf g) ∧
      ∀ i j, i < j → j < (Construction.automatonOf g).size →
        ∃ γ δ, Shortest (Construction.automatonOf g) i γ ∧ Shortest (Construction.automatonOf g) j δ ∧
          γ.length ≤ δ.length) ∧
    ∀ a : Automaton, Closed a → ∀ target : Int,
      (∃ (q : Nat) (path : List Symbol), (q : Int) = target ∧
        pathTo? a.transitions target = .ok path ∧ Shortest a q path) ∨
      (pathTo? a.transitions target = .error (.unreachable target) ∧
        ∀ (q : Nat) γ, a.walk? 0 γ = some q → (q : Int) ≠ target) := by
  refine ⟨fun g _ => ?_, fun a ha target => ha.pathTo?_cases target⟩
  have hin : InOrder (targets (Construction.automatonOf g).transitions) := inOrder_build _ _
  refine ⟨hin, closed_automatonOf g, fun i j hlt hj => ?_⟩
  have hshortest {q : Nat} (hq : q < (Construction.automatonOf g).size) :
      ∃ γ, Shortest (Construction.automatonOf g) q γ := by
    obtain ⟨γ, hγ⟩ := (explored_automatonOf g).1.reachable q hq
    rcases (closed_automatonOf g).pathTo?_cases q with ⟨q', path, heq, -, hpath⟩ | ⟨-, hnone⟩
    · exact ⟨path, Int.ofNat.inj heq ▸ hpath⟩
    · exact absurd rfl (hnone q γ hγ)
  obtain ⟨γ, hγ⟩ := hshortest (Nat.lt_trans hlt hj)
  obtain ⟨δ, hδ⟩ := hshortest hj
  obtain ⟨γ', hγ', hle⟩ := exists_walk_le hin (Nat.le_of_lt hlt) hδ.leads
  exact ⟨γ, δ, hγ, hδ, Nat.le_trans (hγ.le γ' hγ') hle⟩

/-- Four states, of which the first two lead to each other and nothing leads to the last. -/
def detour : Automaton where
  itemSets := []
  transitions := [.ofList [("a", 1), ("b", 2)], .ofList [("a", 0), ("c", 2)], ∅, .ofList [("a", 0)]]

/-- State 2 is found by its shortest string although state 1 leads there too, and state 3 is not found. -/
theorem shortest_paths_detour : Construction.rowGrammar.validate = .ok () ∧ Closed detour ∧
    (∃ γ δ, Shortest (Construction.automatonOf Construction.rowGrammar) 1 γ ∧
      Shortest (Construction.automatonOf Construction.rowGrammar) 3 δ ∧ γ.length ≤ δ.length) ∧
    Shortest detour 2 ["b"] ∧ ∀ (q : Nat) γ, detour.walk? 0 γ = some q → (q : Int) ≠ 3 := by
  have hvalid : Construction.rowGrammar.validate = .ok () := by cbv
  have hsize : 3 < (Construction.automatonOf Construction.rowGrammar).size := by
    have hlength : (Construction.automatonOf Construction.rowGrammar).itemSets.length = 4 := by cbv
    rw [size, hlength]
    decide
  have hclosed : Closed detour := by decide
  have hfound : pathTo? detour.transitions 2 = .ok ["b"] := by cbv
  have hlost : pathTo? detour.transitions 3 = .error (.unreachable 3) := by cbv
  refine ⟨hvalid, hclosed, (shortest_paths.1 _ hvalid).2.2 1 3 (by decide) hsize, ?_, ?_⟩
  · rcases shortest_paths.2 detour hclosed 2 with ⟨q, path, heq, hpath, hshortest⟩ | ⟨herror, -⟩
    · obtain rfl : q = 2 := Int.ofNat.inj heq
      obtain rfl : ["b"] = path := Except.ok.inj (hfound.symm.trans hpath)
      exact hshortest
    · exact absurd (hfound.symm.trans herror) (by simp)
  · rcases shortest_paths.2 detour hclosed 3 with ⟨q, path, -, hpath, -⟩ | ⟨-, hnone⟩
    · exact absurd (hlost.symm.trans hpath) (by simp)
    · exact hnone

end Automaton

end Lalr
