import Lalr.Proofs.Follow.Components

/-!
# Lalr.Proofs.Follow.Least

FOLLOW sets as the least solution of equations between sets (`sets_least`).  The equations say of every
instance in a rule what its set must contain (`Solves`); sets that do are above what follows by finitely
many steps (`Solves.of_follows`).  Since only the members of the list of rules matter, their order does
not.
-/

namespace Lalr.FollowSets

variable {terminals : List Symbol} {firsts : FirstSets} {rules rules' : List ExtendedRule}
  {i j : Instance} {t : Symbol} {f f' : FollowSets}

/-- Sets that contain what the rules say: the end follows the start, what can begin the rest of a rule
follows an occurrence in front of that rest, and what follows the instance that a rule recognises follows
an occurrence in the rule if the rest behind it can vanish. -/
structure Solves (rules : List ExtendedRule) (terminals : List Symbol) (firsts : FirstSets)
    (F : Instance → Symbol → Prop) : Prop where
  ending : F ⟨startSymbol, 0⟩ endMarker
  direct : ∀ r ∈ rules, ∀ i rest first, OccursIn terminals r i rest → firsts.ofSequence rest = .ok first →
    ∀ t ∈ first, t ≠ epsilon → F i t
  inherit : ∀ r ∈ rules, ∀ owner i rest first, r.instance? = some owner → OccursIn terminals r i rest →
    firsts.ofSequence rest = .ok first → epsilon ∈ first → ∀ t, F owner t → F i t

/-- An occurrence splits the symbols of the rule. -/
theorem Occurs.exists_front {symbols rest : List Symbol} {states : List Nat}
    (h : Occurs terminals symbols states i rest) :
    ∃ front, symbols = front ++ i.symbol :: rest ∧ i.symbol ∉ terminals := by
  induction h with
  | here hs => exact ⟨[], rfl, hs⟩
  | @there s _ _ _ _ _ ih =>
      obtain ⟨front, rfl, hs⟩ := ih
      exact ⟨s :: front, rfl, hs⟩

/-- What follows by finitely many steps is in all sets that solve the equations. -/
theorem Solves.of_follows {F : Instance → Symbol → Prop} (h : Solves rules terminals firsts F)
    (hrules : ∀ r ∈ rules, Readable firsts r) (ht : Follows rules terminals firsts i t) : F i t := by
  have hfirst {r : ExtendedRule} {i : Instance} {rest : List Symbol} (hr : r ∈ rules)
      (hi : OccursIn terminals r i rest) : ∃ first, firsts.ofSequence rest = .ok first := by
    obtain ⟨front, hfront, -⟩ := hi.exists_front
    refine FirstSets.exists_ofSequence fun s hs => (hrules r hr).symbols s ?_
    rw [hfront]
    exact List.mem_append_right _ (List.mem_cons_of_mem _ hs)
  induction ht with
  | ending => exact h.ending
  | direct hr hi hne ht =>
      obtain ⟨first, hfirst⟩ := hfirst hr hi
      exact h.direct _ hr _ _ first hi hfirst _ ((FirstSets.mem_ofSequence hfirst).2 ht) hne
  | inherit hr howner hi hε _ ih =>
      obtain ⟨first, hfirst⟩ := hfirst hr hi
      exact h.inherit _ hr _ _ _ first howner hi hfirst ((FirstSets.mem_ofSequence hfirst).2 hε) _ ih

theorem solves_follows : Solves rules terminals firsts (Follows rules terminals firsts) where
  ending := .ending
  direct := fun _ hr _ _ _ hi hfirst _ ht hne =>
    .direct hr hi hne ((FirstSets.mem_ofSequence hfirst).1 ht)
  inherit := fun _ hr _ _ _ _ howner hi hfirst hε _ ht =>
    .inherit hr howner hi ((FirstSets.mem_ofSequence hfirst).1 hε) ht

/-! ## the order of the rules -/

theorem Follows.mono (hsub : ∀ r ∈ rules, r ∈ rules') (h : Follows rules terminals firsts i t) :
    Follows rules' terminals firsts i t := by
  induction h with
  | ending => exact .ending
  | direct hr hi hne ht => exact .direct (hsub _ hr) hi hne ht
  | inherit hr howner hi hε _ ih => exact .inherit (hsub _ hr) howner hi hε ih

theorem Depends.congr (hrules : ∀ r, r ∈ rules' ↔ r ∈ rules) :
    Depends rules' terminals firsts = Depends rules terminals firsts := by
  funext i j
  simp only [Depends, hrules]

/-- Two lists of the same rules have the same FOLLOW sets. -/
theorem get?_sets_congr (hrules : ∀ r, r ∈ rules' ↔ r ∈ rules) (h : ofRules rules terminals firsts = .ok f)
    (h' : ofRules rules' terminals firsts = .ok f') (i : Instance) : f'.sets.get? i = f.sets.get? i := by
  have hkeys : i ∈ f'.sets.keys ↔ i ∈ f.sets.keys := by
    simp only [mem_keys_sets_iff h', mem_keys_sets_iff h, hrules]
  by_cases hi : i ∈ f.sets.keys
  · obtain ⟨S, hS⟩ := Keyed.mem_keys_iff.1 hi
    obtain ⟨S', hS'⟩ := Keyed.mem_keys_iff.1 (hkeys.2 hi)
    obtain rfl : S' = S := SymbolSet.ext_mem fun t => by
      rw [← Keyed.has_iff hS', ← Keyed.has_iff hS, has_sets_iff h', has_sets_iff h]
      exact ⟨.mono fun r => (hrules r).1, .mono fun r => (hrules r).2⟩
    rw [hS, hS']
  · rw [Keyed.get?_eq_none_iff.2 hi, Keyed.get?_eq_none_iff.2 (mt hkeys.1 hi)]

/-- FOLLOW sets are the least solution of what the rules say, whatever the rules are.  The start instance
has a set, and so have the instances that are recognised or that stand in a rule, and no others.  The
order of the rules does not matter. -/
theorem sets_least
    (hrules : ∀ r ∈ rules, r.production.symbols.length < r.states.length ∧
      ∀ s ∈ r.production.symbols, s ∈ firsts.keys) :
    ∃ f, ofRules rules terminals firsts = .ok f ∧
      (∀ i, i ∈ f.sets.keys ↔ i = ⟨startSymbol, 0⟩ ∨
        ∃ r ∈ rules, r.instance? = some i ∨ ∃ rest, OccursIn terminals r i rest) ∧
      Solves rules terminals firsts f.sets.Has ∧
      (∀ F, Solves rules terminals firsts F → ∀ i t, f.sets.Has i t → F i t) ∧
      ∀ rules', (∀ r, r ∈ rules' ↔ r ∈ rules) → ∃ f', ofRules rules' terminals firsts = .ok f' ∧
        (∀ i, f'.sets.get? i = f.sets.get? i) ∧
        ∀ i j, i ≠ j → ((∃ group ∈ f'.merged, i ∈ group ∧ j ∈ group) ↔
          ∃ group ∈ f.merged, i ∈ group ∧ j ∈ group) := by
  have hreadable : ∀ r ∈ rules, Readable firsts r := fun r hr =>
    readable_of_lt (hrules r hr).1 (hrules r hr).2
  obtain ⟨f, h⟩ : ∃ f, ofRules rules terminals firsts = .ok f := exists_ofRules terminals hreadable
  have hfollows : f.sets.Has = Follows rules terminals firsts :=
    funext fun i => funext fun t => propext (has_sets_iff h)
  refine ⟨f, h, fun i => mem_keys_sets_iff h, ?_, fun F hF i t ht => ?_, fun rules' hrules' => ?_⟩
  · rw [hfollows]
    exact solves_follows
  · rw [hfollows] at ht
    exact hF.of_follows hreadable ht
  · obtain ⟨f', h'⟩ : ∃ f', ofRules rules' terminals firsts = .ok f' :=
      exists_ofRules terminals fun r hr => hreadable r ((hrules' r).1 hr)
    refine ⟨f', h', get?_sets_congr hrules' h h', fun i j hne => ?_⟩
    rw [merged_iff h' hne, merged_iff h hne, Depends.congr hrules']

/-- In the sample, only terminals stand in front of the last symbol of a rule. -/
theorem eq_nil_of_occursIn_sample {r : ExtendedRule} {rest : List Symbol} (hr : r ∈ sampleRules)
    (h : OccursIn sampleTerminals r i rest) : rest = [] := by
  have hlast : ∀ r ∈ sampleRules, ∀ s ∈ r.production.symbols.dropLast, s ∈ sampleTerminals := by decide
  obtain ⟨front, hfront, hi⟩ := h.exists_front
  cases rest with
  | nil => rfl
  | cons s rest =>
      refine absurd (hlast r hr i.symbol ?_) hi
      rw [hfront, List.dropLast_append_of_ne_nil (List.cons_ne_nil _ _), List.dropLast_cons_cons]
      exact List.mem_append_right _ List.mem_cons_self

/-- What follows the start follows all instances of the sample, and nothing else does. -/
theorem sets_least_sample :
    (∀ r ∈ sampleRules, r.production.symbols.length < r.states.length ∧
      ∀ s ∈ r.production.symbols, s ∈ sampleFirsts.keys) ∧
    ∃ f, ofRules sampleRules sampleTerminals sampleFirsts = .ok f ∧
      f.sets.Has ⟨"b", 1⟩ endMarker ∧ ¬ f.sets.Has ⟨"b", 1⟩ "y" := by
  have hrules : ∀ r ∈ sampleRules, r.production.symbols.length < r.states.length ∧
      ∀ s ∈ r.production.symbols, s ∈ sampleFirsts.keys := by decide
  obtain ⟨f, h, -, hsolves, hleast, -⟩ := @sets_least sampleTerminals sampleFirsts sampleRules hrules
  refine ⟨hrules, f, h, ?_, fun hy => ?_⟩
  · have ha : f.sets.Has ⟨"a", 0⟩ endMarker := hsolves.inherit sampleRules[0] (by decide) _ _ [] _ rfl
      (.here (by decide)) rfl (by decide) _ hsolves.ending
    exact hsolves.inherit sampleRules[1] (by decide) _ _ [] _ rfl (.there (.here (by decide))) rfl
      (by decide) _ ha
  · have hends : Solves sampleRules sampleTerminals sampleFirsts fun _ t => t = endMarker := by
      refine ⟨rfl, fun r hr i rest first hi hfirst t ht hne => ?_, fun _ _ _ _ _ _ _ _ _ _ t ht => ht⟩
      obtain rfl := eq_nil_of_occursIn_sample hr hi
      exact absurd ((FirstSets.mem_ofSequence hfirst).1 ht) hne
    exact absurd (hleast _ hends _ _ hy) (by decide)

end Lalr.FollowSets
