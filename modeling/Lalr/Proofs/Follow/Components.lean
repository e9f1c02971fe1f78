import Lalr.Proofs.Digraph.Acyclic
import Lalr.Proofs.Follow.Totality

/-!
# Lalr.Proofs.Follow.Components

Which instances are merged: those that depend on each other (`merged_components`).

Two instances come to be in one group exactly if they reach each other (`root_condensation_iff`), since
no cycle is left between groups.  The cycles that were joined on the way list every instance whose group
has others (`Joined`), so the groups can be read off them, however many steps each of them took.
-/

namespace Lalr.FollowSets

variable {terminals : List Symbol} {firsts : FirstSets} {rules : List ExtendedRule}
  {g g₀ : Digraph Instance} {c : Condensation} {groups : Groups Instance} {f : FollowSets}
  {i j x y : Instance} {cycle group : List Instance}

/-! ## groups and reachability -/

/-- Instances are in one group exactly if they reach each other. -/
theorem root_condensation_iff (hloop : ∀ x, ¬ g.HasEdge x x) :
    (condensation g).groups.root x = (condensation g).groups.root y ↔ g.Reaches x y ∧ g.Reaches y x := by
  have hmerges := merges_condensation hloop
  constructor
  · exact fun h => ⟨hmerges.together x y h, hmerges.together y x h.symm⟩
  · rintro ⟨hxy, hyx⟩
    have hacyclic := Digraph.findCycle_eq_none_iff.1 (findCycle_condensation hloop)
    exact hacyclic.eq_of_reaches (hmerges.reaches_root hxy) (hmerges.reaches_root hyx)

/-! ## the cycles that were joined -/

/-- What the cycles joined so far say about the groups: each lies in one group and has two members, and
every instance whose group has others is listed in one. -/
structure Joined (c : Condensation) : Prop where
  together : ∀ cycle ∈ c.cycles, ∀ x ∈ cycle, ∀ y ∈ cycle, c.groups.root x = c.groups.root y
  several : ∀ cycle ∈ c.cycles, ∃ x ∈ cycle, ∃ y ∈ cycle, x ≠ y
  listed : ∀ x y, c.groups.root x = c.groups.root y → x ≠ y → ∃ cycle ∈ c.cycles, x ∈ cycle

theorem joined_initial (g : Digraph Instance) : Joined ⟨∅, [], g⟩ where
  together := fun _ h => absurd h List.not_mem_nil
  several := fun _ h => absurd h List.not_mem_nil
  listed := fun x y h hne => absurd (by simpa using h) hne

/-- Joining a cycle lists its members. -/
theorem Joined.join (h : Joined c) (hm : Merges g₀ c) (hc : c.graph.IsCycle cycle) :
    Joined ⟨joinCycle c.groups cycle, c.cycles ++ [cycle],
      collapse (joinCycle c.groups cycle) c.graph⟩ := by
  have hreps : ∀ x ∈ cycle, c.groups.root x = x := fun x hx =>
    hm.represents x (hm.mem_nodes_of_mem_cycle hc hx)
  obtain ⟨a, b, rest, rfl, hne⟩ := hc.exists_second hm.not_hasEdge_self
  obtain ⟨-, hroot⟩ := root_joinCycle hm.rooted hreps
  have hkept {x y : Instance} (hxy : c.groups.root x = c.groups.root y) :
      (joinCycle c.groups (a :: b :: rest)).root x = (joinCycle c.groups (a :: b :: rest)).root y := by
    rw [hroot, hroot, hxy]
  have hnew {x : Instance} (hx : x ∈ a :: b :: rest) :
      (joinCycle c.groups (a :: b :: rest)).root x = a := by
    rw [hroot, hreps x hx, if_pos hx]
  refine ⟨fun cycle hcycle x hx y hy => ?_, fun cycle hcycle => ?_, fun x y hxy hxne => ?_⟩
  · rcases List.mem_append.1 hcycle with hcycle | hcycle
    · exact hkept (h.together cycle hcycle x hx y hy)
    · obtain rfl := List.mem_singleton.1 hcycle
      exact (hnew hx).trans (hnew hy).symm
  · rcases List.mem_append.1 hcycle with hcycle | hcycle
    · exact h.several cycle hcycle
    · obtain rfl := List.mem_singleton.1 hcycle
      exact ⟨a, List.mem_cons_self, b, List.mem_cons_of_mem a List.mem_cons_self, hne.symm⟩
  · have hbefore {y : Instance} (hxy : c.groups.root x = c.groups.root y) (hne : x ≠ y) :
        ∃ cycle ∈ c.cycles ++ [a :: b :: rest], x ∈ cycle := by
      obtain ⟨cycle, hcycle, hx⟩ := h.listed x y hxy hne
      exact ⟨cycle, List.mem_append_left _ hcycle, hx⟩
    by_cases hsame : c.groups.root x = c.groups.root y
    · exact hbefore hsame hxne
    · -- Only the cycle can have brought the two together, so the group of `x` is on it.
      have hx : c.groups.root x ∈ a :: b :: rest := by
        rw [hroot, hroot] at hxy
        by_contra hx
        rw [if_neg hx] at hxy
        split at hxy
        · exact hx (hxy ▸ List.mem_cons_self)
        · exact hsame hxy
      by_cases hself : x = c.groups.root x
      · exact ⟨_, List.mem_append_right _ (List.mem_singleton_self _), hself ▸ hx⟩
      · exact hbefore (hm.rooted.root_root x).symm hself

theorem Joined.condense (h : Joined c) (hm : Merges g₀ c) (fuel : Nat) : Joined (condense fuel c) := by
  induction fuel generalizing c with
  | zero => exact h
  | succ fuel ih =>
      rw [FollowSets.condense]
      split
      · exact h
      · next cycle hcycle =>
          have hc := Digraph.isCycle_of_findCycle hcycle
          exact ih (h.join hm hc) (hm.join hc)

theorem joined_condensation (hloop : ∀ x, ¬ g.HasEdge x x) : Joined (condensation g) :=
  (joined_initial g).condense (merges_initial hloop) _

/-! ## the merged groups -/

/-- Put instances under the representatives of their groups. -/
def regroup (groups : Groups Instance) (m : Keyed Instance (List Instance)) (xs : List Instance) :
    Keyed Instance (List Instance) :=
  xs.foldl (fun m x => m.update (groups.root x) [] fun xs => if x ∈ xs then xs else xs ++ [x]) m

theorem merged_eq (c : Condensation) : c.merged = (regroup c.groups ∅ c.cycles.flatten).values := by
  rw [Condensation.merged, regroup, List.foldl_flatten]

theorem mem_regroup (groups : Groups Instance) (m : Keyed Instance (List Instance))
    (xs : List Instance) : x ∈ ((regroup groups m xs).get? i).getD [] ↔
      x ∈ (m.get? i).getD [] ∨ (x ∈ xs ∧ groups.root x = i) := by
  induction xs generalizing m with
  | nil => simp [regroup]
  | cons z xs ih =>
      have hstep : regroup groups m (z :: xs) = regroup groups
          (m.update (groups.root z) [] fun xs => if z ∈ xs then xs else xs ++ [z]) xs := rfl
      rw [hstep, ih, Keyed.get?_update]
      by_cases hz : groups.root z = i
      · subst hz
        rw [if_pos rfl, Option.getD_some]
        split <;> grind
      · have hne : ¬ (x = z ∧ groups.root x = i) := fun h => hz (h.1 ▸ h.2)
        rw [if_neg hz, List.mem_cons]
        tauto

theorem mem_keys_regroup (groups : Groups Instance) (m : Keyed Instance (List Instance))
    (xs : List Instance) : i ∈ (regroup groups m xs).keys ↔
      i ∈ m.keys ∨ ∃ x ∈ xs, groups.root x = i := by
  induction xs generalizing m with
  | nil => simp [regroup]
  | cons z xs ih =>
      have hstep : regroup groups m (z :: xs) = regroup groups
          (m.update (groups.root z) [] fun xs => if z ∈ xs then xs else xs ++ [z]) xs := rfl
      rw [hstep, ih, Keyed.mem_keys_update]
      grind

/-- An entry of the groups lists the instances on the joined cycles that are in one group, and there is
an entry for each of these instances. -/
theorem entries_regroup : (∀ e ∈ (regroup c.groups ∅ c.cycles.flatten).entries,
      (∃ x ∈ c.cycles.flatten, c.groups.root x = e.1) ∧
        ∀ x, x ∈ e.2 ↔ x ∈ c.cycles.flatten ∧ c.groups.root x = e.1) ∧
    ∀ x ∈ c.cycles.flatten, ∃ e ∈ (regroup c.groups ∅ c.cycles.flatten).entries,
      c.groups.root x = e.1 := by
  have hempty (i : Instance) : i ∉ (∅ : Keyed Instance (List Instance)).keys := List.not_mem_nil
  constructor
  · intro e he
    have hget := Keyed.mem_entries_iff.1 he
    constructor
    · have hkey := Keyed.mem_keys_iff.2 ⟨_, hget⟩
      exact ((mem_keys_regroup c.groups ∅ _).1 hkey).resolve_left (hempty _)
    · intro x
      have hmem := mem_regroup (x := x) (i := e.1) c.groups ∅ c.cycles.flatten
      rwa [hget, Keyed.get?_empty, Option.getD_some, Option.getD_none, or_iff_right List.not_mem_nil]
        at hmem
  · intro x hx
    obtain ⟨group, hget⟩ := Keyed.mem_keys_iff.1
      ((mem_keys_regroup c.groups ∅ c.cycles.flatten).2 (.inr ⟨x, hx, rfl⟩))
    exact ⟨_, Keyed.mem_entries_iff.2 hget, rfl⟩

/-- An instance is on a joined cycle exactly if its group has others. -/
theorem Joined.mem_flatten_iff (h : Joined c) :
    x ∈ c.cycles.flatten ↔ ∃ y, c.groups.root x = c.groups.root y ∧ x ≠ y := by
  rw [List.mem_flatten]
  constructor
  · rintro ⟨cycle, hcycle, hx⟩
    obtain ⟨y, hy, z, hz, hne⟩ := h.several cycle hcycle
    by_cases hxy : x = y
    · exact ⟨z, h.together cycle hcycle x hx z hz, hxy ▸ hne⟩
    · exact ⟨y, h.together cycle hcycle x hx y hy, hxy⟩
  · rintro ⟨y, hxy, hne⟩
    exact h.listed x y hxy hne

/-- Different instances are in a merged group together exactly if they are in one group. -/
theorem Joined.exists_mem_merged_iff (h : Joined c) (hne : x ≠ y) :
    (∃ group ∈ c.merged, x ∈ group ∧ y ∈ group) ↔ c.groups.root x = c.groups.root y := by
  obtain ⟨hentries, hall⟩ := entries_regroup (c := c)
  rw [merged_eq, Keyed.values]
  constructor
  · rintro ⟨group, hgroup, hx, hy⟩
    obtain ⟨e, he, rfl⟩ := List.mem_map.1 hgroup
    exact (((hentries e he).2 x).1 hx).2.trans (((hentries e he).2 y).1 hy).2.symm
  · intro hxy
    have hx : x ∈ c.cycles.flatten := h.mem_flatten_iff.2 ⟨y, hxy, hne⟩
    have hy : y ∈ c.cycles.flatten := h.mem_flatten_iff.2 ⟨x, hxy.symm, hne.symm⟩
    obtain ⟨e, he, hroot⟩ := hall x hx
    exact ⟨e.2, List.mem_map_of_mem he, ((hentries e he).2 x).2 ⟨hx, hroot⟩,
      ((hentries e he).2 y).2 ⟨hy, hxy ▸ hroot⟩⟩

theorem pairwise_merged (c : Condensation) :
    c.merged.Pairwise fun group group' => ∀ x ∈ group, x ∉ group' := by
  obtain ⟨hentries, -⟩ := entries_regroup (c := c)
  rw [merged_eq, Keyed.values, List.pairwise_map]
  have hkeys := List.pairwise_map.1 (regroup c.groups ∅ c.cycles.flatten).nodup_keys
  refine hkeys.imp_of_mem fun {e e'} he he' hne x hx hx' => hne ?_
  exact (((hentries e he).2 x).1 hx).2.symm.trans (((hentries e' he').2 x).1 hx').2

/-- A merged group has two members. -/
theorem Joined.exists_ne_of_mem_merged (h : Joined c) (hgroup : group ∈ c.merged) :
    ∃ x ∈ group, ∃ y ∈ group, x ≠ y := by
  obtain ⟨hentries, -⟩ := entries_regroup (c := c)
  rw [merged_eq, Keyed.values] at hgroup
  obtain ⟨e, he, rfl⟩ := List.mem_map.1 hgroup
  obtain ⟨⟨x, hx, hroot⟩, hmem⟩ := hentries e he
  obtain ⟨y, hxy, hne⟩ := h.mem_flatten_iff.1 hx
  have hy : y ∈ c.cycles.flatten := h.mem_flatten_iff.2 ⟨x, hxy.symm, hne.symm⟩
  exact ⟨x, (hmem x).2 ⟨hx, hroot⟩, y, (hmem y).2 ⟨hy, hxy ▸ hroot⟩, hne⟩

/-! ## dependencies -/

/-- The graph of dependencies has a way from one instance to another where the rules say so. -/
theorem Equations.Reads.reaches_iff {eqs : Equations} (h : Equations.Reads terminals firsts rules eqs) :
    eqs.dependencies.Reaches i j ↔ Relation.ReflTransGen (Depends rules terminals firsts) i j := by
  have hedge : eqs.dependencies.HasEdge = Depends rules terminals firsts :=
    funext fun i => funext fun j => propext (h.edges i j)
  rw [Digraph.Reaches, hedge]

/-- What follows an instance follows all instances that depend on it. -/
theorem Follows.of_depends {t : Symbol} (h : Relation.ReflTransGen (Depends rules terminals firsts) i j)
    (ht : Follows rules terminals firsts j t) : Follows rules terminals firsts i t := by
  induction h using Relation.ReflTransGen.head_induction_on with
  | refl => exact ht
  | head hstep _ ih =>
      obtain ⟨-, r, hr, howner, rest, hocc, hε⟩ := hstep
      exact .inherit hr howner hocc hε ih

/-- Instances that depend on others, and those that these depend on, have sets. -/
theorem mem_keys_of_depends (h : ofRules rules terminals firsts = .ok f)
    (hij : Depends rules terminals firsts i j) : i ∈ f.sets.keys ∧ j ∈ f.sets.keys := by
  obtain ⟨-, r, hr, howner, rest, hocc, -⟩ := hij
  exact ⟨(mem_keys_sets_iff h).2 (.inr ⟨r, hr, .inr ⟨rest, hocc⟩⟩),
    (mem_keys_sets_iff h).2 (.inr ⟨r, hr, .inl howner⟩)⟩

/-- Instances that depend on each other have one set. -/
theorem exists_common_set (h : ofRules rules terminals firsts = .ok f) (hne : i ≠ j)
    (hij : Relation.ReflTransGen (Depends rules terminals firsts) i j)
    (hji : Relation.ReflTransGen (Depends rules terminals firsts) j i) :
    ∃ S, f.sets.get? i = some S ∧ f.sets.get? j = some S := by
  have hkey {i j : Instance} (hne : i ≠ j)
      (hij : Relation.ReflTransGen (Depends rules terminals firsts) i j) : i ∈ f.sets.keys := by
    obtain ⟨k, hik, -⟩ := (Relation.ReflTransGen.cases_head hij).resolve_left hne
    exact (mem_keys_of_depends h hik).1
  obtain ⟨S, hS⟩ := Keyed.mem_keys_iff.1 (hkey hne hij)
  obtain ⟨S', hS'⟩ := Keyed.mem_keys_iff.1 (hkey hne.symm hji)
  obtain rfl : S = S' := SymbolSet.ext_mem fun t => by
    rw [← Keyed.has_iff hS, ← Keyed.has_iff hS', has_sets_iff h, has_sets_iff h]
    exact ⟨.of_depends hji, .of_depends hij⟩
  exact ⟨S, hS, hS'⟩

/-- Two instances are merged exactly if they depend on each other. -/
theorem merged_iff (h : ofRules rules terminals firsts = .ok f) (hne : i ≠ j) :
    (∃ group ∈ f.merged, i ∈ group ∧ j ∈ group) ↔
      Relation.ReflTransGen (Depends rules terminals firsts) i j ∧
        Relation.ReflTransGen (Depends rules terminals firsts) j i := by
  obtain ⟨eqs, resolved, es, heqs, -, -, rfl⟩ := exists_of_ofRules h
  have hreads := Equations.reads_ofRules heqs
  rw [(joined_condensation hreads.not_hasEdge_self).exists_mem_merged_iff hne,
    root_condensation_iff hreads.not_hasEdge_self, hreads.reaches_iff, hreads.reaches_iff]

/-- The merged groups are the instances that depend on each other, however many steps it took to merge
them.  The groups are disjoint, each has two members, and its members have one FOLLOW set. -/
theorem merged_components
    (hrules : ∀ r ∈ rules, r.production.symbols.length < r.states.length ∧
      ∀ s ∈ r.production.symbols, s ∈ firsts.keys) :
    ∃ f, ofRules rules terminals firsts = .ok f ∧
      (∀ i j, i ≠ j → ((∃ group ∈ f.merged, i ∈ group ∧ j ∈ group) ↔
        Relation.ReflTransGen (Depends rules terminals firsts) i j ∧
          Relation.ReflTransGen (Depends rules terminals firsts) j i)) ∧
      f.merged.Pairwise (fun group group' => ∀ i ∈ group, i ∉ group') ∧
      (∀ group ∈ f.merged, ∃ i ∈ group, ∃ j ∈ group, i ≠ j) ∧
      ∀ group ∈ f.merged, ∀ i ∈ group, ∀ j ∈ group,
        ∃ S, f.sets.get? i = some S ∧ f.sets.get? j = some S := by
  obtain ⟨f, h⟩ : ∃ f, ofRules rules terminals firsts = .ok f :=
    exists_ofRules terminals fun r hr => readable_of_lt (hrules r hr).1 (hrules r hr).2
  have hseveral : ∀ group ∈ f.merged, ∃ i ∈ group, ∃ j ∈ group, i ≠ j := by
    obtain ⟨eqs, resolved, es, heqs, -, -, rfl⟩ := exists_of_ofRules h
    have hloop := (Equations.reads_ofRules heqs).not_hasEdge_self
    exact fun group => (joined_condensation hloop).exists_ne_of_mem_merged
  have hcommon {group : List Instance} (hgroup : group ∈ f.merged) {i j : Instance} (hi : i ∈ group)
      (hj : j ∈ group) (hne : i ≠ j) : ∃ S, f.sets.get? i = some S ∧ f.sets.get? j = some S := by
    obtain ⟨hij, hji⟩ := (merged_iff h hne).1 ⟨group, hgroup, hi, hj⟩
    exact exists_common_set h hne hij hji
  refine ⟨f, h, fun i j => merged_iff h, ?_, hseveral, fun group hgroup i hi j hj => ?_⟩
  · obtain ⟨eqs, resolved, es, -, -, -, rfl⟩ := exists_of_ofRules h
    exact pairwise_merged _
  · by_cases hij : i = j
    · subst hij
      obtain ⟨x, hx, y, hy, hxy⟩ := hseveral group hgroup
      -- One of two different members differs from this one.
      by_cases hix : i = x
      · obtain ⟨S, hS, -⟩ := hcommon hgroup hi hy (hix ▸ hxy)
        exact ⟨S, hS, hS⟩
      · obtain ⟨S, hS, -⟩ := hcommon hgroup hi hx hix
        exact ⟨S, hS, hS⟩
    · exact hcommon hgroup hi hj hij

/-- Rules in which one instance depends on two others, and both on it: two cycles with a common
member. -/
def sampleRules : List ExtendedRule :=
  [⟨⟨startSymbol, ["a"]⟩, [0, 9, 9]⟩, ⟨⟨"a", ["x", "b"]⟩, [0, 1, 2, 9]⟩,
   ⟨⟨"b", ["y", "a"]⟩, [1, 0, 2, 9]⟩, ⟨⟨"b", ["z", "c"]⟩, [1, 4, 2, 9]⟩,
   ⟨⟨"c", ["w", "b"]⟩, [4, 1, 2, 9]⟩]

/-- The terminals of these rules. -/
def sampleTerminals : List Symbol := ["w", "x", "y", "z"]

/-- The FIRST sets of their symbols. -/
def sampleFirsts : FirstSets :=
  Keyed.ofList ([("w", ["w"]), ("x", ["x"]), ("y", ["y"]), ("z", ["z"]), ("a", ["x"]), ("b", ["y", "z"]),
    ("c", ["w"])].map fun e => (e.1, SymbolSet.ofList e.2))

/-- The last symbol of a rule with two symbols depends on the instance that the rule recognises. -/
theorem depends_last {r : ExtendedRule} {s s' name : Symbol} {q q' : Nat} {states : List Nat} (hr : r ∈ rules)
    (hr' : r = ⟨⟨name, [s, s']⟩, q :: q' :: states⟩) (hs' : s' ∉ terminals) (hne : s' ≠ name) :
    Depends rules terminals firsts ⟨s', q'⟩ ⟨name, q⟩ := by
  subst hr'
  exact ⟨fun h => hne (congrArg Instance.symbol h), _, hr, rfl, [], .there (.here hs'), rfl⟩

/-- All three instances are merged. -/
theorem merged_components_sample :
    (∀ r ∈ sampleRules, r.production.symbols.length < r.states.length ∧
      ∀ s ∈ r.production.symbols, s ∈ sampleFirsts.keys) ∧
    ∃ f, ofRules sampleRules sampleTerminals sampleFirsts = .ok f ∧
      ∃ group ∈ f.merged, ⟨"a", 0⟩ ∈ group ∧ ⟨"c", 4⟩ ∈ group := by
  have hrules : ∀ r ∈ sampleRules, r.production.symbols.length < r.states.length ∧
      ∀ s ∈ r.production.symbols, s ∈ sampleFirsts.keys := by decide
  obtain ⟨f, h, hmerged, -⟩ := @merged_components sampleTerminals sampleFirsts sampleRules hrules
  have hba : Depends sampleRules sampleTerminals sampleFirsts ⟨"b", 1⟩ ⟨"a", 0⟩ :=
    depends_last (r := sampleRules[1]) (by decide) rfl (by decide) (by decide)
  have hab : Depends sampleRules sampleTerminals sampleFirsts ⟨"a", 0⟩ ⟨"b", 1⟩ :=
    depends_last (r := sampleRules[2]) (by decide) rfl (by decide) (by decide)
  have hcb : Depends sampleRules sampleTerminals sampleFirsts ⟨"c", 4⟩ ⟨"b", 1⟩ :=
    depends_last (r := sampleRules[3]) (by decide) rfl (by decide) (by decide)
  have hbc : Depends sampleRules sampleTerminals sampleFirsts ⟨"b", 1⟩ ⟨"c", 4⟩ :=
    depends_last (r := sampleRules[4]) (by decide) rfl (by decide) (by decide)
  exact ⟨hrules, f, h, (hmerged _ _ (by decide)).2 ⟨.tail (.single hab) hbc, .tail (.single hcb) hba⟩⟩

end Lalr.FollowSets
