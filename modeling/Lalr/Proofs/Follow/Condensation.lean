import Lalr.Follow
import Lalr.Proofs.Digraph
import Lalr.Proofs.Groups

/-!
# Lalr.Proofs.Follow.Condensation

Merging cycles.  Whatever was merged so far, instances of one group reach each other in the original
graph, and the graph of the groups has the original edges between different groups (`Merges`).  When
the fuel is spent or no cycle is left, none is left (`findCycle_condensation`): every cycle that is
joined takes a node away.
-/

namespace Lalr.FollowSets

variable {groups : Groups Instance} {g g₀ : Digraph Instance} {c : Condensation}
  {a b v x y z : Instance} {cycle rest : List Instance} {fuel : Nat}

/-! ## joining a cycle -/

theorem root_foldl_union (hg : groups.Rooted) (a : Instance) (rest : List Instance) :
    (rest.foldl (fun g x => g.union a x) groups).Rooted ∧
      ∀ z, (rest.foldl (fun g x => g.union a x) groups).root z =
        if ∃ x ∈ rest, groups.root z = groups.root x then groups.root a else groups.root z := by
  induction rest generalizing groups with
  | nil => exact ⟨hg, by simp⟩
  | cons x rest ih =>
      obtain ⟨hg', hroot⟩ := hg.union a x
      obtain ⟨hr, hz⟩ := ih hg'
      have ha : (groups.union a x).root a = groups.root a := by
        rw [hroot]
        split <;> rfl
      refine ⟨hr, fun z => ?_⟩
      rw [List.foldl_cons, hz, ha]
      simp only [List.exists_mem_cons_iff, hroot]
      by_cases hzx : groups.root z = groups.root x
      · simp [hzx]
      · simp only [hzx, if_false, false_or]
        -- A later member that is in the group of `x` is represented by `groups.root a` by now.
        by_cases hlater : ∃ x' ∈ rest, groups.root z = groups.root x'
        · obtain ⟨x', hx', heq⟩ := hlater
          have hne : ¬ groups.root x' = groups.root x := fun e => hzx (heq.trans e)
          rw [if_pos ⟨x', hx', by rw [if_neg hne, heq]⟩, if_pos ⟨x', hx', heq⟩]
        · rw [if_neg hlater]
          split
          · next h =>
              obtain ⟨x', hx', heq⟩ := h
              split at heq
              · exact heq.symm
              · exact absurd ⟨x', hx', heq⟩ hlater
          · rfl

/-- After a cycle of representatives is joined, its first node represents what they did. -/
theorem root_joinCycle (hg : groups.Rooted) (hreps : ∀ x ∈ a :: rest, groups.root x = x) :
    (joinCycle groups (a :: rest)).Rooted ∧
      ∀ z, (joinCycle groups (a :: rest)).root z =
        if groups.root z ∈ a :: rest then a else groups.root z := by
  obtain ⟨hr, hz⟩ := root_foldl_union hg a rest
  refine ⟨hr, fun z => ?_⟩
  rw [joinCycle, hz, hreps a List.mem_cons_self]
  have hiff : (∃ x ∈ rest, groups.root z = groups.root x) ↔ groups.root z ∈ rest := by
    constructor
    · rintro ⟨x, hx, heq⟩
      rw [heq, hreps x (List.mem_cons_of_mem a hx)]
      exact hx
    · exact fun h => ⟨_, h, (hreps _ (List.mem_cons_of_mem a h)).symm⟩
  simp only [hiff, List.mem_cons]
  by_cases hmem : groups.root z ∈ rest
  · rw [if_pos hmem, if_pos (.inr hmem)]
  · by_cases ha : groups.root z = a
    · rw [if_neg hmem, if_pos (.inl ha), ha]
    · rw [if_neg hmem, if_neg fun h => h.elim ha hmem]

/-! ## the graph of the groups -/

/-- The edges of a graph, in the order in which it is gone through. -/
def edgeList (g : Digraph Instance) : List (Instance × Instance) :=
  g.entries.flatMap fun e => e.2.map fun y => (e.1, y)

theorem mem_edgeList_iff : (x, y) ∈ edgeList g ↔ g.HasEdge x y := by
  simp only [edgeList, List.mem_flatMap, List.mem_map, Prod.mk.injEq, Digraph.HasEdge,
    Digraph.mem_targets_iff]
  constructor
  · rintro ⟨⟨x', ys⟩, he, y', hy, rfl, rfl⟩
    exact ⟨ys, Keyed.mem_entries_iff.1 he, hy⟩
  · rintro ⟨ys, hget, hy⟩
    exact ⟨(x, ys), Keyed.mem_entries_iff.2 hget, y, hy, rfl, rfl⟩

/-- Add the edge between the groups of two nodes, if they are two. -/
def addCollapsed (groups : Groups Instance) (acc : Digraph Instance) (e : Instance × Instance) :
    Digraph Instance :=
  if groups.root e.1 = groups.root e.2 then acc
  else acc.addEdge (groups.root e.1) (groups.root e.2)

theorem collapse_eq (groups : Groups Instance) (g : Digraph Instance) :
    collapse groups g = (edgeList g).foldl (addCollapsed groups) ∅ := by
  rw [collapse, edgeList]
  generalize (∅ : Digraph Instance) = acc
  generalize g.entries = es
  induction es generalizing acc with
  | nil => rfl
  | cons e es ih =>
      rw [List.foldl_cons, ih, List.flatMap_cons, List.foldl_append, List.foldl_map]
      rfl

theorem hasEdge_foldl_addCollapsed (es : List (Instance × Instance)) (acc : Digraph Instance) :
    (es.foldl (addCollapsed groups) acc).HasEdge a b ↔ acc.HasEdge a b ∨
      (a ≠ b ∧ ∃ e ∈ es, groups.root e.1 = a ∧ groups.root e.2 = b) := by
  induction es generalizing acc with
  | nil => simp
  | cons e es ih =>
      have hone : (addCollapsed groups acc e).HasEdge a b ↔
          acc.HasEdge a b ∨ (a ≠ b ∧ groups.root e.1 = a ∧ groups.root e.2 = b) := by
        rw [addCollapsed]
        split
        · next heq =>
            refine ⟨.inl, ?_⟩
            rintro (h | ⟨hne, ha, hb⟩)
            · exact h
            · exact absurd (ha ▸ hb ▸ heq) hne
        · next hne =>
            rw [Digraph.hasEdge_addEdge]
            refine or_congr_right ⟨?_, ?_⟩
            · rintro ⟨rfl, rfl⟩
              exact ⟨hne, rfl, rfl⟩
            · rintro ⟨-, rfl, rfl⟩
              exact ⟨rfl, rfl⟩
      rw [List.foldl_cons, ih, hone, or_assoc, ← and_or_left]
      simp only [List.exists_mem_cons_iff]

/-- The graph of the groups has the edges between different groups. -/
theorem hasEdge_collapse : (collapse groups g).HasEdge a b ↔
    a ≠ b ∧ ∃ x y, g.HasEdge x y ∧ groups.root x = a ∧ groups.root y = b := by
  rw [collapse_eq, hasEdge_foldl_addCollapsed]
  have hempty : ¬ Digraph.HasEdge (∅ : Digraph Instance) a b := by
    simp [Digraph.HasEdge, Digraph.targets]
  simp only [hempty, false_or, Prod.exists, mem_edgeList_iff]

/-- Only nodes with edges are added to a graph. -/
theorem exists_hasEdge_foldl_addCollapsed (es : List (Instance × Instance))
    (acc : Digraph Instance) (hacc : ∀ v ∈ acc.keys, ∃ w, acc.HasEdge v w) :
    ∀ v ∈ (es.foldl (addCollapsed groups) acc).keys,
      ∃ w, (es.foldl (addCollapsed groups) acc).HasEdge v w := by
  induction es generalizing acc with
  | nil => exact hacc
  | cons e es ih =>
      refine ih _ fun v hv => ?_
      rw [addCollapsed] at hv ⊢
      split at hv
      · next heq =>
          rw [if_pos heq]
          exact hacc v hv
      · next hne =>
          rw [if_neg hne]
          rcases Keyed.mem_keys_update.1 hv with rfl | hv
          · exact ⟨_, Digraph.hasEdge_addEdge.2 (.inr ⟨rfl, rfl⟩)⟩
          · obtain ⟨w, hw⟩ := hacc v hv
            exact ⟨w, Digraph.hasEdge_addEdge.2 (.inl hw)⟩

/-- The nodes of the graph of the groups represent nodes of the graph. -/
theorem exists_of_mem_nodes_collapse (h : v ∈ (collapse groups g).nodes) :
    ∃ x ∈ g.nodes, groups.root x = v := by
  have hedge : ∃ a b, (collapse groups g).HasEdge a b ∧ (v = a ∨ v = b) := by
    rcases Digraph.mem_nodes_iff.1 h with hv | ⟨u, hu⟩
    · rw [collapse_eq] at hv
      obtain ⟨w, hw⟩ := exists_hasEdge_foldl_addCollapsed (edgeList g) ∅ (fun _ h => absurd h List.not_mem_nil) v hv
      rw [← collapse_eq] at hw
      exact ⟨v, w, hw, .inl rfl⟩
    · exact ⟨u, v, hu, .inr rfl⟩
  obtain ⟨a, b, hab, hv⟩ := hedge
  obtain ⟨-, x, y, hxy, rfl, rfl⟩ := hasEdge_collapse.1 hab
  rcases hv with rfl | rfl
  · exact ⟨x, Digraph.mem_nodes_iff.2 (.inl (Digraph.mem_keys_of_hasEdge hxy)), rfl⟩
  · exact ⟨y, Digraph.mem_nodes_of_hasEdge hxy, rfl⟩

/-! ## merging -/

/-- What merging keeps true: a group holds instances that reach each other, and the graph has the
original edges between different groups. -/
structure Merges (g₀ : Digraph Instance) (c : Condensation) : Prop where
  rooted : c.groups.Rooted
  together : ∀ x y, c.groups.root x = c.groups.root y → g₀.Reaches x y
  edges : ∀ a b, c.graph.HasEdge a b ↔
    a ≠ b ∧ ∃ x y, g₀.HasEdge x y ∧ c.groups.root x = a ∧ c.groups.root y = b
  represents : ∀ v ∈ c.graph.nodes, c.groups.root v = v

/-- A path between groups comes from a path between their members. -/
theorem Merges.reaches (h : Merges g₀ c) (hab : c.graph.Reaches a b) (hx : c.groups.root x = a)
    (hy : c.groups.root y = b) : g₀.Reaches x y := by
  induction hab using Relation.ReflTransGen.head_induction_on generalizing x with
  | refl => exact h.together x y (hx.trans hy.symm)
  | head hedge _ ih =>
      obtain ⟨-, u, v, huv, hu, hv⟩ := (h.edges _ _).1 hedge
      exact (h.together x u (hx.trans hu.symm)).trans (.head huv (ih hv))

theorem Merges.not_hasEdge_self (h : Merges g₀ c) (x : Instance) : ¬ c.graph.HasEdge x x :=
  fun hx => ((h.edges x x).1 hx).1 rfl

theorem Merges.mem_nodes_of_mem_cycle (h : Merges g₀ c) (hc : c.graph.IsCycle cycle)
    (hx : x ∈ cycle) : x ∈ c.graph.nodes := by
  obtain ⟨a, b, rest, rfl, hne⟩ := hc.exists_second h.not_hasEdge_self
  have hstep {y : Instance} (hy : y ∈ a :: b :: rest) (hxy : y ≠ x) : x ∈ c.graph.nodes := by
    obtain ⟨u, hu, -⟩ := (Relation.ReflTransGen.cases_head (hc.reaches hx hy)).resolve_left
      fun e => hxy e.symm
    exact Digraph.mem_nodes_iff.2 (.inl (Digraph.mem_keys_of_hasEdge hu))
  by_cases hax : a = x
  · exact hstep (List.mem_cons_of_mem a List.mem_cons_self) fun e => hne (e.trans hax.symm)
  · exact hstep List.mem_cons_self hax

/-- Joining a cycle keeps the groups right. -/
theorem Merges.join (h : Merges g₀ c) (hc : c.graph.IsCycle cycle) :
    Merges g₀ ⟨joinCycle c.groups cycle, c.cycles ++ [cycle],
      collapse (joinCycle c.groups cycle) c.graph⟩ := by
  have hreps : ∀ x ∈ cycle, c.groups.root x = x := fun x hx =>
    h.represents x (h.mem_nodes_of_mem_cycle hc hx)
  obtain ⟨a, b, rest, rfl, -⟩ := hc.exists_second h.not_hasEdge_self
  obtain ⟨hrooted, hroot⟩ := root_joinCycle h.rooted hreps
  have hstable (x : Instance) : (joinCycle c.groups (a :: b :: rest)).root (c.groups.root x) =
      (joinCycle c.groups (a :: b :: rest)).root x := by
    rw [hroot, hroot, h.rooted.root_root]
  refine ⟨hrooted, fun x y hxy => ?_, fun u v => ?_, fun v hv => ?_⟩
  · rw [hroot, hroot] at hxy
    split at hxy
    · next hx =>
        split at hxy
        · next hy => exact h.reaches (hc.reaches hx hy) rfl rfl
        · next hy => exact absurd (hxy ▸ List.mem_cons_self) hy
    · next hx =>
        split at hxy
        · exact absurd (hxy ▸ List.mem_cons_self) hx
        · exact h.together x y hxy
  · rw [hasEdge_collapse]
    refine and_congr_right fun hne => ⟨?_, ?_⟩
    · rintro ⟨s, t, hst, rfl, rfl⟩
      obtain ⟨-, x, y, hxy, rfl, rfl⟩ := (h.edges s t).1 hst
      exact ⟨x, y, hxy, (hstable x).symm, (hstable y).symm⟩
    · rintro ⟨x, y, hxy, rfl, rfl⟩
      refine ⟨c.groups.root x, c.groups.root y, (h.edges _ _).2 ⟨fun e => hne ?_, x, y, hxy, rfl, rfl⟩,
        hstable x, hstable y⟩
      rw [← hstable x, e, hstable y]
  · obtain ⟨x, -, rfl⟩ := exists_of_mem_nodes_collapse hv
    exact hrooted.root_root x

theorem Merges.condense (h : Merges g₀ c) (fuel : Nat) : Merges g₀ (condense fuel c) := by
  induction fuel generalizing c with
  | zero => exact h
  | succ fuel ih =>
      rw [FollowSets.condense]
      split
      · exact h
      · next cycle hcycle => exact ih (h.join (Digraph.isCycle_of_findCycle hcycle))

/-- Joining a cycle takes its second node out of the graph. -/
theorem Merges.mem_drop_of_join (h : Merges g₀ c) (hc : c.graph.IsCycle (a :: b :: rest))
    (hne : b ≠ a) {nodes : List Instance} (hnodes : ∀ v ∈ c.graph.nodes, v ∈ nodes)
    (hv : v ∈ (collapse (joinCycle c.groups (a :: b :: rest)) c.graph).nodes) :
    v ∈ Digraph.drop nodes b := by
  have hmem {x : Instance} (hx : x ∈ a :: b :: rest) : x ∈ c.graph.nodes :=
    h.mem_nodes_of_mem_cycle hc hx
  obtain ⟨-, hroot⟩ := root_joinCycle h.rooted fun x hx => h.represents x (hmem hx)
  obtain ⟨x, hx, rfl⟩ := exists_of_mem_nodes_collapse hv
  rw [hroot, h.represents x hx, Digraph.mem_drop_iff]
  split
  · exact ⟨hnodes a (hmem List.mem_cons_self), hne.symm⟩
  · next hx' =>
      refine ⟨hnodes x hx, fun e => hx' ?_⟩
      rw [e]
      exact List.mem_cons_of_mem a List.mem_cons_self

theorem findCycle_condense (h : Merges g₀ c) {nodes : List Instance}
    (hnodes : ∀ v ∈ c.graph.nodes, v ∈ nodes) (hfuel : nodes.length ≤ fuel) :
    (condense fuel c).graph.findCycle = none := by
  induction fuel generalizing c nodes with
  | zero =>
      rw [condense]
      cases hcycle : c.graph.findCycle with
      | none => rfl
      | some cycle =>
          have hc := Digraph.isCycle_of_findCycle hcycle
          obtain ⟨a, b, rest, rfl, -⟩ := hc.exists_second h.not_hasEdge_self
          have hpos := List.length_pos_of_mem
            (hnodes a (h.mem_nodes_of_mem_cycle hc List.mem_cons_self))
          omega
  | succ fuel ih =>
      rw [condense]
      split
      · assumption
      · next cycle hcycle =>
          have hc := Digraph.isCycle_of_findCycle hcycle
          have hjoin := h.join hc
          obtain ⟨a, b, rest, rfl, hne⟩ := hc.exists_second h.not_hasEdge_self
          have hb : b ∈ nodes :=
            hnodes b (h.mem_nodes_of_mem_cycle hc (List.mem_cons_of_mem a List.mem_cons_self))
          have hlt := Digraph.length_drop_lt hb
          exact ih hjoin (fun v hv => h.mem_drop_of_join hc hne hnodes hv) (by omega)

/-- Before anything is merged, every instance is a group of its own. -/
theorem merges_initial (hloop : ∀ x, ¬ g.HasEdge x x) : Merges g ⟨∅, [], g⟩ where
  rooted := Groups.rooted_empty
  together := fun x y h => by
    obtain rfl : x = y := by simpa using h
    exact .refl
  edges := fun a b => by
    simp only [Groups.root_empty]
    constructor
    · intro hab
      exact ⟨fun e => hloop a (e ▸ hab), a, b, hab, rfl, rfl⟩
    · rintro ⟨-, x, y, hxy, rfl, rfl⟩
      exact hxy
  represents := fun v _ => Groups.root_empty v

/-- The condensation of a graph merges what reaches each other. -/
theorem merges_condensation (hloop : ∀ x, ¬ g.HasEdge x x) : Merges g (condensation g) :=
  (merges_initial hloop).condense _

/-- No cycle is left. -/
theorem findCycle_condensation (hloop : ∀ x, ¬ g.HasEdge x x) :
    (condensation g).graph.findCycle = none :=
  findCycle_condense (merges_initial hloop) (fun _ => id) (Nat.le_refl _)

end Lalr.FollowSets
