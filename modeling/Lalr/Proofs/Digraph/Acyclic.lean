import Lalr.Proofs.Digraph

/-!
# Lalr.Proofs.Digraph.Acyclic

Graphs without cycles.  A cycle is found exactly if there is one (`findCycle_exact`), and if there is none,
then the order of leaving lists every node once (`nodup_postOrder`, `mem_postOrder_iff`), after all nodes
that it has edges to (`mem_before_of_hasEdge`).

That no node is listed twice holds of every graph: a node is entered while it is unvisited, which it never is
again, and a node that is left was on the path.
-/

namespace Lalr.Digraph

variable {α : Type} [DecidableEq α] {g : Digraph α} {v x y : α} {c left before after roots : List α}
  {unvisited : List α} {path : List (Frame α)}

/-- No node reaches itself by one edge or more. -/
def Acyclic (g : Digraph α) : Prop := ∀ x, ¬ Relation.TransGen g.HasEdge x x

/-- A graph is acyclic if a number goes down along every edge. -/
theorem acyclic_of_lt (rank : α → Nat) (h : ∀ e ∈ g.entries, ∀ y ∈ e.2, rank y < rank e.1) :
    g.Acyclic := by
  have hedge {x y : α} (hxy : g.HasEdge x y) : rank y < rank x := by
    obtain ⟨ys, hget, hy⟩ := mem_targets_iff.1 hxy
    exact h (x, ys) (Keyed.mem_entries_iff.2 hget) y hy
  have hpath {x y : α} (hxy : Relation.TransGen g.HasEdge x y) : rank y < rank x := by
    induction hxy with
    | single hxy => exact hedge hxy
    | tail _ hyz ih => exact Nat.lt_trans (hedge hyz) ih
  exact fun x hcycle => Nat.lt_irrefl (rank x) (hpath hcycle)

/-! ## the search for a cycle -/

/-- A node of a cycle reaches itself: on to the last node, back to the first and on to itself. -/
theorem IsCycle.transGen_self (h : g.IsCycle c) (hx : x ∈ c) : Relation.TransGen g.HasEdge x x := by
  have hlast := List.getLast?_eq_some_getLast h.ne_nil
  have hfirst := List.head?_eq_some_head h.ne_nil
  have hback : g.HasEdge (c.getLast h.ne_nil) (c.head h.ne_nil) := h.closing _ hlast _ hfirst
  have hto : g.Reaches x (c.getLast h.ne_nil) := h.reaches hx (List.getLast_mem h.ne_nil)
  have hfrom : g.Reaches (c.head h.ne_nil) x := h.reaches (List.head_mem h.ne_nil) hx
  exact (Relation.TransGen.tail' hto hback).trans_left hfrom

/-- No cycle is found exactly if there is none. -/
theorem findCycle_eq_none_iff : g.findCycle = none ↔ g.Acyclic := by
  constructor
  · intro h x hcycle
    -- A node on a cycle has an edge, so it was left, after its targets.
    obtain ⟨hordered, hkeys⟩ := ordered_postOrder h
    obtain ⟨y, hxy, -⟩ := Relation.TransGen.head'_iff.1 hcycle
    have hleft : x ∈ g.postOrder.reverse := List.mem_reverse.2 (hkeys x (mem_keys_of_hasEdge hxy))
    exact hordered.not_transGen_self hleft hcycle
  · intro hacyclic
    cases hc : g.findCycle with
    | none => rfl
    | some c =>
        have hcycle := isCycle_of_findCycle hc
        obtain ⟨x, hx⟩ := List.exists_mem_of_ne_nil c hcycle.ne_nil
        exact absurd (hcycle.transGen_self hx) (hacyclic x)

/-- In an acyclic graph, no two nodes reach each other. -/
theorem Acyclic.eq_of_reaches (h : g.Acyclic) (hxy : g.Reaches x y) (hyx : g.Reaches y x) : x = y := by
  rcases Relation.ReflTransGen.cases_head hxy with rfl | ⟨z, hxz, hzy⟩
  · rfl
  · exact absurd (Relation.TransGen.head' hxz (hzy.trans hyx)) (h x)

/-- The search for a cycle is exact: it finds nothing exactly if no node reaches itself, and what it finds
is a cycle. -/
theorem findCycle_exact (g : Digraph α) :
    (g.findCycle = none ↔ ∀ x, ¬ Relation.TransGen g.HasEdge x x) ∧
      ∀ c, g.findCycle = some c → g.IsCycle c :=
  ⟨findCycle_eq_none_iff, fun _ => isCycle_of_findCycle⟩

/-- Neither the way to the cycle nor a node left behind is part of what is found. -/
example : findCycle (Keyed.ofList [(0, [1]), (1, [2, 3]), (3, [4, 1])] : Digraph Nat) = some [1, 3] := by
  cbv

/-! ## the order of leaving -/

/-- What is left from now on is left once, and it was unvisited or on the path. -/
theorem nodup_leaveOrder (h : g.Path unvisited path) :
    (leaveOrder g unvisited path roots).Nodup ∧
      ∀ v ∈ leaveOrder g unvisited path roots, v ∈ unvisited ∨ v ∈ path.map Frame.node := by
  induction unvisited, path, roots using leaveOrder.induct g with
  | case1 unvisited => simp [leaveOrder]
  | case2 unvisited root roots hmem ih =>
      rw [leaveOrder, dif_pos hmem]
      obtain ⟨hnd, hall⟩ := ih (path_root unvisited root)
      refine ⟨hnd, fun v hv => .inl ?_⟩
      rcases hall v hv with hv | hv
      · exact (mem_drop_iff.1 hv).1
      · rwa [List.mem_singleton.1 hv]
  | case3 unvisited root roots hmem ih =>
      rw [leaveOrder, dif_neg hmem]
      exact ih h
  | case4 unvisited x path roots ih =>
      rw [leaveOrder]
      obtain ⟨hnd, hall⟩ := ih h.leave
      refine ⟨List.nodup_cons.2 ⟨fun hx => ?_, hnd⟩, fun v hv => ?_⟩
      · rcases hall x hx with hx | hx
        · exact h.visited _ List.mem_cons_self hx
        · exact (List.nodup_cons.1 h.nodup).1 hx
      · rcases List.mem_cons.1 hv with rfl | hv
        · exact .inr List.mem_cons_self
        · exact (hall v hv).imp_right (List.mem_cons_of_mem x)
  | case5 unvisited x y untried path roots hmem ih =>
      rw [leaveOrder, dif_pos hmem]
      obtain ⟨hnd, hall⟩ := ih (h.enter hmem)
      refine ⟨hnd, fun v hv => ?_⟩
      rcases hall v hv with hv | hv
      · exact .inl (mem_drop_iff.1 hv).1
      · rcases List.mem_cons.1 hv with rfl | hv
        · exact .inl hmem
        · exact .inr hv
  | case6 unvisited x y untried path roots hmem ih =>
      rw [leaveOrder, dif_neg hmem]
      exact ih h.skip

/-- No node is listed twice. -/
theorem nodup_postOrder (g : Digraph α) : g.postOrder.Nodup :=
  (nodup_leaveOrder (path_nil g g.nodes)).1

/-- Only nodes are listed. -/
theorem mem_nodes_of_mem_postOrder (h : v ∈ g.postOrder) : v ∈ g.nodes :=
  ((nodup_leaveOrder (path_nil g g.nodes)).2 v h).resolve_right List.not_mem_nil

theorem Ordered.mem_of_hasEdge (h : g.Ordered left) (hx : x ∈ left) (hxy : g.HasEdge x y) : y ∈ left := by
  induction h with
  | nil => exact absurd hx List.not_mem_nil
  | @cons z left htargets _ ih =>
      rcases List.mem_cons.1 hx with rfl | hx
      · exact List.mem_cons_of_mem x (htargets y hxy)
      · exact List.mem_cons_of_mem z (ih hx)

theorem Ordered.of_append {front : List α} (h : g.Ordered (front ++ left)) : g.Ordered left := by
  induction front with
  | nil => exact h
  | cons x front ih =>
      obtain _ | ⟨-, h⟩ := h
      exact ih h

/-- In an acyclic graph all nodes are listed, also those that have no edges themselves. -/
theorem mem_postOrder_iff (h : g.Acyclic) : v ∈ g.postOrder ↔ v ∈ g.keys ∨ ∃ u, g.HasEdge u v := by
  obtain ⟨hordered, hkeys⟩ := ordered_postOrder (findCycle_eq_none_iff.2 h)
  refine ⟨fun hv => mem_nodes_iff.1 (mem_nodes_of_mem_postOrder hv), ?_⟩
  rintro (hv | ⟨u, huv⟩)
  · exact hkeys v hv
  · have hu : u ∈ g.postOrder.reverse := List.mem_reverse.2 (hkeys u (mem_keys_of_hasEdge huv))
    exact List.mem_reverse.1 (hordered.mem_of_hasEdge hu huv)

/-- In an acyclic graph the targets of a node are listed before it. -/
theorem mem_before_of_hasEdge (h : g.Acyclic) (horder : g.postOrder = before ++ x :: after)
    (hxy : g.HasEdge x y) : y ∈ before := by
  have hordered := (ordered_postOrder (findCycle_eq_none_iff.2 h)).1
  rw [horder, List.reverse_append, List.reverse_cons, List.append_assoc] at hordered
  obtain _ | ⟨htargets, -⟩ := hordered.of_append
  exact List.mem_reverse.1 (htargets y hxy)

end Lalr.Digraph
