import Lalr.Digraph.Cycle
import Lalr.Digraph.Order
import Lalr.Proofs.Keyed
import Mathlib.Data.List.Chain

/-!
# Lalr.Proofs.Digraph

The two searches through a graph.  A cycle that is found is one (`isCycle_of_findCycle`).  If none is
found, then the order in which the other search leaves the nodes has every node after all nodes that
it has edges to (`ordered_postOrder`).

Both searches walk the graph in the same way, and what holds between two of their turns is the same:
`Path` says it about the current path, and `Swept` about the nodes left behind.
-/

namespace Lalr.Digraph

variable {α : Type} [DecidableEq α] {g : Digraph α} {u v x y : α} {c left untried roots : List α}
  {unvisited : List α} {path : List (Frame α)}

/-! ## edges and nodes -/

theorem hasEdge_addEdge : (g.addEdge x y).HasEdge u v ↔ g.HasEdge u v ∨ (u = x ∧ v = y) := by
  unfold HasEdge targets addEdge
  rw [Keyed.get?_update]
  by_cases hu : x = u
  · subst hu
    rw [if_pos rfl, Option.getD_some]
    split
    · next hy => exact ⟨.inl, fun h => h.elim id fun h => h.2 ▸ hy⟩
    · simp
  · have hu' : ¬ u = x := fun e => hu e.symm
    simp [hu, hu']

theorem mem_targets_iff : y ∈ g.targets x ↔ ∃ ys, g.get? x = some ys ∧ y ∈ ys := by
  unfold targets
  cases g.get? x <;> simp

theorem mem_nodes_iff : v ∈ g.nodes ↔ v ∈ g.keys ∨ ∃ u, g.HasEdge u v := by
  simp only [nodes, List.mem_flatMap, List.mem_cons, HasEdge, mem_targets_iff, Keyed.keys,
    List.mem_map]
  constructor
  · rintro ⟨⟨u, ys⟩, he, rfl | hv⟩
    · exact .inl ⟨_, he, rfl⟩
    · exact .inr ⟨u, ys, Keyed.mem_entries_iff.1 he, hv⟩
  · rintro (⟨e, he, rfl⟩ | ⟨u, ys, hget, hv⟩)
    · exact ⟨e, he, .inl rfl⟩
    · exact ⟨(u, ys), Keyed.mem_entries_iff.2 hget, .inr hv⟩

theorem mem_nodes_of_hasEdge (h : g.HasEdge x y) : y ∈ g.nodes := mem_nodes_iff.2 (.inr ⟨x, h⟩)

theorem mem_keys_of_hasEdge (h : g.HasEdge x y) : x ∈ g.keys := by
  obtain ⟨ys, hget, -⟩ := mem_targets_iff.1 h
  exact Keyed.mem_keys_iff.2 ⟨ys, hget⟩

theorem mem_drop_iff : v ∈ drop unvisited x ↔ v ∈ unvisited ∧ v ≠ x := by
  simp [drop]

/-! ## cycles -/

/-- Distinct nodes, each with an edge to the next and the last with one to the first. -/
structure IsCycle (g : Digraph α) (c : List α) : Prop where
  ne_nil : c ≠ []
  nodup : c.Nodup
  edges : c.IsChain g.HasEdge
  closing : ∀ x ∈ c.getLast?, ∀ y ∈ c.head?, g.HasEdge x y

/-- Any number of edges lead from node to node. -/
def Reaches (g : Digraph α) : α → α → Prop := Relation.ReflTransGen g.HasEdge

theorem reaches_of_isChain (h : (x :: c).IsChain g.HasEdge) :
    (∀ y ∈ x :: c, g.Reaches x y) ∧ ∀ y ∈ x :: c, ∀ z ∈ (x :: c).getLast?, g.Reaches y z := by
  induction c generalizing x with
  | nil =>
      refine ⟨fun y hy => ?_, fun y hy z hz => ?_⟩
      · rw [List.mem_singleton.1 hy]
        exact .refl
      · obtain rfl : x = z := by simpa using hz
        rw [List.mem_singleton.1 hy]
        exact .refl
  | cons x' c ih =>
      obtain ⟨hedge, htail⟩ := List.isChain_cons_cons.1 h
      obtain ⟨hfrom, hto⟩ := ih htail
      refine ⟨fun y hy => ?_, fun y hy z hz => ?_⟩
      · rcases List.mem_cons.1 hy with rfl | hy
        · exact .refl
        · exact .head hedge (hfrom y hy)
      · rw [List.getLast?_cons_cons] at hz
        rcases List.mem_cons.1 hy with rfl | hy
        · exact .head hedge (hto x' List.mem_cons_self z hz)
        · exact hto y hy z hz

/-- All nodes of a cycle reach each other. -/
theorem IsCycle.reaches (h : g.IsCycle c) (hx : x ∈ c) (hy : y ∈ c) : g.Reaches x y := by
  cases c with
  | nil => exact absurd rfl h.ne_nil
  | cons a c =>
      obtain ⟨hfrom, hto⟩ := reaches_of_isChain h.edges
      have hlast : (a :: c).getLast? = some ((a :: c).getLast h.ne_nil) :=
        List.getLast?_eq_some_getLast h.ne_nil
      have hclose : g.HasEdge ((a :: c).getLast h.ne_nil) a := h.closing _ hlast a rfl
      exact (hto x hx _ hlast).trans (.head hclose (hfrom y hy))

/-- Without edges from a node to itself, a cycle has a second node. -/
theorem IsCycle.exists_second (h : g.IsCycle c) (hloop : ∀ x, ¬ g.HasEdge x x) :
    ∃ a b rest, c = a :: b :: rest ∧ b ≠ a := by
  match c with
  | [] => exact absurd rfl h.ne_nil
  | [a] => exact absurd (h.closing a rfl a rfl) (hloop a)
  | a :: b :: rest =>
      refine ⟨a, b, rest, rfl, fun e => ?_⟩
      have hnd := (List.nodup_cons.1 h.nodup).1
      exact hnd (e ▸ List.mem_cons_self)

/-! ## the path of a search -/

/-- The path of a search: every node has an edge to the one on top of it, none is on the path twice
or still unvisited, and what a frame has still to try are targets of its node. -/
structure Path (g : Digraph α) (unvisited : List α) (path : List (Frame α)) : Prop where
  nodup : (path.map Frame.node).Nodup
  visited : ∀ f ∈ path, f.node ∉ unvisited
  edges : (path.map Frame.node).IsChain fun x y => g.HasEdge y x
  targets : ∀ f ∈ path, ∀ y ∈ f.untried, g.HasEdge f.node y

theorem path_nil (g : Digraph α) (unvisited : List α) : g.Path unvisited [] where
  nodup := List.nodup_nil
  visited := fun _ h => absurd h List.not_mem_nil
  edges := .nil
  targets := fun _ h => absurd h List.not_mem_nil

theorem path_root (unvisited : List α) (root : α) :
    g.Path (drop unvisited root) [⟨root, g.targets root⟩] where
  nodup := by simp
  visited := by simp [mem_drop_iff]
  edges := by simp
  targets := by simp [HasEdge]

theorem Path.leave {f : Frame α} (h : g.Path unvisited (f :: path)) : g.Path unvisited path where
  nodup := (List.nodup_cons.1 h.nodup).2
  visited := fun f' hf' => h.visited f' (List.mem_cons_of_mem f hf')
  edges := h.edges.tail
  targets := fun f' hf' => h.targets f' (List.mem_cons_of_mem f hf')

theorem Path.skip (h : g.Path unvisited (⟨x, y :: untried⟩ :: path)) :
    g.Path unvisited (⟨x, untried⟩ :: path) where
  nodup := h.nodup
  visited := fun f hf => by
    rcases List.mem_cons.1 hf with rfl | hf
    · exact h.visited ⟨x, y :: untried⟩ List.mem_cons_self
    · exact h.visited f (List.mem_cons_of_mem _ hf)
  edges := h.edges
  targets := fun f hf => by
    rcases List.mem_cons.1 hf with rfl | hf
    · exact fun z hz => h.targets _ List.mem_cons_self z (List.mem_cons_of_mem y hz)
    · exact h.targets f (List.mem_cons_of_mem _ hf)

theorem Path.enter (h : g.Path unvisited (⟨x, y :: untried⟩ :: path)) (hy : y ∈ unvisited) :
    g.Path (drop unvisited y) (⟨y, g.targets y⟩ :: ⟨x, untried⟩ :: path) where
  nodup := by
    refine List.nodup_cons.2 ⟨fun hmem => ?_, h.skip.nodup⟩
    obtain ⟨f, hf, rfl⟩ := List.mem_map.1 hmem
    exact h.skip.visited f hf hy
  visited := fun f hf hmem => by
    rcases List.mem_cons.1 hf with rfl | hf
    · exact (mem_drop_iff.1 hmem).2 rfl
    · exact h.skip.visited f hf (mem_drop_iff.1 hmem).1
  edges := List.isChain_cons_cons.2 ⟨h.targets _ List.mem_cons_self y List.mem_cons_self, h.edges⟩
  targets := fun f hf => by
    rcases List.mem_cons.1 hf with rfl | hf
    · exact fun z hz => hz
    · exact h.skip.targets f hf

/-- An edge back to the path closes a cycle. -/
theorem Path.isCycle (h : g.Path unvisited (⟨x, y :: untried⟩ :: path))
    (hy : y ∈ x :: path.map Frame.node) :
    g.IsCycle (((x :: path.map Frame.node).takeWhile (· ≠ y)) ++ [y]).reverse := by
  obtain ⟨before, behind, hsplit, hnot⟩ := List.eq_append_cons_of_mem hy
  have htake : (x :: path.map Frame.node).takeWhile (· ≠ y) = before := by
    rw [hsplit, List.takeWhile_append_of_pos, List.takeWhile_cons_of_neg, List.append_nil]
    · simp
    · intro a ha
      simpa using fun e : a = y => hnot (e ▸ ha)
  have hpre : before ++ [y] <+: x :: path.map Frame.node := ⟨behind, by simp [hsplit]⟩
  rw [htake]
  refine ⟨by simp, ?_, ?_, ?_⟩
  · have hnd : (before ++ [y]).Nodup := h.nodup.sublist hpre.sublist
    exact List.pairwise_reverse.2 (hnd.imp Ne.symm)
  · rw [List.isChain_reverse]
    exact h.edges.prefix hpre
  · -- The last node is the top of the path, and the first is the one that the edge leads back to.
    have htop : (before ++ [y]).head? = some x := by
      cases before with
      | nil => simpa using (List.cons.inj hsplit).1.symm
      | cons b before => simpa using (List.cons.inj hsplit).1.symm
    intro a ha b hb
    obtain rfl : x = a := by rwa [List.getLast?_reverse, htop, Option.mem_some] at ha
    obtain rfl : y = b := by simpa using hb
    exact h.targets _ List.mem_cons_self y List.mem_cons_self

theorem isCycle_of_searchCycle (h : g.Path unvisited path)
    (hc : searchCycle g unvisited path roots = some c) : g.IsCycle c := by
  induction unvisited, path, roots using searchCycle.induct g with
  | case1 unvisited => rw [searchCycle] at hc; contradiction
  | case2 unvisited root roots hmem ih =>
      rw [searchCycle, dif_pos hmem] at hc
      exact ih (path_root unvisited root) hc
  | case3 unvisited root roots hmem ih =>
      rw [searchCycle, dif_neg hmem] at hc
      exact ih h hc
  | case4 unvisited x path roots ih =>
      rw [searchCycle] at hc
      exact ih h.leave hc
  | case5 unvisited x y untried path roots onPath hy =>
      replace hy : y ∈ x :: path.map Frame.node := by simpa [onPath] using hy
      rw [searchCycle, if_pos hy] at hc
      rw [← Option.some.inj hc]
      exact h.isCycle hy
  | case6 unvisited x y untried path roots onPath hy hmem ih =>
      replace hy : y ∉ x :: path.map Frame.node := by simpa [onPath] using hy
      rw [searchCycle, if_neg hy, dif_pos hmem] at hc
      exact ih (h.enter hmem) hc
  | case7 unvisited x y untried path roots onPath hy hmem ih =>
      replace hy : y ∉ x :: path.map Frame.node := by simpa [onPath] using hy
      rw [searchCycle, if_neg hy, dif_neg hmem] at hc
      exact ih h.skip hc

/-- A cycle that is found is one. -/
theorem isCycle_of_findCycle (h : g.findCycle = some c) : g.IsCycle c :=
  isCycle_of_searchCycle (path_nil g g.nodes) h

/-! ## the order of leaving -/

/-- A list of nodes, the last one left first, in which all edges lead to nodes further back. -/
inductive Ordered (g : Digraph α) : List α → Prop
  | nil : Ordered g []
  | cons {x : α} {left : List α} (hx : ∀ y, g.HasEdge x y → y ∈ left) (h : Ordered g left) :
      Ordered g (x :: left)

/-- No edges lead back to a node of such a list. -/
theorem Ordered.not_transGen_self (h : g.Ordered left) (hx : x ∈ left) :
    ¬ Relation.TransGen g.HasEdge x x := by
  induction h generalizing x with
  | nil => exact absurd hx List.not_mem_nil
  | cons htargets _ ih =>
      rcases List.mem_cons.1 hx with rfl | hx
      · intro hcycle
        obtain ⟨y, hxy, hyx⟩ := Relation.TransGen.head'_iff.1 hcycle
        exact ih (htargets y hxy) (Relation.TransGen.tail' hyx hxy)
      · exact ih hx

/-- Every target of a node on the path is still to be tried, or was left, or is on top of it. -/
def Tried (g : Digraph α) : List α → List (Frame α) → Prop
  | _, [] => True
  | left, f :: path =>
    (∀ y, g.HasEdge f.node y → y ∈ f.untried ∨ y ∈ left) ∧ Tried g (f.node :: left) path

/-- What a search has swept: a node is unvisited, or on the path, or was left, and then after all of
its targets. -/
structure Swept (g : Digraph α) (unvisited : List α) (path : List (Frame α)) (left : List α) :
    Prop where
  ordered : g.Ordered left
  tried : g.Tried left path
  somewhere : ∀ v ∈ g.nodes, v ∈ unvisited ∨ v ∈ path.map Frame.node ∨ v ∈ left

theorem Tried.mono {left left' : List α} (hsub : ∀ x ∈ left, x ∈ left') (h : g.Tried left path) :
    g.Tried left' path := by
  induction path generalizing left left' with
  | nil => trivial
  | cons f path ih =>
      refine ⟨fun y hy => (h.1 y hy).imp_right (hsub y), ih (fun x hx => ?_) h.2⟩
      rcases List.mem_cons.1 hx with rfl | hx
      · exact List.mem_cons_self
      · exact List.mem_cons_of_mem _ (hsub x hx)

theorem Swept.root (h : g.Swept unvisited [] left) (root : α) :
    g.Swept (drop unvisited root) [⟨root, g.targets root⟩] left where
  ordered := h.ordered
  tried := ⟨fun _ hy => .inl hy, trivial⟩
  somewhere := fun v hv => by
    by_cases hroot : v = root
    · exact .inr (.inl (by simp [hroot]))
    · exact (h.somewhere v hv).imp (fun hu => mem_drop_iff.2 ⟨hu, hroot⟩) fun h => .inr (by simpa using h)

theorem Swept.leave (h : g.Swept unvisited (⟨x, []⟩ :: path) left) :
    g.Swept unvisited path (x :: left) where
  ordered := .cons (fun y hy => (h.tried.1 y hy).resolve_left List.not_mem_nil) h.ordered
  tried := h.tried.2
  somewhere := fun v hv => by
    have := h.somewhere v hv
    simp only [List.map_cons, List.mem_cons] at this ⊢
    grind

theorem Swept.enter (h : g.Swept unvisited (⟨x, y :: untried⟩ :: path) left) :
    g.Swept (drop unvisited y) (⟨y, g.targets y⟩ :: ⟨x, untried⟩ :: path) left where
  ordered := h.ordered
  tried := by
    refine ⟨fun _ hz => .inl hz, fun z hz => ?_, h.tried.2.mono fun z hz => ?_⟩
    · rcases h.tried.1 z hz with hz | hz
      · rcases List.mem_cons.1 hz with rfl | hz
        · exact .inr List.mem_cons_self
        · exact .inl hz
      · exact .inr (List.mem_cons_of_mem y hz)
    · rcases List.mem_cons.1 hz with rfl | hz
      · exact List.mem_cons_self
      · exact List.mem_cons_of_mem _ (List.mem_cons_of_mem y hz)
  somewhere := fun v hv => by
    have := h.somewhere v hv
    simp only [List.map_cons, List.mem_cons, mem_drop_iff] at this ⊢
    by_cases hy : v = y
    · exact .inr (.inl (.inl hy))
    · exact this.imp (fun hu => ⟨hu, hy⟩) fun h => h.imp_left .inr

/-- A target that was visited and is not on the path was left. -/
theorem Swept.skip (h : g.Swept unvisited (⟨x, y :: untried⟩ :: path) left) (hxy : g.HasEdge x y)
    (hy : y ∉ x :: path.map Frame.node) (hu : y ∉ unvisited) :
    g.Swept unvisited (⟨x, untried⟩ :: path) left where
  ordered := h.ordered
  tried := by
    refine ⟨fun z hz => ?_, h.tried.2⟩
    rcases h.tried.1 z hz with hz | hz
    · rcases List.mem_cons.1 hz with rfl | hz
      · exact .inr (((h.somewhere z (mem_nodes_of_hasEdge hxy)).resolve_left hu).resolve_left hy)
      · exact .inl hz
    · exact .inr hz
  somewhere := h.somewhere

/-- If the search for cycles finds none, the same search leaves the nodes in order. -/
theorem swept_leaveOrder (h : g.Path unvisited path)
    (hc : searchCycle g unvisited path roots = none) :
    ∀ left, g.Swept unvisited path left → ∃ rest, g.Swept rest [] ((leaveOrder g unvisited path roots).reverse ++ left) ∧
      (∀ v ∈ rest, v ∈ unvisited) ∧ ∀ v ∈ roots, v ∉ rest := by
  induction unvisited, path, roots using searchCycle.induct g with
  | case1 unvisited =>
      intro left hs
      rw [leaveOrder]
      exact ⟨unvisited, by simpa using hs, fun _ => id, by simp⟩
  | case2 unvisited root roots hmem ih =>
      intro left hs
      rw [searchCycle, dif_pos hmem] at hc
      rw [leaveOrder, dif_pos hmem]
      obtain ⟨rest, hs', hrest, hroots⟩ := ih (path_root unvisited root) hc left (hs.root root)
      refine ⟨rest, hs', fun v hv => (mem_drop_iff.1 (hrest v hv)).1, fun v hv hv' => ?_⟩
      rcases List.mem_cons.1 hv with rfl | hv
      · exact (mem_drop_iff.1 (hrest v hv')).2 rfl
      · exact hroots v hv hv'
  | case3 unvisited root roots hmem ih =>
      intro left hs
      rw [searchCycle, dif_neg hmem] at hc
      rw [leaveOrder, dif_neg hmem]
      obtain ⟨rest, hs', hrest, hroots⟩ := ih h hc left hs
      refine ⟨rest, hs', hrest, fun v hv hv' => ?_⟩
      rcases List.mem_cons.1 hv with rfl | hv
      · exact hmem (hrest v hv')
      · exact hroots v hv hv'
  | case4 unvisited x path roots ih =>
      intro left hs
      rw [searchCycle] at hc
      rw [leaveOrder, List.reverse_cons, List.append_assoc]
      exact ih h.leave hc _ hs.leave
  | case5 unvisited x y untried path roots onPath hy =>
      replace hy : y ∈ x :: path.map Frame.node := by simpa [onPath] using hy
      rw [searchCycle, if_pos hy] at hc
      contradiction
  | case6 unvisited x y untried path roots onPath hy hmem ih =>
      intro left hs
      replace hy : y ∉ x :: path.map Frame.node := by simpa [onPath] using hy
      rw [searchCycle, if_neg hy, dif_pos hmem] at hc
      rw [leaveOrder, dif_pos hmem]
      obtain ⟨rest, hs', hrest, hroots⟩ := ih (h.enter hmem) hc left hs.enter
      exact ⟨rest, hs', fun v hv => (mem_drop_iff.1 (hrest v hv)).1, hroots⟩
  | case7 unvisited x y untried path roots onPath hy hmem ih =>
      intro left hs
      replace hy : y ∉ x :: path.map Frame.node := by simpa [onPath] using hy
      rw [searchCycle, if_neg hy, dif_neg hmem] at hc
      rw [leaveOrder, dif_neg hmem]
      have hxy : g.HasEdge x y := h.targets _ List.mem_cons_self y List.mem_cons_self
      exact ih h.skip hc left (hs.skip hxy hy hmem)

/-- In a graph in which no cycle is found, every node is listed after the nodes it has edges to. -/
theorem ordered_postOrder (h : g.findCycle = none) :
    g.Ordered g.postOrder.reverse ∧ ∀ v, v ∈ g.keys → v ∈ g.postOrder := by
  have hinit : g.Swept g.nodes [] [] := ⟨.nil, trivial, fun _ => .inl⟩
  obtain ⟨rest, hs, -, hkeys⟩ := swept_leaveOrder (path_nil g g.nodes) h [] hinit
  rw [List.append_nil] at hs
  refine ⟨hs.ordered, fun v hv => ?_⟩
  have := (hs.somewhere v (mem_nodes_iff.2 (.inl hv))).resolve_left (hkeys v hv)
  simpa [postOrder] using this

end Lalr.Digraph
