import Lalr.Proofs.Digraph.Acyclic
import Lalr.Proofs.Follow.Totality

/-!
# Lalr.Proofs.Follow.Sweep

Why one sweep is enough.  In a graph without cycles every node is listed once and after all nodes that it has
edges to, so the sets that a node takes over in its turn are complete, and the node is left with the initial
sets of all nodes that it reaches (`postOrder_resolves`).
-/

namespace Lalr.FollowSets

variable {graph : Digraph Instance}

/-- In a graph without cycles the order of leaving lists every node once, those without edges of their own
too, and each after all nodes that it has edges to.  One sweep in this order, from any sets for the ends of
the edges, succeeds and leaves every node with what is in the sets of the nodes that it reaches. -/
theorem postOrder_resolves (hacyclic : graph.Acyclic) :
    graph.postOrder.Nodup ∧
      (∀ v, v ∈ graph.postOrder ↔ v ∈ graph.keys ∨ ∃ u, graph.HasEdge u v) ∧
      (∀ before x after, graph.postOrder = before ++ x :: after → ∀ y, graph.HasEdge x y → y ∈ before) ∧
      ∀ base : Keyed Instance SymbolSet,
        (∀ x y, graph.HasEdge x y → x ∈ base.keys ∧ y ∈ base.keys) →
        ∃ sets, graph.postOrder.foldlM (resolveNode graph) base = .ok sets ∧ sets.keys = base.keys ∧
          ∀ i t, sets.Has i t ↔ ∃ j, graph.Reaches i j ∧ base.Has j t := by
  refine ⟨graph.nodup_postOrder, fun v => Digraph.mem_postOrder_iff hacyclic,
    fun before x after horder y hxy => Digraph.mem_before_of_hasEdge hacyclic horder hxy,
    fun base hbase => ?_⟩
  obtain ⟨sets, h, hkeys⟩ := exists_sweep hbase graph.postOrder
  exact ⟨sets, h, hkeys, fun i t => has_sweep (Digraph.findCycle_eq_none_iff.2 hacyclic) h⟩

/-- Two ways from one instance to another, which has no edges of its own. -/
def diamond : Digraph Instance :=
  Keyed.ofList [(⟨"a", 0⟩, [⟨"b", 1⟩, ⟨"c", 2⟩]), (⟨"b", 1⟩, [⟨"d", 3⟩]), (⟨"c", 2⟩, [⟨"d", 3⟩])]

/-- A set for each of its instances. -/
def diamondSets : Keyed Instance SymbolSet :=
  Keyed.ofList ([(⟨"a", 0⟩, []), (⟨"b", 1⟩, ["x"]), (⟨"c", 2⟩, ["y"]), (⟨"d", 3⟩, ["z"])].map fun e =>
    (e.1, SymbolSet.ofList e.2))

/-- The set of the last instance comes to the first one over either way, and nothing comes from one way to
the other. -/
theorem postOrder_resolves_diamond : diamond.Acyclic ∧
    (∀ x y, diamond.HasEdge x y → x ∈ diamondSets.keys ∧ y ∈ diamondSets.keys) ∧
    ∃ sets, diamond.postOrder.foldlM (resolveNode diamond) diamondSets = .ok sets ∧
      sets.Has ⟨"a", 0⟩ "z" ∧ ¬ sets.Has ⟨"b", 1⟩ "y" := by
  have hacyclic : diamond.Acyclic := Digraph.acyclic_of_lt (fun i => 3 - i.state) (by decide)
  have hedge : ∀ e ∈ diamond.entries, ∀ y ∈ e.2, e.1 ∈ diamondSets.keys ∧ y ∈ diamondSets.keys := by decide
  have hbase : ∀ x y, diamond.HasEdge x y → x ∈ diamondSets.keys ∧ y ∈ diamondSets.keys := by
    intro x y hxy
    obtain ⟨ys, hget, hy⟩ := Digraph.mem_targets_iff.1 hxy
    exact hedge (x, ys) (Keyed.mem_entries_iff.2 hget) y hy
  obtain ⟨-, -, -, hsweep⟩ := postOrder_resolves hacyclic
  obtain ⟨sets, h, -, hsets⟩ := hsweep diamondSets hbase
  refine ⟨hacyclic, hbase, sets, h, (hsets _ _).2 ⟨⟨"d", 3⟩, ?_, ?_⟩, fun hy => ?_⟩
  · exact .head (b := ⟨"b", 1⟩) (by decide) (.single (by decide))
  · exact ⟨SymbolSet.ofList ["z"], rfl, by decide⟩
  · have hclosed : ∀ u ∈ [(⟨"b", 1⟩ : Instance), ⟨"d", 3⟩], ∀ v ∈ diamond.targets u,
        v ∈ [(⟨"b", 1⟩ : Instance), ⟨"d", 3⟩] := by decide
    have hreached {j : Instance} (hj : diamond.Reaches ⟨"b", 1⟩ j) :
        j ∈ [(⟨"b", 1⟩ : Instance), ⟨"d", 3⟩] := by
      induction hj with
      | refl => exact List.mem_cons_self
      | tail _ huv ih => exact hclosed _ ih _ huv
    have hnone : ∀ j ∈ [(⟨"b", 1⟩ : Instance), ⟨"d", 3⟩], "y" ∉ (diamondSets.get? j).getD ∅ := by decide
    obtain ⟨j, hj, S, hS, hyS⟩ := (hsets _ _).1 hy
    exact hnone j (hreached hj) (by rwa [hS])

end Lalr.FollowSets
