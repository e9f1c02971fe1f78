import Lalr.Proofs.Groups
import Mathlib.Data.List.Induction
import Mathlib.Logic.Relation

/-!
# Lalr.Proofs.Groups.Calls

A partition as it is used: new at first, then asked for representatives and told to join groups, in any
order.  The links never form a cycle, and two elements have one representative exactly if the pairs joined
so far connect them (`representatives_after`).

Every call keeps what `Represents` says: the elements of a joined pair have one representative, and every
element is connected to its own.
-/

namespace Lalr.Groups

/-- A call on a partition. -/
inductive Call (α : Type) where
  | find (x : α)
  | union (x y : α)
deriving DecidableEq, Repr

variable {α : Type} {calls : List (Call α)} {x y : α}

/-! ## connected elements -/

/-- The calls join pairs that connect two elements. -/
def Connected (calls : List (Call α)) : α → α → Prop :=
  Relation.EqvGen fun x y => .union x y ∈ calls

theorem Connected.append (h : Connected calls x y) (c : Call α) : Connected (calls ++ [c]) x y :=
  Relation.EqvGen.mono (fun _ _ => List.mem_append_left [c]) x y h

/-- The elements of the pair that is joined last are connected. -/
theorem connected_union (calls : List (Call α)) (x y : α) : Connected (calls ++ [.union x y]) x y :=
  .rel x y (List.mem_append_right calls List.mem_cons_self)

/-! ## calls -/

variable [DecidableEq α] {g : Groups α} {r : α} {n : Nat}

/-- The partition after a call. -/
def call (g : Groups α) : Call α → Groups α
  | .find x => (g.find x).2
  | .union x y => g.union x y

/-- The partition that calls on a new one leave. -/
def after (calls : List (Call α)) : Groups α := calls.foldl call ∅

/-- The representative that is found for an element after calls on a new partition. -/
def representative (calls : List (Call α)) (x : α) : α := ((after calls).find x).1

theorem after_append_singleton (calls : List (Call α)) (c : Call α) :
    after (calls ++ [c]) = (after calls).call c := by
  rw [after, after, List.foldl_append, List.foldl_cons, List.foldl_nil]

/-! ## links -/

/-- An element is linked to another. -/
def Links (g : Groups α) (x y : α) : Prop := g.parents.get? x = some y

/-- Following links leads closer to the representative. -/
theorem Leads.of_transGen (hxy : Relation.TransGen g.Links x y) (h : Leads g.parents n x r) :
    ∃ m < n, Leads g.parents m y r := by
  have hstep {x y : α} {n : Nat} (hxy : g.Links x y) (h : Leads g.parents n x r) :
      ∃ m < n, Leads g.parents m y r := by
    cases h with
    | top h => exact absurd (h.symm.trans hxy) (by simp)
    | @up m _ z _ h hz =>
        obtain rfl : z = y := Option.some.inj (h.symm.trans hxy)
        exact ⟨m, Nat.lt_succ_self m, hz⟩
  induction hxy with
  | single hxy => exact hstep hxy h
  | tail _ hyz ih =>
      obtain ⟨m, hm, hy⟩ := ih
      obtain ⟨k, hk, hz⟩ := hstep hyz hy
      exact ⟨k, Nat.lt_trans hk hm, hz⟩

/-- Where every element has a representative, the links form no cycle. -/
theorem Rooted.not_transGen_self (hg : g.Rooted) (x : α) : ¬ Relation.TransGen g.Links x x := by
  intro hcycle
  obtain ⟨n, h⟩ := hg.leads x
  obtain ⟨m, hm, h'⟩ := h.of_transGen hcycle
  exact Nat.ne_of_lt hm (h'.unique h).1

/-! ## what every call keeps -/

/-- A partition has representatives for the elements that calls connect: those of a joined pair have one,
and each is connected to its own. -/
structure Represents (calls : List (Call α)) (g : Groups α) : Prop where
  rooted : g.Rooted
  joined : ∀ x y, .union x y ∈ calls → g.root x = g.root y
  connected : ∀ x, Connected calls x (g.root x)

theorem represents_empty : Represents [] (∅ : Groups α) where
  rooted := rooted_empty
  joined := fun _ _ h => absurd h List.not_mem_nil
  connected := fun x => by
    rw [root_empty]
    exact .refl x

/-- To find a representative changes links only. -/
theorem Represents.find (h : Represents calls g) (x : α) :
    Represents (calls ++ [.find x]) (g.find x).2 := by
  obtain ⟨-, hrooted, hroot⟩ := h.rooted.find x
  refine ⟨hrooted, fun u v huv => ?_, fun u => ?_⟩
  · rw [hroot, hroot]
    exact h.joined u v (by simpa using huv)
  · rw [hroot]
    exact (h.connected u).append _

/-- To join two groups puts the representative of the first in the place of the second one's. -/
theorem Represents.union (h : Represents calls g) (x y : α) :
    Represents (calls ++ [.union x y]) (g.union x y) := by
  obtain ⟨hrooted, hroot⟩ := h.rooted.union x y
  refine ⟨hrooted, fun u v huv => ?_, fun u => ?_⟩
  · rcases List.mem_append.1 huv with huv | huv
    · rw [hroot, hroot, h.joined u v huv]
    · obtain ⟨rfl, rfl⟩ : u = x ∧ v = y := by simpa using huv
      rw [hroot, hroot, if_pos rfl, ite_self]
  · have hold (z : α) : Connected (calls ++ [.union x y]) z (g.root z) := (h.connected z).append _
    rw [hroot]
    split
    · next huy =>
        -- From `u` to its old representative, which is that of `y`, and over the pair to that of `x`.
        have huy' : Connected (calls ++ [.union x y]) u y :=
          .trans u _ y (hold u) (huy ▸ .symm _ _ (hold y))
        exact .trans u y _ huy' (.trans y x _ (.symm x y (connected_union calls x y)) (hold x))
    · exact hold u

theorem represents_after (calls : List (Call α)) : Represents calls (after calls) := by
  induction calls using List.reverseRecOn with
  | nil => exact represents_empty
  | append_singleton calls c ih =>
      rw [after_append_singleton]
      cases c with
      | find x => exact ih.find x
      | union x y => exact ih.union x y

/-- Elements have one representative exactly if they are connected. -/
theorem Represents.root_eq_iff (h : Represents calls g) : g.root x = g.root y ↔ Connected calls x y := by
  constructor
  · intro hxy
    exact .trans x _ y (h.connected x) (hxy ▸ .symm _ _ (h.connected y))
  · intro hxy
    induction hxy with
    | rel x y hxy => exact h.joined x y hxy
    | refl x => rfl
    | symm x y _ ih => exact ih.symm
    | trans x y z _ _ ihxy ihyz => exact ihxy.trans ihyz

/-! ## representatives -/

theorem representative_eq_root (calls : List (Call α)) (x : α) :
    representative calls x = (after calls).root x :=
  ((represents_after calls).rooted.find x).1

/-- Whatever calls are made on a new partition: the links form no cycle, and following them from any element
ends at the representative that is found.  Elements have one representative exactly if the joined pairs
connect them; it is one of them, and represents itself.  To find a representative changes none, and when two
groups are joined, the representative of the first becomes that of all their elements and no other changes. -/
theorem representatives_after (calls : List (Call α)) :
    (∀ x, ¬ Relation.TransGen (after calls).Links x x) ∧
      (∀ x, ∃ n, Leads (after calls).parents n x (representative calls x)) ∧
      (∀ x y, representative calls x = representative calls y ↔ Connected calls x y) ∧
      (∀ x, Connected calls x (representative calls x) ∧
        representative calls (representative calls x) = representative calls x) ∧
      (∀ x y, representative (calls ++ [.find x]) y = representative calls y) ∧
      ∀ x y z, (Connected (calls ++ [.union x y]) z x →
          representative (calls ++ [.union x y]) z = representative calls x) ∧
        (¬ Connected (calls ++ [.union x y]) z x →
          representative (calls ++ [.union x y]) z = representative calls z) := by
  have h : Represents calls (after calls) := represents_after calls
  simp only [representative_eq_root]
  refine ⟨h.rooted.not_transGen_self, h.rooted.leads, fun x y => h.root_eq_iff,
    fun x => ⟨h.connected x, h.rooted.root_root x⟩, fun x y => ?_, fun x y z => ?_⟩
  · rw [after_append_singleton]
    exact (h.rooted.find x).2.2 y
  · have hnew : Represents (calls ++ [.union x y]) (after (calls ++ [.union x y])) :=
      represents_after _
    have hroot : ∀ z, (after (calls ++ [.union x y])).root z =
        if (after calls).root z = (after calls).root y then (after calls).root x
        else (after calls).root z := by
      rw [after_append_singleton]
      exact h.rooted.root_union x y
    constructor
    · intro hzx
      rw [hnew.root_eq_iff.2 hzx, hroot, ite_self]
    · intro hzx
      have hzy : ¬ (after calls).root z = (after calls).root y := fun hzy =>
        hzx (.trans z y x ((h.root_eq_iff.1 hzy).append _) (.symm x y (connected_union calls x y)))
      rw [hroot, if_neg hzy]

/-- Two pairs, and a third one that joins what they made. -/
example : representative [.union 1 2, .union 3 4, .find 4, .union 2 4] 3 = 1 := by decide

end Lalr.Groups
