import Lalr.Groups
import Lalr.Proofs.Keyed
import Mathlib.Data.List.Perm.Subperm

/-!
# Lalr.Proofs.Groups

What joining does to a partition: a partition is known by the representatives of its elements, and
after `union x y` the group of `y` is represented by the representative of `x` (`root_union`).

Links lead from every element to a representative in finitely many steps.  No chain of links visits
an element twice, so the bound that `chain` climbs to is never felt.
-/

namespace Lalr.Groups

variable {α : Type} [DecidableEq α] {links : Keyed α α} {g : Groups α} {x y z r s : α}
  {m n fuel : Nat}

/-- From an element, exactly `n` links lead to one that has none. -/
inductive Leads (links : Keyed α α) : Nat → α → α → Prop
  | top {x : α} (h : links.get? x = none) : Leads links 0 x x
  | up {n : Nat} {x y r : α} (h : links.get? x = some y) (hy : Leads links n y r) :
      Leads links (n + 1) x r

/-- Every element has a representative: the links form no cycle. -/
def Rooted (g : Groups α) : Prop := ∀ x, ∃ n r, Leads g.parents n x r

/-! ## chains -/

theorem Leads.get?_eq_none (h : Leads links n x r) : links.get? r = none := by
  induction h with
  | top h => exact h
  | up _ _ ih => exact ih

theorem Leads.unique (h : Leads links m x r) (h' : Leads links n x s) : m = n ∧ r = s := by
  induction h generalizing n with
  | top h =>
      cases h' with
      | top => exact ⟨rfl, rfl⟩
      | up h' => rw [h] at h'; contradiction
  | up h _ ih =>
      cases h' with
      | top h' => rw [h] at h'; contradiction
      | up h' hy =>
          obtain rfl := Option.some.inj (h.symm.trans h')
          obtain ⟨rfl, rfl⟩ := ih hy
          exact ⟨rfl, rfl⟩

/-- A climb with enough fuel ends at the representative, and lists elements with links that lead
there on shorter and shorter ways. -/
theorem Leads.climb (h : Leads links n x r) (hn : n ≤ fuel) :
    ∃ way, Groups.climb links fuel x = (way, r) ∧ way.length = n ∧ way.Nodup ∧
      ∀ y ∈ way, y ∈ links.keys ∧ ∃ k ≤ n, Leads links k y r := by
  induction h generalizing fuel with
  | @top x h =>
      refine ⟨[], ?_, rfl, List.nodup_nil, by simp⟩
      cases fuel <;> simp [Groups.climb, h]
  | @up n x y r h hy ih =>
      obtain ⟨fuel, rfl⟩ : ∃ k, fuel = k + 1 := ⟨fuel - 1, by omega⟩
      obtain ⟨way, hway, hlen, hnd, hall⟩ := ih (Nat.le_of_succ_le_succ hn)
      refine ⟨x :: way, by simp [Groups.climb, h, hway], by simp [hlen], ?_, ?_⟩
      · refine List.nodup_cons.2 ⟨fun hx => ?_, hnd⟩
        obtain ⟨-, k, hk, hlead⟩ := hall x hx
        have := (hlead.unique (hy.up h)).1
        omega
      · intro z hz
        rcases List.mem_cons.1 hz with rfl | hz
        · exact ⟨Keyed.mem_keys_iff.2 ⟨y, h⟩, n + 1, Nat.le_refl _, hy.up h⟩
        · obtain ⟨hkey, k, hk, hlead⟩ := hall z hz
          exact ⟨hkey, k, Nat.le_succ_of_le hk, hlead⟩

/-- No chain is longer than there are links. -/
theorem Leads.le_size (h : Leads links n x r) : n ≤ links.size := by
  obtain ⟨way, -, hlen, hnd, hall⟩ := h.climb (Nat.le_refl n)
  have hsub := List.subperm_of_subset hnd fun y hy => (hall y hy).1
  have := hsub.length_le
  rw [Keyed.keys, List.length_map] at this
  rw [← hlen]
  exact this

theorem Leads.root_eq (h : Leads g.parents n x r) : g.root x = r := by
  obtain ⟨way, hway, -⟩ := h.climb h.le_size
  rw [root, chain, hway]

theorem Rooted.leads (hg : g.Rooted) (x : α) : ∃ n, Leads g.parents n x (g.root x) := by
  obtain ⟨n, r, h⟩ := hg x
  exact ⟨n, h.root_eq ▸ h⟩

theorem rooted_empty : (∅ : Groups α).Rooted := fun x => ⟨0, x, .top rfl⟩

@[simp] theorem root_empty (x : α) : (∅ : Groups α).root x = x :=
  Leads.root_eq (.top rfl)

/-- A representative represents itself. -/
theorem Rooted.root_root (hg : g.Rooted) (x : α) : g.root (g.root x) = g.root x := by
  obtain ⟨n, h⟩ := hg.leads x
  exact Leads.root_eq (.top h.get?_eq_none)

/-! ## finding and joining -/

theorem get?_foldl_const (way : List α) (links : Keyed α α) :
    (way.foldl (fun links y => links.set y r) links).get? z =
      if z ∈ way then some r else links.get? z := by
  induction way generalizing links with
  | nil => simp
  | cons y way ih =>
      rw [List.foldl_cons, ih, Keyed.get?_set]
      by_cases hz : z ∈ way
      · simp [hz]
      · by_cases hy : y = z
        · simp [hy]
        · have hy' : ¬ z = y := fun e => hy e.symm
          simp [hz, hy, hy']

/-- Finding a representative changes links, but no representative. -/
theorem Rooted.find (hg : g.Rooted) (x : α) :
    (g.find x).1 = g.root x ∧ (g.find x).2.Rooted ∧ ∀ z, (g.find x).2.root z = g.root z := by
  obtain ⟨n, h⟩ := hg.leads x
  obtain ⟨way, hway, -, -, hall⟩ := h.climb h.le_size
  have hfind : g.find x =
      (g.root x, ⟨way.foldl (fun links y => links.set y (g.root x)) g.parents⟩) := by
    rw [Groups.find, chain, hway]
  have hkeep {k : Nat} {z s : α} (hz : Leads g.parents k z s) :
      ∃ k', Leads (g.find x).2.parents k' z s := by
    rw [hfind]
    induction hz with
    | @top z hz =>
        have hnot : z ∉ way := fun hmem => Keyed.get?_eq_none_iff.1 hz (hall z hmem).1
        exact ⟨0, .top (by rw [get?_foldl_const, if_neg hnot, hz])⟩
    | @up k z y s hz hy ih =>
        by_cases hmem : z ∈ way
        · obtain ⟨-, k', -, hlead⟩ := hall z hmem
          obtain ⟨-, rfl⟩ := hlead.unique (hy.up hz)
          have htop : g.root x ∉ way := fun hmem =>
            Keyed.get?_eq_none_iff.1 h.get?_eq_none (hall _ hmem).1
          refine ⟨1, .up (by rw [get?_foldl_const, if_pos hmem]) (.top ?_)⟩
          rw [get?_foldl_const, if_neg htop, h.get?_eq_none]
        · obtain ⟨k', hk'⟩ := ih
          exact ⟨k' + 1, .up (by rw [get?_foldl_const, if_neg hmem, hz]) hk'⟩
  refine ⟨by rw [hfind], fun z => ?_, fun z => ?_⟩
  · obtain ⟨k, hz⟩ := hg.leads z
    obtain ⟨k', hk'⟩ := hkeep hz
    exact ⟨k', _, hk'⟩
  · obtain ⟨k, hz⟩ := hg.leads z
    obtain ⟨k', hk'⟩ := hkeep hz
    exact hk'.root_eq

/-- Linking one representative to another puts the other in its place. -/
theorem Rooted.link (hg : g.Rooted) (hx : g.parents.get? x = none)
    (hy : g.parents.get? y = none) (hxy : x ≠ y) :
    (⟨g.parents.set y x⟩ : Groups α).Rooted ∧
      ∀ z, (⟨g.parents.set y x⟩ : Groups α).root z = if g.root z = y then x else g.root z := by
  have hlead {k : Nat} {z s : α} (hz : Leads g.parents k z s) :
      ∃ k', Leads (g.parents.set y x) k' z (if s = y then x else s) := by
    induction hz with
    | @top z hz =>
        by_cases hzy : z = y
        · subst hzy
          rw [if_pos rfl]
          have hyx : ¬ z = x := fun e => hxy e.symm
          refine ⟨1, .up (by rw [Keyed.get?_set, if_pos rfl]) (.top ?_)⟩
          rw [Keyed.get?_set, if_neg hyx, hx]
        · have hyz : ¬ y = z := fun e => hzy e.symm
          rw [if_neg hzy]
          exact ⟨0, .top (by rw [Keyed.get?_set, if_neg hyz, hz])⟩
    | @up k z w s hz _ ih =>
        obtain ⟨k', hk'⟩ := ih
        have hyz : ¬ y = z := by
          rintro rfl
          rw [hy] at hz
          contradiction
        exact ⟨k' + 1, .up (by rw [Keyed.get?_set, if_neg hyz, hz]) hk'⟩
  refine ⟨fun z => ?_, fun z => ?_⟩
  · obtain ⟨k, hz⟩ := hg.leads z
    obtain ⟨k', hk'⟩ := hlead hz
    exact ⟨k', _, hk'⟩
  · obtain ⟨k, hz⟩ := hg.leads z
    obtain ⟨k', hk'⟩ := hlead hz
    exact Leads.root_eq (g := ⟨g.parents.set y x⟩) hk'

/-- After two groups are joined, the representative of the first represents both. -/
theorem Rooted.union (hg : g.Rooted) (x y : α) :
    (g.union x y).Rooted ∧
      ∀ z, (g.union x y).root z = if g.root z = g.root y then g.root x else g.root z := by
  obtain ⟨hx₁, hg₁, hroot₁⟩ := hg.find x
  obtain ⟨hy₂, hg₂, hroot₂⟩ := hg₁.find y
  rw [hroot₁] at hy₂
  have hroot (z : α) : ((g.find x).2.find y).2.root z = g.root z := by rw [hroot₂, hroot₁]
  have hnone (z : α) : ((g.find x).2.find y).2.parents.get? (g.root z) = none := by
    obtain ⟨n, h⟩ := hg₂.leads z
    rw [hroot] at h
    exact h.get?_eq_none
  by_cases hxy : g.root x = g.root y
  · have hunion : g.union x y = ((g.find x).2.find y).2 := by
      simp only [Groups.union, hx₁, hy₂, hxy, if_true]
    rw [hunion]
    refine ⟨hg₂, fun z => ?_⟩
    rw [hroot, hxy]
    split
    · next h => exact h
    · rfl
  · have hunion : g.union x y =
        ⟨((g.find x).2.find y).2.parents.set (g.root y) (g.root x)⟩ := by
      simp only [Groups.union, hx₁, hy₂, hxy, if_false]
    rw [hunion]
    obtain ⟨hr, hz⟩ := hg₂.link (hnone x) (hnone y) hxy
    refine ⟨hr, fun z => ?_⟩
    rw [hz, hroot]

theorem Rooted.root_union (hg : g.Rooted) (x y z : α) :
    (g.union x y).root z = if g.root z = g.root y then g.root x else g.root z :=
  (hg.union x y).2 z

end Lalr.Groups
