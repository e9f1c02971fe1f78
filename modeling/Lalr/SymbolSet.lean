import Lalr.Symbol

/-!
# Lalr.SymbolSet

Finite sets of symbols, kept in ascending order.  The order is that of their code points, and it is
the order in which sets are printed and in which reductions are installed.  Sets with the same
members are equal (`SymbolSet.ext_mem`), so no result can depend on the order of insertion.
-/

namespace Lalr

/-- A finite set of symbols. -/
structure SymbolSet where
  /-- The members, in ascending order. -/
  toList : List Symbol
  /-- The members ascend strictly. -/
  ascending : toList.Pairwise (· < ·)

namespace SymbolSet

instance : EmptyCollection SymbolSet := ⟨⟨[], List.Pairwise.nil⟩⟩

instance : Inhabited SymbolSet := ⟨∅⟩

instance : DecidableEq SymbolSet := fun a b =>
  decidable_of_iff (a.toList = b.toList) <| by cases a; cases b; simp

instance : Membership Symbol SymbolSet := ⟨fun s x => x ∈ s.toList⟩

instance (x : Symbol) (s : SymbolSet) : Decidable (x ∈ s) := inferInstanceAs (Decidable (x ∈ s.toList))

/-- Put a symbol at its place in an ascending list. -/
def place (x : Symbol) : List Symbol → List Symbol
  | [] => [x]
  | y :: ys => if x < y then x :: y :: ys else if x = y then y :: ys else y :: place x ys

theorem mem_place {x z : Symbol} {l : List Symbol} : z ∈ place x l ↔ z = x ∨ z ∈ l := by
  induction l with
  | nil => simp [place]
  | cons y ys ih =>
    simp only [place]
    split
    · simp
    · split
      · next h => subst h; simp
      · simp only [List.mem_cons, ih]
        exact ⟨fun h => h.elim (fun h => .inr (.inl h)) (fun h => h.elim .inl (fun h => .inr (.inr h))),
          fun h => h.elim (fun h => .inr (.inl h)) (fun h => h.elim .inl (fun h => .inr (.inr h)))⟩

theorem pairwise_place {x : Symbol} {l : List Symbol} (h : l.Pairwise (· < ·)) :
    (place x l).Pairwise (· < ·) := by
  induction l with
  | nil => simp [place]
  | cons y ys ih =>
    rw [List.pairwise_cons] at h
    simp only [place]
    split
    · next hxy =>
      rw [List.pairwise_cons]
      refine ⟨fun z hz => ?_, List.pairwise_cons.2 h⟩
      rcases List.mem_cons.1 hz with rfl | hz
      · exact hxy
      · exact String.lt_trans hxy (h.1 z hz)
    · split
      · exact List.pairwise_cons.2 h
      · next hxy hne =>
        rw [List.pairwise_cons]
        refine ⟨fun z hz => ?_, ih h.2⟩
        rcases mem_place.1 hz with rfl | hz
        · exact Decidable.byContradiction fun h' =>
            hne (String.le_antisymm (String.not_lt.1 h') (String.not_lt.1 hxy))
        · exact h.1 z hz

/-- Add a symbol. -/
def insert (s : SymbolSet) (x : Symbol) : SymbolSet := ⟨place x s.toList, pairwise_place s.ascending⟩

/-- Add every symbol of a list. -/
def insertAll (s : SymbolSet) (xs : List Symbol) : SymbolSet := xs.foldl insert s

/-- The members of either set. -/
def union (s t : SymbolSet) : SymbolSet := s.insertAll t.toList

/-- The set of the symbols of a list. -/
def ofList (xs : List Symbol) : SymbolSet := insertAll ∅ xs

/-- The set without one symbol. -/
def erase (s : SymbolSet) (x : Symbol) : SymbolSet :=
  ⟨s.toList.filter (· ≠ x), s.ascending.filter _⟩

/-- The number of members. -/
def size (s : SymbolSet) : Nat := s.toList.length

/-- The members between braces, as the text dumps show a set. -/
def text (s : SymbolSet) : String := "\x7b" ++ ", ".intercalate s.toList ++ "\x7d"

/-! ## members -/

@[simp] theorem not_mem_empty (x : Symbol) : x ∉ (∅ : SymbolSet) := List.not_mem_nil

@[simp] theorem mem_insert {s : SymbolSet} {x z : Symbol} : z ∈ s.insert x ↔ z = x ∨ z ∈ s :=
  mem_place

@[simp] theorem mem_insertAll {s : SymbolSet} {xs : List Symbol} {z : Symbol} :
    z ∈ s.insertAll xs ↔ z ∈ s ∨ z ∈ xs := by
  induction xs generalizing s with
  | nil => simp [insertAll]
  | cons x xs ih =>
    have h : s.insertAll (x :: xs) = (s.insert x).insertAll xs := rfl
    rw [h, ih, mem_insert, List.mem_cons]
    exact ⟨fun h => h.elim (fun h => h.elim (.inr ∘ .inl) .inl) (.inr ∘ .inr),
      fun h => h.elim (.inl ∘ .inr) fun h => h.elim (.inl ∘ .inl) .inr⟩

@[simp] theorem mem_union {s t : SymbolSet} {z : Symbol} : z ∈ s.union t ↔ z ∈ s ∨ z ∈ t :=
  mem_insertAll

@[simp] theorem mem_ofList {xs : List Symbol} {z : Symbol} : z ∈ ofList xs ↔ z ∈ xs := by
  simp [ofList]

@[simp] theorem mem_erase {s : SymbolSet} {x z : Symbol} : z ∈ s.erase x ↔ z ∈ s ∧ z ≠ x := by
  show z ∈ s.toList.filter (· ≠ x) ↔ _
  rw [List.mem_filter]
  simp [Membership.mem]

/-- Sets with the same members are equal. -/
theorem ext_mem {s t : SymbolSet} (h : ∀ x, x ∈ s ↔ x ∈ t) : s = t := by
  obtain ⟨l, hl⟩ := s
  obtain ⟨m, hm⟩ := t
  replace h : ∀ x, x ∈ l ↔ x ∈ m := h
  congr
  induction l generalizing m with
  | nil =>
    cases m with
    | nil => rfl
    | cons y ys => exact absurd ((h y).2 (List.mem_cons_self)) (List.not_mem_nil)
  | cons x xs ih =>
    cases m with
    | nil => exact absurd ((h x).1 (List.mem_cons_self)) (List.not_mem_nil)
    | cons y ys =>
      rw [List.pairwise_cons] at hl hm
      have hxy : x = y := by
        rcases List.mem_cons.1 ((h x).1 (List.mem_cons_self)) with e | hx
        · exact e
        · rcases List.mem_cons.1 ((h y).2 (List.mem_cons_self)) with e | hy
          · exact e.symm
          · exact absurd (String.lt_trans (hl.1 y hy) (hm.1 x hx)) (String.lt_irrefl x)
      subst hxy
      congr 1
      refine ih hl.2 ys hm.2 (fun z => ⟨fun hz => ?_, fun hz => ?_⟩)
      · rcases List.mem_cons.1 ((h z).1 (List.mem_cons_of_mem _ hz)) with e | hz'
        · exact absurd (e ▸ hl.1 z hz) (String.lt_irrefl _)
        · exact hz'
      · rcases List.mem_cons.1 ((h z).2 (List.mem_cons_of_mem _ hz)) with e | hz'
        · exact absurd (e ▸ hm.1 z hz) (String.lt_irrefl _)
        · exact hz'

end SymbolSet

end Lalr
