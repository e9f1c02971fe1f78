import Lalr.Pattern.CharClass
import Mathlib.Data.List.Basic
import Mathlib.Tactic.ByContra

/-!
# Lalr.Proofs.Pattern.CharClass

A class of characters is void exactly if it covers no character (`CharClass.isVoid_iff`).  The test
works on ranges of code points: those of a class are the code points that it covers
(`CharClass.contains_iff_covers`), and a range is void if no character lies in it, which the
surrogates make a little more than a comparison of its ends.
-/

namespace Lalr.Pattern

variable {c : Char} {n start : Nat} {ranges : List (Nat × Nat)} {k : CharClass} {item : ClassItem}

/-- A code point lies in one of some ranges. -/
def Covers (ranges : List (Nat × Nat)) (n : Nat) : Prop := ∃ r ∈ ranges, r.1 ≤ n ∧ n ≤ r.2

theorem covers_cons_iff {r : Nat × Nat} :
    Covers (r :: ranges) n ↔ (r.1 ≤ n ∧ n ≤ r.2) ∨ Covers ranges n := by
  simp [Covers]

theorem covers_flatMap_iff {α : Type} {xs : List α} {f : α → List (Nat × Nat)} :
    Covers (xs.flatMap f) n ↔ ∃ x ∈ xs, Covers (f x) n := by
  simp only [Covers, List.mem_flatMap]
  exact ⟨fun ⟨r, ⟨x, hx, hr⟩, hn⟩ => ⟨x, hx, r, hr, hn⟩, fun ⟨x, hx, r, hr, hn⟩ => ⟨r, ⟨x, hx, hr⟩, hn⟩⟩

theorem within_iff_covers : Text.within ranges c = true ↔ Covers ranges c.toNat := by
  simp [Text.within, Covers]

/-! ## characters and code points -/

theorem toNat_le (c : Char) : c.toNat ≤ 0x10ffff := by
  have hvalid : c.toNat < 0xd800 ∨ 0xdfff < c.toNat ∧ c.toNat < 0x110000 := c.valid
  omega

/-- A code point is that of a character unless it is a surrogate or too large. -/
theorem exists_toNat_eq (h : n < 0xd800 ∨ 0xdfff < n ∧ n ≤ 0x10ffff) : ∃ c : Char, c.toNat = n := by
  have hvalid : n.isValidChar := h.imp id fun h => ⟨h.1, Nat.lt_succ_of_le h.2⟩
  refine ⟨Char.ofNatAux n hvalid, ?_⟩
  rfl

namespace CharClass

/-- A range is void if no character lies in it. -/
theorem isVoidRange_iff {r : Nat × Nat} :
    isVoidRange r = true ↔ ∀ c : Char, ¬ (r.1 ≤ c.toNat ∧ c.toNat ≤ r.2) := by
  obtain ⟨lo, hi⟩ := r
  simp only [isVoidRange, Bool.or_eq_true, Bool.and_eq_true, decide_eq_true_eq]
  constructor
  · intro h c
    have hvalid : c.toNat < 0xd800 ∨ 0xdfff < c.toNat ∧ c.toNat < 0x110000 := c.valid
    omega
  · intro h
    -- The smallest code point of the range that is no surrogate would be that of a character.
    by_contra hne
    have hleast : ∃ n, (n < 0xd800 ∨ 0xdfff < n ∧ n ≤ 0x10ffff) ∧ lo ≤ n ∧ n ≤ hi := by
      by_cases hlo : 0xd800 ≤ lo ∧ lo ≤ 0xdfff
      · exact ⟨0xe000, by omega⟩
      · exact ⟨lo, by omega⟩
    obtain ⟨n, hvalid, hn⟩ := hleast
    obtain ⟨c, rfl⟩ := exists_toNat_eq hvalid
    exact h c hn

/-! ## complements -/

/-- The gaps between ascending ranges are what lies outside all of them. -/
theorem covers_gaps_iff (hn : n ≤ 0x10ffff) (hsorted : ranges.Pairwise fun a b => a.1 ≤ b.1) :
    Covers (gaps start ranges) n ↔ start ≤ n ∧ ¬ Covers ranges n := by
  induction ranges generalizing start with
  | nil =>
      simp only [gaps, Covers]
      split <;> simp <;> omega
  | cons r rest ih =>
      obtain ⟨lo, hi⟩ := r
      obtain ⟨hlo, hrest⟩ := List.pairwise_cons.1 hsorted
      rw [covers_cons_iff, gaps]
      by_cases hcovers : Covers rest n
      · -- The later ranges begin no lower than the first one.
        obtain ⟨r, hr, hle, -⟩ := id hcovers
        have : lo ≤ r.1 := hlo r hr
        split
        · simp only [covers_cons_iff, ih hrest, hcovers, not_true_eq_false, and_false, or_true,
            or_false, iff_false]
          omega
        · simp only [ih hrest, hcovers, not_true_eq_false, and_false, or_true]
      · split
        · simp only [covers_cons_iff, ih hrest, hcovers, not_false_eq_true, and_true, or_false]
          omega
        · simp only [ih hrest, hcovers, not_false_eq_true, and_true, or_false]
          omega

theorem covers_complement_iff (hn : n ≤ 0x10ffff) :
    Covers (complement ranges) n ↔ ¬ Covers ranges n := by
  have hsorted : (ranges.mergeSort fun a b => decide (a.1 ≤ b.1)).Pairwise
      fun a b => decide (a.1 ≤ b.1) = true :=
    List.pairwise_mergeSort (fun a b c hab hbc => by simp only [decide_eq_true_eq] at *; omega)
      (fun a b => by simp only [Bool.or_eq_true, decide_eq_true_eq]; omega) ranges
  rw [complement, covers_gaps_iff hn (hsorted.imp fun h => of_decide_eq_true h)]
  simp [Covers, List.mem_mergeSort]

theorem covers_signed_iff {positive : Bool} (hn : n ≤ 0x10ffff) :
    Covers (signed positive ranges) n ↔ (positive = true ↔ Covers ranges n) := by
  cases positive with
  | true => simp [signed]
  | false => simp [signed, covers_complement_iff hn]

/-! ## members and classes -/

theorem within_eq_iff {positive : Bool} :
    (Text.within ranges c == positive) = true ↔ Covers (signed positive ranges) c.toNat := by
  rw [covers_signed_iff (toNat_le c), ← within_iff_covers, beq_iff_eq]
  cases positive <;> simp

theorem contains_item_iff : item.contains c = true ↔ Covers (itemRanges item) c.toNat := by
  cases item with
  | range lo hi => simp [ClassItem.contains, itemRanges, Covers]
  | digit positive => exact within_eq_iff
  | space positive => exact within_eq_iff
  | word positive => exact within_eq_iff

/-- The ranges of a class hold the characters that it covers. -/
theorem contains_iff_covers : k.contains c = true ↔ Covers k.ranges c.toNat := by
  have hany : k.items.any (·.contains c) = true ↔ Covers (k.items.flatMap itemRanges) c.toNat := by
    simp only [List.any_eq_true, contains_item_iff, covers_flatMap_iff]
  rw [ranges, covers_signed_iff (toNat_le c), ← hany, contains]
  cases k.negated <;> cases k.items.any (·.contains c) <;> decide

/-- A class is void if it covers no character. -/
theorem isVoid_iff : k.isVoid = true ↔ ∀ c, k.contains c = false := by
  simp only [isVoid, List.all_eq_true, isVoidRange_iff, ← Bool.not_eq_true, contains_iff_covers]
  exact ⟨fun h c ⟨r, hr, hc⟩ => h r hr c hc, fun h r hr c hc => h c ⟨r, hr, hc⟩⟩

end CharClass

end Lalr.Pattern
