import Lalr.Proofs.Pattern.Residual

/-!
# Lalr.Proofs.Pattern.Forms

The languages of some forms of patterns: one character, runs of characters of a class, pieces between
two characters, and a text itself.
-/

namespace Lalr.Pattern

variable {u : List Char} {c d : Char}

theorem contains_single_iff : (ClassItem.single d.toNat).contains c = true ↔ c = d := by
  simp only [ClassItem.single, ClassItem.contains, Bool.and_eq_true, decide_eq_true_eq]
  constructor
  · rintro ⟨hle, hge⟩
    rw [← Char.ofNat_toNat c, ← Char.ofNat_toNat d, Nat.le_antisymm hge hle]
  · rintro rfl
    exact ⟨Nat.le_refl _, Nat.le_refl _⟩

/-- The member that covers the characters from one to another. -/
def ClassItem.between (c d : Char) : ClassItem := .range c.toNat d.toNat

theorem contains_between_iff {a b : Char} : (ClassItem.between a b).contains c = true ↔ a ≤ c ∧ c ≤ b := by
  simp only [ClassItem.between, ClassItem.contains, Bool.and_eq_true, decide_eq_true_eq]
  exact Iff.rfl

/-- The pattern of a character. -/
def single (c : Char) : Pattern := .chars (.single c.toNat)

/-- The class of some characters, or of all others. -/
def listed (negated : Bool) (cs : List Char) : CharClass := ⟨negated, cs.map fun c => .single c.toNat⟩

theorem contains_listed {negated : Bool} {cs : List Char} :
    (listed negated cs).contains c = (cs.contains c != negated) := by
  have hany : (cs.map fun d => ClassItem.single d.toNat).any (·.contains c) = cs.contains c := by
    rw [Bool.eq_iff_iff, List.any_map, List.any_eq_true, List.contains_iff_mem]
    simp only [Function.comp, contains_single_iff]
    exact ⟨fun ⟨d, hd, hc⟩ => hc ▸ hd, fun hc => ⟨c, hc, rfl⟩⟩
  rw [listed, CharClass.contains, hany]

theorem matches_single_iff : (single c).Matches u ↔ u = [c] := by
  have hcontains (d : Char) : (CharClass.single c.toNat).contains d = true ↔ d = c := by
    simp [CharClass.single, CharClass.contains, contains_single_iff]
  simp [single, matches_chars_iff, hcontains]

theorem matches_noneOf_iff {cs : List Char} :
    Matches (.chars (listed true cs)) u ↔ ∃ c, c ∉ cs ∧ u = [c] := by
  simp [matches_chars_iff, contains_listed]

/-- A repetition of single characters. -/
theorem matches_rep_chars_iff {k : CharClass} {n : Nat} :
    Matches (.rep (.chars k) n none) u ↔ n ≤ u.length ∧ ∀ c ∈ u, k.contains c = true := by
  rw [matches_rep_iff]
  constructor
  · rintro ⟨us, hus, hn, -, rfl⟩
    have hsingle : ∀ v ∈ us, ∃ c, k.contains c = true ∧ v = [c] := fun v hv =>
      matches_chars_iff.1 (hus v hv)
    have hlength : us.flatten.length = us.length := by
      rw [List.length_flatten, List.map_congr_left (g := fun _ => 1)]
      · simp
      · intro v hv
        obtain ⟨c, -, rfl⟩ := hsingle v hv
        rfl
    refine ⟨hlength ▸ hn, fun c hc => ?_⟩
    obtain ⟨v, hv, hcv⟩ := List.mem_flatten.1 hc
    obtain ⟨d, hd, rfl⟩ := hsingle v hv
    rwa [List.mem_singleton.1 hcv]
  · rintro ⟨hn, hall⟩
    refine ⟨u.map fun c => [c], ?_, by simpa using hn, nofun, List.flatMap_singleton' u⟩
    intro v hv
    obtain ⟨c, hc, rfl⟩ := List.mem_map.1 hv
    exact .chars (hall c hc)

/-- The pattern of some pieces between two characters. -/
def enclosed (a b : Char) (piece : Pattern) : Pattern :=
  .seq (.seq (single a) (.rep piece 0 none)) (single b)

theorem matches_enclosed_iff {a b : Char} {piece : Pattern} : (enclosed a b piece).Matches u ↔
    ∃ pieces : List (List Char), (∀ p ∈ pieces, piece.Matches p) ∧
      u = a :: (pieces.flatten ++ [b]) := by
  simp only [enclosed, matches_seq_iff, matches_single_iff, matches_rep_iff]
  constructor
  · rintro ⟨_, _, ⟨_, _, rfl, ⟨pieces, hpieces, -, -, rfl⟩, rfl⟩, rfl, rfl⟩
    exact ⟨pieces, hpieces, rfl⟩
  · rintro ⟨pieces, hpieces, rfl⟩
    exact ⟨_, _, ⟨_, _, rfl, ⟨pieces, hpieces, Nat.zero_le _, nofun, rfl⟩, rfl⟩, rfl, rfl⟩

/-- The pattern of a text. -/
def verbatim : List Char → Pattern
  | [] => .empty
  | c :: cs => cs.foldl (fun p d => .seq p (single d)) (single c)

theorem matches_verbatim_iff {cs : List Char} : (verbatim cs).Matches u ↔ u = cs := by
  have hfold (p : Pattern) (v ds : List Char) (hp : ∀ w, p.Matches w ↔ w = v) (w : List Char) :
      (ds.foldl (fun p d => .seq p (single d)) p).Matches w ↔ w = v ++ ds := by
    induction ds generalizing p v with
    | nil => rw [List.append_nil]; exact hp w
    | cons d ds ih =>
        have hnext (w : List Char) : Matches (.seq p (single d)) w ↔ w = v ++ [d] := by
          simp only [matches_seq_iff, hp, matches_single_iff]
          exact ⟨fun ⟨_, _, hv, hd, hw⟩ => by rw [← hw, hv, hd], fun hw => ⟨v, [d], rfl, rfl, hw.symm⟩⟩
        rw [List.foldl_cons, ih _ _ hnext, List.append_assoc, List.singleton_append]
  cases cs with
  | nil => exact matches_empty_iff
  | cons c cs => exact hfold (single c) [c] cs (fun w => matches_single_iff) u

end Lalr.Pattern
