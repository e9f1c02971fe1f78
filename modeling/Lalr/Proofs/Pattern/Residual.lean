import Lalr.Pattern.Residual
import Mathlib.Data.List.Basic

/-!
# Lalr.Proofs.Pattern.Residual

Residuals decide matching.  After a character, the text goes on with a match of a residual exactly
if the character and the text match the pattern (`exists_residual_iff`), and so after any text
(`Residue.admits_run_iff`).  What follows is that full matching is membership in the language of the
pattern (`fullMatch_iff`).
-/

namespace Lalr.Pattern

variable {a b p body : Pattern} {c : Char} {u v : List Char} {k : CharClass} {least : Nat}
  {most : Option Nat} {r : Residue} {ps : List Pattern}

/-! ## the language, constructor by constructor -/

theorem matches_empty_iff : Matches .empty u ↔ u = [] :=
  ⟨fun h => by cases h; rfl, fun h => h ▸ .empty⟩

theorem matches_chars_iff : Matches (.chars k) u ↔ ∃ c, k.contains c = true ∧ u = [c] :=
  ⟨fun h => by cases h with | chars h => exact ⟨_, h, rfl⟩, fun ⟨_, h, hu⟩ => hu ▸ .chars h⟩

theorem matches_seq_iff :
    Matches (.seq a b) u ↔ ∃ v w, a.Matches v ∧ b.Matches w ∧ v ++ w = u :=
  ⟨fun h => by cases h with | seq ha hb => exact ⟨_, _, ha, hb, rfl⟩,
    fun ⟨_, _, ha, hb, hu⟩ => hu ▸ .seq ha hb⟩

theorem matches_alt_iff : Matches (.alt a b) u ↔ a.Matches u ∨ b.Matches u :=
  ⟨fun h => by cases h with | altLeft h => exact .inl h | altRight h => exact .inr h,
    fun h => h.elim .altLeft .altRight⟩

theorem matches_rep_iff : Matches (.rep body least most) u ↔
    ∃ us : List (List Char), (∀ v ∈ us, body.Matches v) ∧ least ≤ us.length ∧
      (∀ n, most = some n → us.length ≤ n) ∧ us.flatten = u :=
  ⟨fun h => by cases h with | rep h hl hm => exact ⟨_, h, hl, hm, rfl⟩,
    fun ⟨_, h, hl, hm, hu⟩ => hu ▸ .rep h hl hm⟩

theorem matches_followedBy_iff : (a.followedBy b).Matches u ↔ Matches (.seq a b) u := by
  rw [matches_seq_iff, followedBy]
  split
  · next ha => simp [ha, matches_empty_iff]
  · split
    · next hb => simp [hb, matches_empty_iff]
    · exact matches_seq_iff

/-- An alternation of no patterns matches the empty text, any other what one of its patterns does. -/
theorem matches_anyOf_iff : (anyOf ps).Matches u ↔ (∃ p ∈ ps, p.Matches u) ∨ ps = [] ∧ u = [] := by
  induction ps using anyOf.induct with
  | case1 => simp [anyOf, matches_empty_iff]
  | case2 p => simp [anyOf]
  | case3 p ps hne ih =>
      have hps : ps ≠ [] := fun h => hne h
      simp [anyOf, matches_alt_iff, ih, hps]

/-! ## the empty text -/

/-- A pattern is nullable if it matches the empty text. -/
theorem nullable_iff : p.nullable = true ↔ p.Matches [] := by
  induction p with
  | empty => simp [nullable, matches_empty_iff]
  | chars k => simp [nullable, matches_chars_iff]
  | seq a b iha ihb => simp [nullable, iha, ihb, matches_seq_iff]
  | alt a b iha ihb => simp [nullable, iha, ihb, matches_alt_iff]
  | rep body least most ih =>
      simp only [nullable, Bool.and_eq_true, Bool.or_eq_true, beq_iff_eq, ih, matches_rep_iff,
        List.flatten_eq_nil_iff]
      constructor
      · rintro ⟨hm, hbody⟩
        refine ⟨List.replicate least [], ?_, by simp, ?_, by simp⟩
        · rintro v hv
          obtain ⟨hpos, rfl⟩ := List.mem_replicate.1 hv
          exact hbody.resolve_left hpos
        · rintro n rfl
          simpa using hm
      · rintro ⟨us, hbody, hl, hm, hus⟩
        refine ⟨?_, ?_⟩
        · cases most with
          | none => rfl
          | some n => simpa using Nat.le_trans hl (hm n rfl)
        · rw [or_iff_not_imp_left]
          intro hpos
          obtain ⟨v, hv⟩ := List.exists_mem_of_length_pos (l := us) (by omega)
          exact hus v hv ▸ hbody v hv

/-! ## residuals -/

/-- A repetition begins with a character if one of its rounds does.  The rounds before that one are
empty, so they may as well come after it. -/
theorem matches_rep_cons_iff : Matches (.rep body least most) (c :: u) ↔
    (∀ n, most = some n → n ≠ 0 ∧ least ≤ n) ∧ ∃ v w, body.Matches (c :: v) ∧
      Matches (.rep body (least - 1) (most.map (· - 1))) w ∧ v ++ w = u := by
  constructor
  · intro h
    obtain ⟨us, hus, hl, hm, hflat⟩ := matches_rep_iff.1 h
    obtain ⟨vs, v, ws, rfl, hempty, rfl⟩ := List.flatten_eq_cons_iff.1 hflat
    have hlen : (vs ++ (c :: v) :: ws).length = (vs ++ ws).length + 1 := by simp; omega
    have hnil : vs.flatten = [] := List.flatten_eq_nil_iff.2 hempty
    refine ⟨fun n hn => ?_, v, ws.flatten, hus _ (by simp), matches_rep_iff.2 ⟨vs ++ ws, ?_, ?_, ?_, ?_⟩,
      rfl⟩
    · have := hm n hn
      omega
    · intro w hw
      exact hus w (by simp only [List.mem_append, List.mem_cons] at hw ⊢; tauto)
    · omega
    · intro n hn
      obtain ⟨m, hm', rfl⟩ := Option.map_eq_some_iff.1 hn
      have := hm m hm'
      omega
    · rw [List.flatten_append, hnil, List.nil_append]
  · rintro ⟨hbounds, v, w, hv, hw, rfl⟩
    obtain ⟨us, hus, hl, hm, rfl⟩ := matches_rep_iff.1 hw
    refine matches_rep_iff.2 ⟨(c :: v) :: us, ?_, ?_, ?_, by simp⟩
    · intro w hw
      rcases List.mem_cons.1 hw with rfl | hw
      · exact hv
      · exact hus w hw
    · simp only [List.length_cons]
      omega
    · intro n hn
      have := hbounds n hn
      have := hm (n - 1) (by simp [hn])
      simp only [List.length_cons]
      omega

/-- A sequence begins with a character if its first part does, or if that is empty and its second part
does. -/
theorem matches_seq_cons_iff : Matches (.seq a b) (c :: u) ↔
    (∃ v w, a.Matches (c :: v) ∧ b.Matches w ∧ v ++ w = u) ∨ a.Matches [] ∧ b.Matches (c :: u) := by
  rw [matches_seq_iff]
  constructor
  · rintro ⟨v, w, ha, hb, happ⟩
    rcases List.append_eq_cons_iff.1 happ with ⟨rfl, rfl⟩ | ⟨v', rfl, rfl⟩
    · exact .inr ⟨ha, hb⟩
    · exact .inl ⟨v', w, ha, hb, rfl⟩
  · rintro (⟨v, w, ha, hb, rfl⟩ | ⟨ha, hb⟩)
    · exact ⟨c :: v, w, ha, hb, rfl⟩
    · exact ⟨[], c :: u, ha, hb, rfl⟩

theorem exists_map_followedBy_iff : (∃ q ∈ ps.map (·.followedBy b), q.Matches u) ↔
    ∃ v w, (∃ q ∈ ps, q.Matches v) ∧ b.Matches w ∧ v ++ w = u := by
  constructor
  · rintro ⟨q', hq', hu⟩
    obtain ⟨q, hq, rfl⟩ := List.mem_map.1 hq'
    obtain ⟨v, w, hv, hw, hvw⟩ := matches_seq_iff.1 (matches_followedBy_iff.1 hu)
    exact ⟨v, w, ⟨q, hq, hv⟩, hw, hvw⟩
  · rintro ⟨v, w, ⟨q, hq, hv⟩, hw, rfl⟩
    exact ⟨q.followedBy b, List.mem_map_of_mem hq, matches_followedBy_iff.2 (.seq hv hw)⟩

/-- After a character, a text goes on with a match of a residual. -/
theorem exists_residual_iff : (∃ q ∈ residuals c p, q.Matches u) ↔ p.Matches (c :: u) := by
  induction p generalizing u with
  | empty => simp [residuals, matches_empty_iff]
  | chars k =>
      rw [matches_chars_iff, residuals]
      by_cases h : k.contains c = true <;> simp [h, matches_empty_iff]
  | seq a b iha ihb =>
      have hfirst : (∃ q ∈ (residuals c a).map (·.followedBy b), q.Matches u) ↔
          ∃ v w, a.Matches (c :: v) ∧ b.Matches w ∧ v ++ w = u := by
        simp only [exists_map_followedBy_iff, iha]
      rw [matches_seq_cons_iff, residuals, ← nullable_iff, ← ihb, ← hfirst]
      by_cases h : a.nullable = true <;> simp [h, or_and_right, exists_or]
  | alt a b iha ihb =>
      simp only [residuals, List.mem_append, or_and_right, exists_or, iha, ihb, matches_alt_iff]
  | rep body least most ih =>
      have hbounds : most.any (fun n => n = 0 ∨ n < least) = true ↔
          ¬ ∀ n, most = some n → n ≠ 0 ∧ least ≤ n := by
        cases most <;> simp
        omega
      rw [matches_rep_cons_iff, residuals]
      split
      · next h => simp [hbounds.1 h]
      · next h =>
          have hall := not_not.1 (mt hbounds.2 h)
          simp only [exists_map_followedBy_iff, ih]
          exact (and_iff_right hall).symm

/-! ## residues -/

namespace Residue

/-- A text is one of the ways to go on. -/
def Admits (r : Residue) (u : List Char) : Prop := ∃ p ∈ r.patterns, p.Matches u

theorem admits_step_iff : (r.step c).Admits u ↔ r.Admits (c :: u) := by
  simp only [Admits, step, List.mem_eraseDups, List.mem_flatMap, ← exists_residual_iff]
  exact ⟨fun ⟨q, ⟨p, hp, hq⟩, hu⟩ => ⟨p, hp, q, hq, hu⟩, fun ⟨p, hp, q, hq, hu⟩ => ⟨q, ⟨p, hp, hq⟩, hu⟩⟩

/-- What may come after a text goes on from it. -/
theorem admits_run_iff : (r.run v).Admits u ↔ r.Admits (v ++ u) := by
  induction v generalizing r with
  | nil => rfl
  | cons c v ih => exact ih.trans admits_step_iff

theorem accepts_iff : r.accepts = true ↔ r.Admits [] := by
  simp [accepts, Admits, nullable_iff]

@[simp] theorem admits_ofPattern_iff : (ofPattern p).Admits u ↔ p.Matches u := by
  simp [ofPattern, Admits]

end Residue

/-- Full matching is membership in the language of the pattern. -/
theorem fullMatch_iff : p.fullMatch u = true ↔ p.Matches u := by
  rw [fullMatch, Residue.accepts_iff, Residue.admits_run_iff, List.append_nil,
    Residue.admits_ofPattern_iff]

end Lalr.Pattern
