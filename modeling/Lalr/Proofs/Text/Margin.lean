import Lalr.Text.Lines

/-!
# Lalr.Proofs.Text.Margin

What stripping and dedenting take off a text.  Stripping takes characters off its ends
(`exists_trim_eq`); dedenting takes a margin off each of its lines (`exists_dedent_eq`), which a text
is joined from (`joinNewlines_splitNewlines`).
-/

namespace Lalr.Text

variable {l : List Char} {ls : List (List Char)}

/-! ## ends -/

/-- What is dropped at the end of a text. -/
theorem exists_dropEndWhile_eq (p : Char → Bool) (cs : List Char) :
    ∃ ending, (∀ c ∈ ending, p c = true) ∧ cs = dropEndWhile p cs ++ ending := by
  refine ⟨(cs.reverse.takeWhile p).reverse, fun c hc => ?_, ?_⟩
  · exact List.all_eq_true.1 List.all_takeWhile c (List.mem_reverse.1 hc)
  · rw [dropEndWhile, ← List.reverse_append, List.takeWhile_append_dropWhile, List.reverse_reverse]

/-- What is dropped at the ends of a text. -/
theorem exists_trim_eq (p : Char → Bool) (cs : List Char) :
    ∃ front ending, (∀ c ∈ front, p c = true) ∧ (∀ c ∈ ending, p c = true) ∧
      cs = front ++ (trim p cs ++ ending) := by
  obtain ⟨ending, hending, heq⟩ := exists_dropEndWhile_eq p (cs.dropWhile p)
  refine ⟨cs.takeWhile p, ending, List.all_eq_true.1 List.all_takeWhile, hending, ?_⟩
  rw [trim, ← heq, List.takeWhile_append_dropWhile]

theorem getLast?_trim {p : Char → Bool} {cs : List Char} {c : Char} (h : (trim p cs).getLast? = some c) :
    p c = false := by
  rw [trim, dropEndWhile, List.getLast?_reverse] at h
  have := List.head?_dropWhile_not p (cs.dropWhile p).reverse
  rw [h] at this
  simpa using this

/-! ## lines -/

theorem joinNewlines_cons (l : List Char) (h : ls ≠ []) :
    joinNewlines (l :: ls) = l ++ '\n' :: joinNewlines ls := by
  obtain ⟨l', ls, rfl⟩ := List.exists_cons_of_ne_nil h
  simp [joinNewlines, List.intercalate_cons_cons]

theorem splitFrom_ne_nil (line cs : List Char) : splitFrom line cs ≠ [] := by
  fun_induction splitFrom line cs <;> simp_all

theorem joinNewlines_splitFrom (line cs : List Char) :
    joinNewlines (splitFrom line cs) = line.reverse ++ cs := by
  fun_induction splitFrom line cs with
  | case1 line => simp [joinNewlines]
  | case2 line rest ih => rw [joinNewlines_cons _ (splitFrom_ne_nil [] rest), ih, List.reverse_nil,
      List.nil_append]
  | case3 line c rest hc ih => rw [ih, List.reverse_cons, List.append_assoc, List.singleton_append]

/-- A text is joined from its lines. -/
theorem joinNewlines_splitNewlines (cs : List Char) : joinNewlines (splitNewlines cs) = cs :=
  joinNewlines_splitFrom [] cs

/-! ## margins -/

theorem commonStart_prefix (as bs : List Char) : commonStart as bs <+: as ∧ commonStart as bs <+: bs := by
  fun_induction commonStart as bs with
  | case1 a as bs ih => exact ⟨List.cons_prefix_cons.2 ⟨rfl, ih.1⟩, List.cons_prefix_cons.2 ⟨rfl, ih.2⟩⟩
  | case2 => exact ⟨List.nil_prefix, List.nil_prefix⟩
  | case3 => exact ⟨List.nil_prefix, List.nil_prefix⟩

theorem foldl_commonStart_prefix (m : List Char) (ls : List (List Char)) :
    (ls.foldl (fun m l => commonStart m (l.takeWhile isMargin)) m) <+: m ∧
      ∀ l ∈ ls, (ls.foldl (fun m l => commonStart m (l.takeWhile isMargin)) m) <+:
        l.takeWhile isMargin := by
  induction ls generalizing m with
  | nil => exact ⟨List.prefix_refl m, fun l hl => absurd hl List.not_mem_nil⟩
  | cons l ls ih =>
      obtain ⟨hleft, hright⟩ := commonStart_prefix m (l.takeWhile isMargin)
      obtain ⟨hstart, hall⟩ := ih (commonStart m (l.takeWhile isMargin))
      exact ⟨hstart.trans hleft, List.forall_mem_cons.2 ⟨hstart.trans hright, hall⟩⟩

/-- The common margin begins the margin of every line. -/
theorem commonMargin_prefix (h : l ∈ ls) : commonMargin ls <+: l.takeWhile isMargin := by
  cases ls with
  | nil => cases h
  | cons l' ls =>
      obtain ⟨hstart, hall⟩ := foldl_commonStart_prefix (l'.takeWhile isMargin) ls
      rcases List.mem_cons.1 h with rfl | h
      · exact hstart
      · exact hall l h

/-- What the common margin takes off one of the lines is a margin. -/
theorem isMargin_of_mem_take {c : Char} (h : l ∈ ls) (hc : c ∈ l.take (commonMargin ls).length) :
    isMargin c = true := by
  have hcommon := commonMargin_prefix h
  have hl := List.prefix_iff_eq_take.1 (hcommon.trans (List.takeWhile_prefix isMargin))
  rw [← hl] at hc
  exact List.all_eq_true.1 List.all_takeWhile c (hcommon.subset hc)

/-- Dedenting takes a margin off each line. -/
theorem exists_dedent_eq (cs : List Char) : ∃ f : List Char → List Char,
    dedent cs = joinNewlines ((splitNewlines cs).map f) ∧
      ∀ l ∈ splitNewlines cs, ∃ blanks, (∀ c ∈ blanks, isMargin c = true) ∧ l = blanks ++ f l := by
  let emptied (l : List Char) : List Char := if l.all isMargin then [] else l
  let pieces := ((splitNewlines cs).map emptied).filter (!·.isEmpty)
  refine ⟨fun l => (emptied l).drop (commonMargin pieces).length, ?_, fun l hl => ?_⟩
  · rw [dedent, List.map_map]
    rfl
  · by_cases hblank : l.all isMargin
    · have hemptied : emptied l = [] := if_pos hblank
      exact ⟨l, List.all_eq_true.1 hblank, by simp [hemptied]⟩
    · have hemptied : emptied l = l := if_neg hblank
      have hmem : l ∈ pieces := by
        refine List.mem_filter.2 ⟨List.mem_map.2 ⟨l, hl, hemptied⟩, ?_⟩
        cases l with
        | nil => exact absurd rfl hblank
        | cons c l => rfl
      refine ⟨l.take (commonMargin pieces).length, fun c hc => isMargin_of_mem_take hmem hc, ?_⟩
      simp [hemptied]

end Lalr.Text
