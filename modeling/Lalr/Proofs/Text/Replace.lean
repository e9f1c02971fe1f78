import Lalr.Proofs.Text.Lines
import Lalr.Text.Replace

/-!
# Lalr.Proofs.Text.Replace

Replacing a text inside another.  A character that does not occur inside the text to be replaced, but at
most begins it, cuts its occurrences apart (`replaceChars_append_cons`, `countChars_append_cons`).  So a
text with one such beginning can be replaced and replaced back, and a replacement within lines is one in
each line (`lines_replaceChars`).
-/

namespace Lalr.Text

variable {old new cs as bs : List Char} {c : Char}

/-! ## one occurrence after the other -/

theorem replaceChars_nil (hne : old ≠ []) : replaceChars old new [] = [] := by
  cases old with
  | nil => exact absurd rfl hne
  | cons o os => rw [replaceChars, replaceFrom]

theorem replaceChars_self_append (hne : old ≠ []) (cs : List Char) :
    replaceChars old new (old ++ cs) = new ++ replaceChars old new cs := by
  cases old with
  | nil => exact absurd rfl hne
  | cons o os =>
      rw [List.cons_append, replaceChars, replaceFrom, if_pos, List.drop_left]
      · rfl
      · exact List.isPrefixOf_iff_prefix.2 (List.prefix_append (o :: os) cs)

theorem replaceChars_cons (hne : old ≠ []) (h : ¬ old <+: c :: cs) :
    replaceChars old new (c :: cs) = c :: replaceChars old new cs := by
  cases old with
  | nil => exact absurd rfl hne
  | cons o os =>
      rw [replaceChars, replaceFrom, if_neg (mt List.isPrefixOf_iff_prefix.1 h)]
      rfl

theorem countChars_nil (hne : old ≠ []) : countChars old [] = 0 := by
  cases old with
  | nil => exact absurd rfl hne
  | cons o os => rw [countChars, countFrom]

theorem countChars_self_append (hne : old ≠ []) (cs : List Char) :
    countChars old (old ++ cs) = 1 + countChars old cs := by
  cases old with
  | nil => exact absurd rfl hne
  | cons o os =>
      rw [List.cons_append, countChars, countFrom, if_pos, List.drop_left]
      · rfl
      · exact List.isPrefixOf_iff_prefix.2 (List.prefix_append (o :: os) cs)

theorem countChars_cons (hne : old ≠ []) (h : ¬ old <+: c :: cs) :
    countChars old (c :: cs) = countChars old cs := by
  cases old with
  | nil => exact absurd rfl hne
  | cons o os =>
      rw [countChars, countFrom, if_neg (mt List.isPrefixOf_iff_prefix.1 h)]
      rfl

/-- Going over a text from one occurrence of another text to the next. -/
theorem occurrences_induction {motive : List Char → Prop} (hne : old ≠ []) (hnil : motive [])
    (hoccurs : ∀ cs, motive cs → motive (old ++ cs))
    (hcons : ∀ c cs, ¬ old <+: c :: cs → motive cs → motive (c :: cs)) (cs : List Char) : motive cs := by
  induction hn : cs.length using Nat.strongRecOn generalizing cs with
  | ind n ih =>
      by_cases h : old <+: cs
      · obtain ⟨rest, rfl⟩ := h
        have hpos := List.length_pos_iff.2 hne
        exact hoccurs rest (ih _ (by rw [← hn, List.length_append]; omega) rest rfl)
      · cases cs with
        | nil => exact hnil
        | cons c cs => exact hcons c cs h (ih _ (by rw [← hn]; exact Nat.lt_succ_self _) cs rfl)

/-- A single character is replaced where it stands. -/
theorem replaceChars_singleton (c : Char) (new cs : List Char) :
    replaceChars [c] new cs = cs.flatMap fun d => if d = c then new else [d] := by
  have hne : [c] ≠ [] := List.cons_ne_nil c []
  induction cs with
  | nil => exact replaceChars_nil hne
  | cons d cs ih =>
      rw [List.flatMap_cons, ← ih]
      by_cases hd : d = c
      · rw [if_pos hd, hd, ← replaceChars_self_append hne, List.singleton_append]
      · have hnot : ¬ [c] <+: d :: cs := fun h => hd (List.cons_prefix_cons.1 h).1.symm
        rw [if_neg hd, replaceChars_cons hne hnot, List.singleton_append]

/-- Where a text does not occur, nothing is replaced. -/
theorem replaceChars_of_countChars (hne : old ≠ []) (h : countChars old cs = 0) :
    replaceChars old new cs = cs := by
  induction cs using occurrences_induction hne with
  | hnil => exact replaceChars_nil hne
  | hoccurs cs ih =>
      rw [countChars_self_append hne] at h
      omega
  | hcons c cs hnot ih =>
      rw [countChars_cons hne hnot] at h
      rw [replaceChars_cons hne hnot, ih h]

theorem countChars_of_not_occurs (hne : old ≠ []) (h : ¬ old <:+: cs) : countChars old cs = 0 := by
  induction cs using occurrences_induction hne with
  | hnil => exact countChars_nil hne
  | hoccurs cs ih => exact absurd (List.infix_append [] old cs) h
  | hcons c cs hnot ih =>
      rw [countChars_cons hne hnot]
      exact ih fun hoccurs => h (hoccurs.trans (List.suffix_cons c cs).isInfix)

theorem forall_mem_replaceChars {p : Char → Prop} (hne : old ≠ []) (hnew : ∀ c ∈ new, p c)
    (hcs : ∀ c ∈ cs, p c) : ∀ c ∈ replaceChars old new cs, p c := by
  induction cs using occurrences_induction hne with
  | hnil =>
      rw [replaceChars_nil hne]
      exact hcs
  | hoccurs cs ih =>
      rw [replaceChars_self_append hne]
      exact List.forall_mem_append.2 ⟨hnew, ih (List.forall_mem_append.1 hcs).2⟩
  | hcons c cs hnot ih =>
      rw [replaceChars_cons hne hnot]
      exact List.forall_mem_cons.2 ⟨(List.forall_mem_cons.1 hcs).1, ih (List.forall_mem_cons.1 hcs).2⟩

/-! ## characters between occurrences -/

/-- An occurrence does not reach over a character that can at most begin one. -/
theorem prefix_of_prefix_append_cons (hc : c ∉ old.tail) (has : as ≠ []) (h : old <+: as ++ c :: bs) :
    old <+: as := by
  obtain ⟨rest, hrest⟩ := h
  rcases List.append_eq_append_iff.1 hrest with ⟨z, hz, -⟩ | ⟨z, hz, hbs⟩
  · exact ⟨z, hz.symm⟩
  · cases z with
    | nil => exact ⟨[], by rw [hz, List.append_nil, List.append_nil]⟩
    | cons d z =>
        obtain rfl : c = d := (List.cons.inj hbs).1
        obtain ⟨a, as, rfl⟩ := List.exists_cons_of_ne_nil has
        exact absurd (hz ▸ List.mem_append_right as List.mem_cons_self) hc

theorem replaceChars_append_cons (hne : old ≠ []) (hc : c ∉ old.tail) (as bs : List Char) :
    replaceChars old new (as ++ c :: bs) = replaceChars old new as ++ replaceChars old new (c :: bs) := by
  induction as using occurrences_induction hne with
  | hnil => rw [replaceChars_nil hne, List.nil_append, List.nil_append]
  | hoccurs as ih =>
      rw [List.append_assoc, replaceChars_self_append hne, replaceChars_self_append hne, ih,
        List.append_assoc]
  | hcons a as hnot ih =>
      have hnot' : ¬ old <+: a :: (as ++ c :: bs) := fun h =>
        hnot (prefix_of_prefix_append_cons hc (List.cons_ne_nil a as) h)
      rw [List.cons_append, replaceChars_cons hne hnot', replaceChars_cons hne hnot, ih, List.cons_append]

theorem countChars_append_cons (hne : old ≠ []) (hc : c ∉ old.tail) (as bs : List Char) :
    countChars old (as ++ c :: bs) = countChars old as + countChars old (c :: bs) := by
  induction as using occurrences_induction hne with
  | hnil => rw [countChars_nil hne, List.nil_append, Nat.zero_add]
  | hoccurs as ih =>
      rw [List.append_assoc, countChars_self_append hne, countChars_self_append hne, ih, Nat.add_assoc]
  | hcons a as hnot ih =>
      have hnot' : ¬ old <+: a :: (as ++ c :: bs) := fun h =>
        hnot (prefix_of_prefix_append_cons hc (List.cons_ne_nil a as) h)
      rw [List.cons_append, countChars_cons hne hnot', countChars_cons hne hnot, ih]

/-- A character that does not occur in a text is kept where that text is replaced. -/
theorem replaceChars_append_kept (hne : old ≠ []) (hc : c ∉ old) (as bs : List Char) :
    replaceChars old new (as ++ c :: bs) = replaceChars old new as ++ c :: replaceChars old new bs := by
  have hnot : ¬ old <+: c :: bs := by
    rintro ⟨rest, hrest⟩
    obtain ⟨o, os, rfl⟩ := List.exists_cons_of_ne_nil hne
    exact hc ((List.cons.inj hrest).1 ▸ List.mem_cons_self)
  rw [replaceChars_append_cons hne (fun h => hc (List.mem_of_mem_tail h)), replaceChars_cons hne hnot]

/-- Replacing the only occurrence of a text. -/
theorem replaceChars_only (hne : old ≠ []) (htail : ∀ c, old.head? = some c → c ∉ old.tail)
    (has : countChars old as = 0) (hbs : countChars old bs = 0) :
    replaceChars old new (as ++ (old ++ bs)) = as ++ (new ++ bs) := by
  obtain ⟨o, os, rfl⟩ := List.exists_cons_of_ne_nil hne
  rw [List.cons_append, replaceChars_append_cons hne (htail o rfl), ← List.cons_append,
    replaceChars_self_append hne, replaceChars_of_countChars hne has, replaceChars_of_countChars hne hbs]

theorem countChars_append_self (hne : old ≠ []) (htail : ∀ c, old.head? = some c → c ∉ old.tail)
    (as bs : List Char) :
    countChars old (as ++ (old ++ bs)) = countChars old as + 1 + countChars old bs := by
  obtain ⟨o, os, rfl⟩ := List.exists_cons_of_ne_nil hne
  rw [List.cons_append, countChars_append_cons hne (htail o rfl), ← List.cons_append,
    countChars_self_append hne, Nat.add_assoc]

/-- Nothing is replaced at the front of a text in which no occurrence can begin. -/
theorem replaceChars_append_of_forall {o o' : Char} {os front : List Char}
    (h : ∀ n, front[n]? = some o → n + 1 < front.length ∧ front[n + 1]? ≠ some o')
    (rest : List Char) :
    replaceChars (o :: o' :: os) new (front ++ rest) = front ++ replaceChars (o :: o' :: os) new rest := by
  induction front with
  | nil => rfl
  | cons c front ih =>
      have hnot : ¬ o :: o' :: os <+: c :: (front ++ rest) := by
        rintro ⟨after, hafter⟩
        obtain ⟨rfl, htail⟩ := List.cons.inj hafter
        obtain ⟨hlt, hne⟩ := h 0 rfl
        cases front with
        | nil => simp at hlt
        | cons d front =>
            obtain ⟨rfl, -⟩ := List.cons.inj htail
            exact hne rfl
      rw [List.cons_append, replaceChars_cons (List.cons_ne_nil _ _) hnot,
        ih fun n hn => by simpa using h (n + 1) (by simpa using hn)]
      rfl

/-- What does not have the first character of the new text was there before. -/
theorem exists_of_replaceChars_eq_append {m : Char} {ms front rest : List Char} (hne : old ≠ [])
    (hfront : m ∉ front) (h : replaceChars old (m :: ms) cs = front ++ rest) :
    ∃ rest', cs = front ++ rest' ∧ replaceChars old (m :: ms) rest' = rest := by
  induction front generalizing cs with
  | nil => exact ⟨cs, rfl, h⟩
  | cons c front ih =>
      obtain ⟨hc, hrestFront⟩ : m ≠ c ∧ m ∉ front := by simpa [not_or] using hfront
      by_cases hoccurs : old <+: cs
      · obtain ⟨cs, rfl⟩ := hoccurs
        rw [replaceChars_self_append hne] at h
        exact absurd (List.cons.inj h).1 hc
      · cases cs with
        | nil =>
            rw [replaceChars_nil hne] at h
            cases h
        | cons d cs =>
            rw [replaceChars_cons hne hoccurs] at h
            obtain ⟨rfl, htail⟩ := List.cons.inj h
            obtain ⟨rest', rfl, hrest'⟩ := ih hrestFront htail
            exact ⟨rest', rfl, hrest'⟩

/-! ## replacing within lines -/

theorem replaceChars_ne_nil (hne : old ≠ []) (hnew : new ≠ []) (h : cs ≠ []) :
    replaceChars old new cs ≠ [] := by
  induction cs using occurrences_induction hne with
  | hnil => exact absurd rfl h
  | hoccurs cs ih =>
      rw [replaceChars_self_append hne]
      exact fun happend => hnew (List.append_eq_nil_iff.1 happend).1
  | hcons c cs hnot ih =>
      rw [replaceChars_cons hne hnot]
      exact List.cons_ne_nil _ _

theorem head?_replaceChars (hne : old ≠ []) (hnew : Plain new) (hnewNe : new ≠ []) {b : Char}
    (hb : isLineBoundary b = true) (h : (replaceChars old new cs).head? = some b) :
    cs.head? = some b := by
  induction cs using occurrences_induction hne with
  | hnil => rwa [replaceChars_nil hne] at h
  | hoccurs cs ih =>
      obtain ⟨d, new, rfl⟩ := List.exists_cons_of_ne_nil hnewNe
      rw [replaceChars_self_append hne] at h
      obtain rfl : d = b := Option.some.inj h
      rw [hnew d List.mem_cons_self] at hb
      contradiction
  | hcons c cs hnot ih => rwa [replaceChars_cons hne hnot] at h

section

variable {l : List Char} {ls : List (List Char)} (hne : old ≠ []) (hold : Plain old)

include hne hold

theorem replaceChars_boundary (hc : isLineBoundary c = true) (as bs : List Char) :
    replaceChars old new (as ++ c :: bs) = replaceChars old new as ++ c :: replaceChars old new bs :=
  replaceChars_append_kept hne (fun h => by simp [hold c h] at hc) as bs

theorem replaceChars_ending {ending : List Char} (h : IsEnding ending) (body : List Char) :
    replaceChars old new (body ++ ending) = replaceChars old new body ++ ending := by
  rcases h with rfl | ⟨c, hc, rfl⟩
  · have hnewline : replaceChars old new ([] ++ ['\n']) = ['\n'] := by
      rw [replaceChars_boundary hne hold (by decide), replaceChars_nil hne, List.nil_append]
    rw [replaceChars_boundary hne hold (by decide)]
    exact congrArg (replaceChars old new body ++ '\r' :: ·) hnewline
  · rw [replaceChars_boundary hne hold hc, replaceChars_nil hne]

/-- A replacement in front of a boundary does not reach over it. -/
theorem Complete.replaceChars_append (h : Complete l) (rest : List Char) :
    replaceChars old new (l ++ rest) = replaceChars old new l ++ replaceChars old new rest := by
  obtain ⟨c, hlast, hc⟩ := h.exists_boundary
  obtain ⟨as, rfl⟩ := List.getLast?_eq_some_iff.1 hlast
  rw [List.append_assoc, List.singleton_append, replaceChars_boundary hne hold hc,
    replaceChars_boundary hne hold hc, replaceChars_nil hne, List.append_assoc, List.singleton_append]

theorem Complete.replaceChars (hnew : Plain new) (h : Complete l) :
    Complete (Text.replaceChars old new l) := by
  obtain ⟨body, ending, hbody, hending, rfl⟩ := h
  rw [replaceChars_ending hne hold hending]
  exact ⟨_, ending, forall_mem_replaceChars hne hnew hbody, hending, rfl⟩

theorem Complete.getLast?_replaceChars (h : Complete l) :
    (Text.replaceChars old new l).getLast? = l.getLast? := by
  obtain ⟨c, hlast, hc⟩ := h.exists_boundary
  obtain ⟨as, rfl⟩ := List.getLast?_eq_some_iff.1 hlast
  rw [replaceChars_boundary hne hold hc, replaceChars_nil hne, List.getLast?_append, List.getLast?_append]
  rfl

theorem flatten_map_replaceChars (h : WellCut ls) :
    (ls.map (Text.replaceChars old new)).flatten = Text.replaceChars old new ls.flatten := by
  induction h with
  | nil => exact (replaceChars_nil hne).symm
  | last => simp
  | cons hl _ _ ih =>
      rw [List.map_cons, List.flatten_cons, List.flatten_cons, ih, hl.replaceChars_append hne hold]

theorem WellCut.map_replaceChars (hnew : Plain new) (hnewNe : new ≠ []) (h : WellCut ls) :
    WellCut (ls.map (Text.replaceChars old new)) := by
  induction h with
  | nil => exact .nil
  | last hplain hlne =>
      exact .last (forall_mem_replaceChars hne hnew hplain) (replaceChars_ne_nil hne hnewNe hlne)
  | cons hl hmeet hrest ih =>
      refine .cons (hl.replaceChars hne hold hnew) (fun hlast hhead => ?_) ih
      rw [flatten_map_replaceChars hne hold hrest] at hhead
      rw [hl.getLast?_replaceChars hne hold] at hlast
      exact hmeet hlast (head?_replaceChars hne hnew hnewNe (by decide) hhead)

/-- A text within a line is replaced line by line. -/
theorem lines_replaceChars (hnew : Plain new) (hnewNe : new ≠ []) (cs : List Char) :
    lines (Text.replaceChars old new cs) = (lines cs).map (Text.replaceChars old new) := by
  rw [← lines_flatten ((wellCut_lines cs).map_replaceChars hne hold hnew hnewNe),
    flatten_map_replaceChars hne hold (wellCut_lines cs), flatten_lines]

end

end Lalr.Text
