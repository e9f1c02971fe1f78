import Lalr.Proofs.Text.Lines

/-!
# Lalr.Proofs.Text.Indent

What indenting does to a text: spaces come in behind line boundaries, and at the front
(`exists_spread_indent`).
-/

namespace Lalr.Text

variable {c : Char} {s s' s'' u u' line : List Char}

/-- A text with spaces put in behind line boundaries. -/
inductive Spread : List Char → List Char → Prop
  | nil : Spread [] []
  | cons {c : Char} {s s' : List Char} (n : Nat) (hn : isLineBoundary c = false → n = 0)
    (h : Spread s s') : Spread (c :: s) (c :: (List.replicate n ' ' ++ s'))

namespace Spread

/-- No space needs to be put in. -/
theorem cons_same (c : Char) (h : Spread s s') : Spread (c :: s) (c :: s') := cons 0 (fun _ => rfl) h

theorem refl : (s : List Char) → Spread s s
  | [] => nil
  | c :: s => cons_same c (refl s)

theorem append (h : Spread s s') (h' : Spread u u') : Spread (s ++ u) (s' ++ u') := by
  induction h with
  | nil => exact h'
  | cons n hn _ ih =>
      rw [List.cons_append, List.cons_append, List.append_assoc]
      exact cons n hn ih

/-- Where a line goes on, nothing is put in. -/
theorem exists_of_plain (hline : Plain line) (h : Spread (line ++ s) u) :
    ∃ s', u = line ++ s' ∧ Spread s s' := by
  induction line generalizing u with
  | nil => exact ⟨u, rfl, h⟩
  | cons c line ih =>
      obtain ⟨hc, hline⟩ := List.forall_mem_cons.1 hline
      rw [List.cons_append] at h
      obtain _ | ⟨n, hn, h⟩ := h
      obtain ⟨s', rfl, hs⟩ := ih hline h
      rw [hn hc]
      exact ⟨s', rfl, hs⟩

/-- The two parts of a text are spread one after the other. -/
theorem exists_of_append (h : Spread (s ++ s') u) :
    ∃ v v', u = v ++ v' ∧ Spread s v ∧ Spread s' v' := by
  induction s generalizing u with
  | nil => exact ⟨[], u, rfl, nil, h⟩
  | cons c s ih =>
      rw [List.cons_append] at h
      obtain _ | ⟨n, hn, h⟩ := h
      obtain ⟨v, v', rfl, hv, hv'⟩ := ih h
      exact ⟨c :: (List.replicate n ' ' ++ v), v', by simp, cons n hn hv, hv'⟩

theorem plain_replicate (n : Nat) : Plain (List.replicate n ' ') := fun c hc => by
  rw [List.eq_of_mem_replicate hc]
  rfl

theorem forall_mem {p : Char → Prop} (h : Spread s s') (hspace : p ' ') (hs : ∀ c ∈ s, p c) : ∀ c ∈ s', p c := by
  induction h with
  | nil => exact nofun
  | cons n _ _ ih =>
      obtain ⟨hc, hs⟩ := List.forall_mem_cons.1 hs
      refine List.forall_mem_cons.2 ⟨hc, List.forall_mem_append.2 ⟨fun d hd => ?_, ih hs⟩⟩
      rwa [List.eq_of_mem_replicate hd]

theorem trans (h : Spread s s') (h' : Spread s' s'') : Spread s s'' := by
  induction h generalizing s'' with
  | nil => exact h'
  | @cons c s s' n hn _ ih =>
      obtain _ | ⟨m, hm, h'⟩ := h'
      obtain ⟨v, rfl, hv⟩ := exists_of_plain (plain_replicate n) h'
      rw [← List.append_assoc, List.replicate_append_replicate]
      exact cons (m + n) (fun hc => by rw [hm hc, hn hc]) (ih hv)

end Spread

/-! ## newlines -/

theorem plainNewlines_cons (h : c ≠ '\r') (s : List Char) :
    plainNewlines (c :: s) = c :: plainNewlines s := by
  rw [plainNewlines.eq_def]
  split <;> simp_all

theorem plainNewlines_append (h : '\r' ∉ s) (u : List Char) :
    plainNewlines (s ++ u) = s ++ plainNewlines u := by
  induction s with
  | nil => rfl
  | cons c s ih =>
      obtain ⟨hc, hs⟩ := not_or.1 (mt List.mem_cons.2 h)
      rw [List.cons_append, plainNewlines_cons (Ne.symm hc), ih hs, List.cons_append]

theorem Plain.return_not_mem (h : Plain s) : '\r' ∉ s := fun hmem => absurd (h _ hmem) (by decide)

theorem plainNewlines_return (h : s.head? ≠ some '\n') :
    plainNewlines ('\r' :: s) = '\n' :: plainNewlines s := by
  rw [plainNewlines]
  rintro rest rfl
  exact h rfl

/-- A newline of its own stays. -/
theorem plainNewlines_append_newline (h : s.getLast? ≠ some '\r') (u : List Char) :
    plainNewlines (s ++ '\n' :: u) = plainNewlines s ++ '\n' :: plainNewlines u := by
  fun_induction plainNewlines s with
  | case1 => exact plainNewlines_cons (by decide) u
  | case2 rest ih =>
      have hlast : rest.getLast? ≠ some '\r' := by cases rest <;> simp_all
      rw [List.cons_append, List.cons_append, plainNewlines, ih hlast, List.cons_append]
  | case3 rest hrest ih =>
      have hne : rest ≠ [] := by
        rintro rfl
        exact h rfl
      obtain ⟨c, rest, rfl⟩ := List.exists_cons_of_ne_nil hne
      rw [List.getLast?_cons_cons] at h
      rw [List.cons_append, plainNewlines_return (by simpa using fun hc => hrest rest (by rw [hc])),
        ih h, List.cons_append]
  | case4 c rest _ hc ih =>
      have hlast : rest.getLast? ≠ some '\r' := by cases rest <;> simp_all
      rw [List.cons_append, plainNewlines_cons hc, ih hlast, List.cons_append]

/-! ## indenting -/

/-- A line of an indented text. -/
def indentLine (margin line : List Char) : List Char := if line.all isBlank then line else margin ++ line

theorem indent_eq (margin s : List Char) :
    indent margin s = ((lines s).map (indentLine margin)).flatten := rfl

/-- A complete line in front of a text is indented by itself. -/
theorem indent_append {l : List Char} (h : Complete l) (hmeet : l.getLast? = some '\r' → s.head? ≠ some '\n')
    (margin : List Char) : indent margin (l ++ s) = indentLine margin l ++ indent margin s := by
  rw [indent_eq, lines_cons h hmeet, List.map_cons, List.flatten_cons, indent_eq]

theorem exists_indentLine_eq (n : Nat) (line : List Char) :
    ∃ k, indentLine (List.replicate n ' ') line = List.replicate k ' ' ++ line := by
  unfold indentLine
  split
  · exact ⟨0, rfl⟩
  · exact ⟨n, rfl⟩

/-- Indenting keeps the end of a text. -/
theorem getLast?_indent (n : Nat) (s : List Char) :
    (indent (List.replicate n ' ') s).getLast? = s.getLast? := by
  have hflat := flatten_lines s
  rw [indent_eq]
  rcases List.eq_nil_or_concat (lines s) with hnil | ⟨ls, l, hlines⟩
  · rw [hnil] at hflat ⊢
    rw [← hflat]
    rfl
  · have hne : l ≠ [] := (wellCut_lines s).ne_nil (hlines ▸ by simp)
    obtain ⟨k, hk⟩ := exists_indentLine_eq n l
    rw [hlines, List.concat_eq_append, List.flatten_append, List.flatten_singleton] at hflat
    rw [hlines, List.concat_eq_append, List.map_append, List.flatten_append, List.map_singleton,
      List.flatten_singleton, hk, ← hflat]
    obtain ⟨c, hc⟩ := Option.isSome_iff_exists.1 (List.getLast?_isSome.2 hne)
    rw [List.getLast?_append, List.getLast?_append, List.getLast?_append, hc]
    rfl

theorem head?_indent_ne (n : Nat) (h : s.head? ≠ some '\n') :
    (indent (List.replicate n ' ') s).head? ≠ some '\n' := by
  have hflat := flatten_lines s
  rw [indent_eq]
  cases hlines : lines s with
  | nil => simp
  | cons l ls =>
      rw [hlines, List.flatten_cons] at hflat
      have hne : l ≠ [] := (wellCut_lines s).ne_nil (hlines ▸ List.mem_cons_self)
      obtain ⟨c, l, rfl⟩ := List.exists_cons_of_ne_nil hne
      obtain ⟨k, hk⟩ := exists_indentLine_eq n (c :: l)
      rw [List.map_cons, hk, List.flatten_cons]
      have hc : some c ≠ some '\n' := by rwa [← hflat] at h
      cases k with
      | zero => exact hc
      | succ k => simp [List.replicate_succ]

/-- The first of the lines is indented, and spaces come in behind its ending. -/
theorem exists_spread_line (n : Nat) (hline : Plain line) {ending rest : List Char} {b : Char}
    (hb : isLineBoundary b = true)
    (hending : plainNewlines (ending ++ rest) = b :: plainNewlines rest)
    (hrest : ∃ k u, plainNewlines rest = List.replicate k ' ' ++ u ∧ Spread s u) :
    ∃ k u, plainNewlines (indentLine (List.replicate n ' ') (line ++ ending) ++ rest) =
      List.replicate k ' ' ++ u ∧ Spread (line ++ b :: s) u := by
  obtain ⟨k, hk⟩ := exists_indentLine_eq n (line ++ ending)
  obtain ⟨j, u, hu, hs⟩ := hrest
  refine ⟨k, line ++ b :: (List.replicate j ' ' ++ u), ?_,
    (Spread.refl line).append (.cons j (by simp [hb]) hs)⟩
  rw [hk, List.append_assoc, List.append_assoc,
    plainNewlines_append (Spread.plain_replicate k).return_not_mem,
    plainNewlines_append hline.return_not_mem, hending, hu]

theorem exists_spread_linesFrom (n : Nat) (hline : Plain line.reverse) (s : List Char) :
    ∃ k u, plainNewlines (((linesFrom line s).map (indentLine (List.replicate n ' '))).flatten) =
      List.replicate k ' ' ++ u ∧ Spread (line.reverse ++ plainNewlines s) u := by
  fun_induction linesFrom line s with
  | case1 line hempty =>
      obtain rfl := List.isEmpty_iff.1 hempty
      exact ⟨0, [], rfl, .nil⟩
  | case2 line hne =>
      obtain ⟨k, hk⟩ := exists_indentLine_eq n line.reverse
      refine ⟨k, line.reverse, ?_, ?_⟩
      · rw [List.map_singleton, List.flatten_singleton, hk,
          plainNewlines_append (Spread.plain_replicate k).return_not_mem,
          ← List.append_nil line.reverse, plainNewlines_append hline.return_not_mem, plainNewlines]
      · rw [plainNewlines, List.append_nil]
        exact .refl _
  | case3 line rest ih =>
      rw [List.map_cons, List.flatten_cons, plainNewlines]
      have hsplit : ('\n' :: '\r' :: line).reverse = line.reverse ++ ['\r', '\n'] := by simp
      rw [hsplit]
      exact exists_spread_line n hline (by decide) rfl (ih plain_nil)
  | case4 line c rest hreturn hc ih =>
      rw [List.map_cons, List.flatten_cons, List.reverse_cons]
      by_cases hr : c = '\r'
      · subst hr
        have hhead : rest.head? ≠ some '\n' := fun h => by
          obtain ⟨rest', rfl⟩ := List.head?_eq_some_iff.1 h
          exact hreturn rest' rfl rfl
        rw [plainNewlines_return hhead]
        exact exists_spread_line n hline (by decide)
          (plainNewlines_return (head?_indent_ne n hhead)) (ih plain_nil)
      · rw [plainNewlines_cons hr]
        exact exists_spread_line n hline hc (plainNewlines_cons hr _) (ih plain_nil)
  | case5 line c rest hreturn hc ih =>
      have hr : c ≠ '\r' := by
        rintro rfl
        exact hc (by decide)
      have hc' : isLineBoundary c = false := Bool.not_eq_true _ ▸ hc
      have hline' : Plain (c :: line).reverse := by
        rw [List.reverse_cons]
        exact plain_append.2 ⟨hline, List.forall_mem_singleton.2 hc'⟩
      obtain ⟨k, u, hu, hs⟩ := ih hline'
      refine ⟨k, u, hu, ?_⟩
      rwa [plainNewlines_cons hr, List.append_cons, ← List.reverse_cons]

/-- Indenting puts spaces in behind line boundaries and at the front. -/
theorem exists_spread_indent (n : Nat) (s : List Char) :
    ∃ k u, plainNewlines (indent (List.replicate n ' ') s) = List.replicate k ' ' ++ u ∧
      Spread (plainNewlines s) u := by
  have hnothing : Plain ([] : List Char).reverse := plain_nil
  exact exists_spread_linesFrom n hnothing s

end Lalr.Text
