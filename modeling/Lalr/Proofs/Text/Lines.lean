import Lalr.Text.Lines

/-!
# Lalr.Proofs.Text.Lines

Texts as lists of lines.  Cutting a text gives lines that make up the text (`flatten_lines`), each but
the last with its boundary (`wellCut_lines`), and lists of such lines come back from their text
(`lines_flatten`).  So what is put together from lines of other texts has these lines, if no return
comes to stand before a newline.
-/

namespace Lalr.Text

variable {cs rest body line l : List Char} {ls ls' : List (List Char)}

/-- All characters that end a line. -/
def boundaries : List Char :=
  ['\n', '\x0b', '\x0c', '\r', '\x1c', '\x1d', '\x1e', '\x85', '\u2028', '\u2029']

theorem mem_boundaries {c : Char} (h : isLineBoundary c = true) : c ∈ boundaries := by
  have hcode : c.toNat ∈ boundaries.map Char.toNat := by
    simp [isLineBoundary, within] at h
    simp [boundaries]
    omega
  obtain ⟨d, hd, hdc⟩ := List.mem_map.1 hcode
  rwa [← Char.ofNat_toNat c, ← hdc, Char.ofNat_toNat]

/-- A text within one line. -/
def Plain (cs : List Char) : Prop := ∀ c ∈ cs, isLineBoundary c = false

instance : DecidablePred Plain := fun cs =>
  decidable_of_iff (cs.any isLineBoundary = false) (by simp [Plain])

/-- What ends a line: a boundary character, or a return and a newline. -/
def IsEnding (cs : List Char) : Prop := cs = ['\r', '\n'] ∨ ∃ c, isLineBoundary c = true ∧ cs = [c]

/-- A line with its ending. -/
def Complete (l : List Char) : Prop := ∃ body ending, Plain body ∧ IsEnding ending ∧ l = body ++ ending

/-- Lines that are the lines of the text they make up: all but the last are complete, and no return at
the end of one meets a newline. -/
inductive WellCut : List (List Char) → Prop
  | nil : WellCut []
  | last {l : List Char} (h : Plain l) (hne : l ≠ []) : WellCut [l]
  | cons {l : List Char} {ls : List (List Char)} (h : Complete l)
    (hmeet : l.getLast? = some '\r' → ls.flatten.head? ≠ some '\n') (hrest : WellCut ls) :
    WellCut (l :: ls)

theorem plain_nil : Plain [] := fun _ h => absurd h List.not_mem_nil

theorem plain_append : Plain (cs ++ rest) ↔ Plain cs ∧ Plain rest := List.forall_mem_append

/-- A newline completes a line. -/
theorem Plain.complete (h : Plain body) : Complete (body ++ ['\n']) :=
  ⟨body, ['\n'], h, .inr ⟨'\n', by decide, rfl⟩, rfl⟩

theorem Complete.ne_nil (h : Complete l) : l ≠ [] := by
  obtain ⟨body, ending, -, hending, rfl⟩ := h
  rcases hending with rfl | ⟨c, -, rfl⟩ <;> simp

theorem Complete.exists_boundary (h : Complete l) : ∃ c, l.getLast? = some c ∧ isLineBoundary c = true := by
  obtain ⟨body, ending, -, hending, rfl⟩ := h
  rcases hending with rfl | ⟨c, hc, rfl⟩
  · exact ⟨'\n', by simp, by decide⟩
  · exact ⟨c, by simp, hc⟩

/-- A newline behind a return belongs to the ending of the return's line. -/
theorem Complete.append_newline (h : Complete l) (hlast : l.getLast? = some '\r') :
    Complete (l ++ ['\n']) := by
  obtain ⟨body, ending, hbody, hending, rfl⟩ := h
  rcases hending with rfl | ⟨c, -, rfl⟩
  · simp at hlast
  · obtain rfl : c = '\r' := by simpa using hlast
    exact ⟨body, ['\r', '\n'], hbody, .inl rfl, List.append_assoc ..⟩

theorem not_complete_of_plain (h : Plain l) : ¬ Complete l := by
  intro hl
  obtain ⟨c, hlast, hc⟩ := hl.exists_boundary
  rw [h c (List.mem_of_getLast? hlast)] at hc
  contradiction

/-! ## cutting -/

theorem flatten_linesFrom (line cs : List Char) : (linesFrom line cs).flatten = line.reverse ++ cs := by
  fun_induction linesFrom line cs <;> simp_all

theorem flatten_lines (cs : List Char) : (lines cs).flatten = cs := flatten_linesFrom [] cs

theorem linesFrom_plain (h : Plain body) (line rest : List Char) :
    linesFrom line (body ++ rest) = linesFrom (body.reverse ++ line) rest := by
  induction body generalizing line with
  | nil => rfl
  | cons c body ih =>
      obtain ⟨hc, hbody⟩ := List.forall_mem_cons.1 h
      have hreturn : c ≠ '\r' := by
        rintro rfl
        contradiction
      rw [List.cons_append, linesFrom, if_neg (by simp [hc]), ih hbody]
      · simp
      · simp [hreturn]

theorem linesFrom_ending {ending : List Char} (h : IsEnding ending) (line : List Char)
    (hmeet : ending = ['\r'] → rest.head? ≠ some '\n') :
    linesFrom line (ending ++ rest) = (line.reverse ++ ending) :: linesFrom [] rest := by
  rcases h with rfl | ⟨c, hc, rfl⟩
  · simp [linesFrom]
  · rw [List.singleton_append, linesFrom, if_pos hc, List.reverse_cons]
    rintro rest' rfl rfl
    exact hmeet rfl rfl

/-- A complete line in front of a text is its first line. -/
theorem lines_cons (h : Complete l) (hmeet : l.getLast? = some '\r' → rest.head? ≠ some '\n') :
    lines (l ++ rest) = l :: lines rest := by
  obtain ⟨body, ending, hbody, hending, rfl⟩ := h
  rw [lines, List.append_assoc, linesFrom_plain hbody, linesFrom_ending hending]
  · simp [lines]
  · rintro rfl
    exact hmeet (by simp)

theorem lines_newline (rest : List Char) : lines ('\n' :: rest) = ['\n'] :: lines rest :=
  lines_cons plain_nil.complete (by simp)

/-- A complete line in front of a text is its first line, or a return at its end takes in a newline that
is the first line of the text. -/
theorem Complete.lines_append (h : Complete l) (rest : List Char) :
    lines (l ++ rest) = l :: lines rest ∨ l.getLast? = some '\r' ∧ ∃ ls,
      lines rest = ['\n'] :: ls ∧ lines (l ++ rest) = (l ++ ['\n']) :: ls := by
  by_cases hmeet : l.getLast? = some '\r' ∧ rest.head? = some '\n'
  · obtain ⟨hlast, hhead⟩ := hmeet
    obtain ⟨rest, rfl⟩ := List.head?_eq_some_iff.1 hhead
    have hsplit : l ++ '\n' :: rest = (l ++ ['\n']) ++ rest := by simp
    refine .inr ⟨hlast, lines rest, lines_newline rest, ?_⟩
    rw [hsplit, lines_cons (h.append_newline hlast) (by simp)]
  · exact .inl (lines_cons h fun hlast hhead => hmeet ⟨hlast, hhead⟩)

/-- The lines of a text that is made of complete lines are these, up to newlines that returns take in. -/
theorem forall_mem_lines_flatten {p : List Char → Prop}
    (hp : ∀ l, Complete l → l.getLast? = some '\r' → p l → p (l ++ ['\n']))
    (h : ∀ l ∈ ls, Complete l ∧ p l) : ∀ l ∈ lines ls.flatten, p l := by
  induction ls with
  | nil => exact fun _ hl => absurd hl List.not_mem_nil
  | cons l ls ih =>
      obtain ⟨⟨hl, hpl⟩, hls⟩ := List.forall_mem_cons.1 h
      rw [List.flatten_cons]
      rcases hl.lines_append ls.flatten with hlines | ⟨hlast, rest, hrest, hlines⟩
      · rw [hlines]
        exact List.forall_mem_cons.2 ⟨hpl, ih hls⟩
      · have hall := ih hls
        rw [hrest] at hall
        rw [hlines]
        exact List.forall_mem_cons.2 ⟨hp l hl hlast hpl, (List.forall_mem_cons.1 hall).2⟩

theorem lines_plain (h : Plain l) (hne : l ≠ []) : lines l = [l] := by
  rw [lines, ← List.append_nil l, linesFrom_plain h, linesFrom]
  simp [hne]

/-- Lines come back from the text that they make up. -/
theorem lines_flatten (h : WellCut ls) : lines ls.flatten = ls := by
  induction h with
  | nil => rfl
  | last h hne => rw [List.flatten_singleton, lines_plain h hne]
  | cons h hmeet _ ih => rw [List.flatten_cons, lines_cons h hmeet, ih]

theorem wellCut_linesFrom (hline : Plain line) (cs : List Char) : WellCut (linesFrom line cs) := by
  fun_induction linesFrom line cs with
  | case1 line hempty => exact .nil
  | case2 line hne => exact .last (fun c hc => hline c (List.mem_reverse.1 hc)) (by simpa using hne)
  | case3 line rest ih =>
      refine .cons ⟨line.reverse, ['\r', '\n'], ?_, .inl rfl, by simp⟩ (by simp) (ih plain_nil)
      exact fun c hc => hline c (List.mem_reverse.1 hc)
  | case4 line c rest hreturn hc ih =>
      refine .cons ⟨line.reverse, [c], ?_, .inr ⟨c, hc, rfl⟩, by simp⟩ ?_ (ih plain_nil)
      · exact fun c hc => hline c (List.mem_reverse.1 hc)
      · rw [flatten_linesFrom]
        rintro hlast hhead
        obtain ⟨rest, rfl⟩ : ∃ rest', rest = '\n' :: rest' := by
          cases rest <;> simp_all
        exact hreturn rest (by simpa using hlast) rfl
  | case5 line c rest hreturn hc ih =>
      exact ih (List.forall_mem_cons.2 ⟨by simpa using hc, hline⟩)

theorem wellCut_lines (cs : List Char) : WellCut (lines cs) := wellCut_linesFrom plain_nil cs

/-! ## lines one after the other -/

theorem WellCut.of_append (h : WellCut (ls ++ ls')) : WellCut ls' := by
  induction ls with
  | nil => exact h
  | cons l ls ih =>
      generalize hall : l :: ls ++ ls' = all at h
      cases h with
      | nil => cases hall
      | last =>
          obtain ⟨-, hnil⟩ := List.cons.inj hall
          rw [(List.append_eq_nil_iff.1 hnil).2]
          exact .nil
      | cons _ _ hrest =>
          obtain ⟨-, rfl⟩ := List.cons.inj hall
          exact ih hrest

/-- A return at the end of a line does not meet a newline. -/
theorem WellCut.head?_ne (h : WellCut (l :: ls)) (hlast : l.getLast? = some '\r') :
    ls.flatten.head? ≠ some '\n' := by
  cases h with
  | last => simp
  | cons _ hmeet _ => exact hmeet hlast

/-- Lines in front of others are complete. -/
theorem WellCut.complete (h : WellCut (ls ++ ls')) (hne : ls' ≠ []) : ∀ l ∈ ls, Complete l := by
  induction ls with
  | nil => exact fun _ hl => absurd hl List.not_mem_nil
  | cons l ls ih =>
      generalize hall : l :: ls ++ ls' = all at h
      cases h with
      | nil => cases hall
      | last =>
          obtain ⟨-, hnil⟩ := List.cons.inj hall
          exact absurd (List.append_eq_nil_iff.1 hnil).2 hne
      | cons hl _ hrest =>
          obtain ⟨rfl, rfl⟩ := List.cons.inj hall
          exact List.forall_mem_cons.2 ⟨hl, ih hrest⟩

/-- Without returns, complete lines may stand in front of any others. -/
theorem WellCut.append (h : ∀ l ∈ ls, Complete l) (hreturn : ∀ l ∈ ls, '\r' ∉ l) (h' : WellCut ls') :
    WellCut (ls ++ ls') := by
  induction ls with
  | nil => exact h'
  | cons l ls ih =>
      obtain ⟨hl, hls⟩ := List.forall_mem_cons.1 h
      obtain ⟨hlreturn, hlsreturn⟩ := List.forall_mem_cons.1 hreturn
      exact .cons hl (fun hlast => absurd (List.mem_of_getLast? hlast) hlreturn) (ih hls hlsreturn)

theorem WellCut.of_append_left (h : WellCut (ls ++ ls')) : WellCut ls := by
  induction ls with
  | nil => exact .nil
  | cons l ls ih =>
      generalize hall : l :: ls ++ ls' = all at h
      cases h with
      | nil => cases hall
      | last hplain hne =>
          obtain ⟨rfl, hnil⟩ := List.cons.inj hall
          rw [(List.append_eq_nil_iff.1 hnil).1]
          exact .last hplain hne
      | cons hl hmeet hrest =>
          obtain ⟨rfl, rfl⟩ := List.cons.inj hall
          have hhead (hhead : ls.flatten.head? = some '\n') : (ls ++ ls').flatten.head? = some '\n' := by
            rw [List.flatten_append, List.head?_append, hhead, Option.some_or]
          exact .cons hl (fun hlast => mt hhead (hmeet hlast)) (ih hrest)

/-- Complete lines may stand in front of others, if no return at their end meets a newline. -/
theorem WellCut.append_of_meet (h : WellCut ls) (hcomplete : ∀ l ∈ ls, Complete l)
    (hmeet : ls.flatten.getLast? = some '\r' → ls'.flatten.head? ≠ some '\n') (h' : WellCut ls') :
    WellCut (ls ++ ls') := by
  induction h with
  | nil => exact h'
  | last hplain => exact absurd (hcomplete _ List.mem_cons_self) (not_complete_of_plain hplain)
  | @cons l ls hl hnext hrest ih =>
      obtain ⟨-, hls⟩ := List.forall_mem_cons.1 hcomplete
      refine .cons hl (fun hlast hhead => ?_) (ih hls fun hlast => hmeet ?_)
      · cases ls with
        | nil => exact hmeet (by simpa using hlast) (by simpa using hhead)
        | cons l' ls =>
            obtain ⟨c, cs, hc⟩ := List.exists_cons_of_ne_nil (hls l' List.mem_cons_self).ne_nil
            exact hnext hlast (by simpa [hc] using hhead)
      · rw [List.flatten_cons, List.getLast?_append, hlast, Option.some_or]

/-- A line that ends with a boundary is complete. -/
theorem WellCut.complete_of_mem (h : WellCut ls) (hl : l ∈ ls) {c : Char} (hlast : l.getLast? = some c)
    (hc : isLineBoundary c = true) : Complete l := by
  induction h with
  | nil => cases hl
  | last hplain =>
      obtain rfl := List.mem_singleton.1 hl
      rw [hplain c (List.mem_of_getLast? hlast)] at hc
      contradiction
  | cons hcomplete _ _ ih =>
      rcases List.mem_cons.1 hl with rfl | hl
      · exact hcomplete
      · exact ih hl

/-- If a text ends with a boundary, all its lines are complete. -/
theorem WellCut.complete_of_getLast? (h : WellCut ls)
    (hlast : ∀ c, ls.flatten.getLast? = some c → isLineBoundary c = true) : ∀ l ∈ ls, Complete l := by
  induction h with
  | nil => exact fun _ hl => absurd hl List.not_mem_nil
  | @last l hplain hne =>
      rw [List.flatten_singleton] at hlast
      have hboundary := hlast _ (List.getLast?_eq_some_getLast hne)
      rw [hplain _ (List.getLast_mem hne)] at hboundary
      contradiction
  | cons hl _ _ ih =>
      refine List.forall_mem_cons.2 ⟨hl, ih fun c hc => hlast c ?_⟩
      rw [List.flatten_cons, List.getLast?_append, hc, Option.some_or]

theorem plain_or_complete (h : WellCut ls) (hl : l ∈ ls) : Plain l ∨ Complete l := by
  induction h with
  | nil => cases hl
  | last hplain _ =>
      obtain rfl := List.mem_singleton.1 hl
      exact .inl hplain
  | cons hcomplete _ _ ih =>
      rcases List.mem_cons.1 hl with rfl | hl
      · exact .inr hcomplete
      · exact ih hl

theorem WellCut.ne_nil (h : WellCut ls) (hl : l ∈ ls) : l ≠ [] := by
  induction h with
  | nil => cases hl
  | last _ hne =>
      obtain rfl := List.mem_singleton.1 hl
      exact hne
  | cons hcomplete _ _ ih =>
      rcases List.mem_cons.1 hl with rfl | hl
      · exact hcomplete.ne_nil
      · exact ih hl

/-- A text ends like its last line. -/
theorem getLast?_of_getLast?_lines (h : (lines cs).getLast? = some l) : cs.getLast? = l.getLast? := by
  have hne := (wellCut_lines cs).ne_nil (List.mem_of_getLast? h)
  obtain ⟨ls, hls⟩ := List.getLast?_eq_some_iff.1 h
  rw [← flatten_lines cs, hls, List.flatten_append, List.flatten_singleton, List.getLast?_append,
    List.getLast?_eq_some_getLast hne, Option.some_or]

theorem mem_of_mem_lines {c : Char} (hl : l ∈ lines cs) (hc : c ∈ l) : c ∈ cs :=
  flatten_lines cs ▸ List.mem_flatten.2 ⟨l, hl, hc⟩

end Lalr.Text
