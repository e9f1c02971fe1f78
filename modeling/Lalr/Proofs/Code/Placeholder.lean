import Lalr.Grammar.Placeholder
import Lalr.Proofs.Text.Digit
import Lalr.Proofs.Text.Margin
import Mathlib.Data.List.Basic

/-!
# Lalr.Proofs.Code.Placeholder

The placeholders of action code.  Cutting code into placeholders and plain characters can be done
part by part, if no part begins with a digit (`pieces_append`).  So code has the placeholders of its
lines, and neither margins nor blanks at its ends matter (`placeholders_dedent`, `placeholders_trim`):
what is checked is what is substituted.
-/

namespace Lalr.Placeholder

open Text (isDigit isBlank isMargin)

variable {xs ys cs ds : List Char} {c : Char}

/-- The digits of a piece, if it is a placeholder. -/
def Piece.digits? : Piece → Option (List Char)
  | .plain _ => none
  | .placeholder ds => some ds

/-- The digits of the placeholders in some code, in order. -/
def placeholders (cs : List Char) : List (List Char) := (pieces cs).filterMap Piece.digits?

theorem occurrences_eq (code : String) : occurrences code = placeholders code.toList := rfl

/-! ## parts of code -/

/-- A run of digits ends where a part of code begins without one. -/
theorem takeWhile_dropWhile_append (h : ∀ c, ys.head? = some c → isDigit c = false) (xs : List Char) :
    (xs ++ ys).takeWhile isDigit = xs.takeWhile isDigit ∧
      (xs ++ ys).dropWhile isDigit = xs.dropWhile isDigit ++ ys := by
  induction xs with
  | nil =>
      cases ys with
      | nil => exact ⟨rfl, rfl⟩
      | cons c ys => simp [h c rfl]
  | cons c xs ih =>
      by_cases hc : isDigit c
      · simp [hc, ih]
      · simp [hc]

/-- A part of code that does not begin with a digit is cut on its own. -/
theorem pieces_append (h : ∀ c, ys.head? = some c → isDigit c = false) (xs : List Char) :
    pieces (xs ++ ys) = pieces xs ++ pieces ys := by
  fun_induction pieces xs with
  | case1 => rfl
  | case2 c rest hc ih =>
      obtain ⟨htake, hdrop⟩ := takeWhile_dropWhile_append h rest
      rw [List.cons_append, pieces, if_pos, htake, hdrop, ih, List.cons_append]
      cases rest with
      | nil => simp at hc
      | cons c' rest => exact hc
  | case3 c rest hc ih =>
      rw [List.cons_append, pieces, if_neg, ih, List.cons_append]
      cases rest with
      | nil =>
          rw [Bool.and_eq_true, not_and]
          intro _ hdigit
          obtain ⟨d, hd, hdigit⟩ := (Option.any_eq_true _ _).1 hdigit
          rw [h d hd] at hdigit
          contradiction
      | cons c' rest => exact hc

theorem placeholders_append (h : ∀ c, ys.head? = some c → isDigit c = false) (xs : List Char) :
    placeholders (xs ++ ys) = placeholders xs ++ placeholders ys := by
  rw [placeholders, pieces_append h, List.filterMap_append]
  rfl

theorem placeholders_nil : placeholders [] = [] := by rw [placeholders, pieces, List.filterMap_nil]

theorem placeholders_cons (h : c ≠ '$') (cs : List Char) : placeholders (c :: cs) = placeholders cs := by
  rw [placeholders, pieces, if_neg (by simp [h])]
  rfl

/-- Without dollar signs, there are no placeholders, and none more with the code behind. -/
theorem placeholders_skip (h : ∀ c ∈ xs, c ≠ '$') (ys : List Char) :
    placeholders (xs ++ ys) = placeholders ys := by
  induction xs with
  | nil => rfl
  | cons c xs ih =>
      obtain ⟨hc, hxs⟩ := List.forall_mem_cons.1 h
      rw [List.cons_append, placeholders_cons hc, ih hxs]

/-- Code has the placeholders of its lines. -/
theorem placeholders_joinNewlines (ls : List (List Char)) :
    placeholders (Text.joinNewlines ls) = ls.flatMap placeholders := by
  induction ls with
  | nil => exact placeholders_nil
  | cons l ls ih =>
      by_cases hne : ls = []
      · simp [hne, Text.joinNewlines]
      · have hnewline : ∀ c, ('\n' :: Text.joinNewlines ls).head? = some c → isDigit c = false := by
          rintro c hc
          obtain rfl := Option.some.inj hc
          decide
        rw [Text.joinNewlines_cons l hne, placeholders_append hnewline, placeholders_cons (by decide), ih,
          List.flatMap_cons]

/-! ## blanks -/

/-- Margins have no placeholders. -/
theorem placeholders_dedent (cs : List Char) : placeholders (Text.dedent cs) = placeholders cs := by
  obtain ⟨f, hdedent, hf⟩ := Text.exists_dedent_eq cs
  have hline : ∀ l ∈ Text.splitNewlines cs, placeholders (f l) = placeholders l := by
    intro l hl
    obtain ⟨blanks, hblanks, heq⟩ := hf l hl
    have hskip := placeholders_skip (fun c hc => by
      rintro rfl
      exact absurd (hblanks _ hc) (by decide)) (f l)
    rw [← heq] at hskip
    exact hskip.symm
  calc placeholders (Text.dedent cs)
      = (Text.splitNewlines cs).flatMap fun l => placeholders (f l) := by
        rw [hdedent, placeholders_joinNewlines, List.flatMap_map]
    _ = (Text.splitNewlines cs).flatMap placeholders := List.flatMap_congr hline
    _ = placeholders cs := by rw [← placeholders_joinNewlines, Text.joinNewlines_splitNewlines]

/-- Blanks at the ends have no placeholders. -/
theorem placeholders_trim (cs : List Char) : placeholders (Text.trim isBlank cs) = placeholders cs := by
  have hdollar {c : Char} (hc : isBlank c = true) : c ≠ '$' := by
    rintro rfl
    exact absurd hc (by decide)
  obtain ⟨front, ending, hfront, hending, heq⟩ := Text.exists_trim_eq isBlank cs
  have hdigit : ∀ c, ending.head? = some c → isDigit c = false := fun c hc =>
    Text.isDigit_of_isBlank (hending c (List.mem_of_head? hc))
  have hnone : placeholders ending = [] := by
    simpa [placeholders_nil] using placeholders_skip (fun c hc => hdollar (hending c hc)) []
  have hall := placeholders_skip (fun c hc => hdollar (hfront c hc)) (Text.trim isBlank cs ++ ending)
  rw [← heq, placeholders_append hdigit, hnone, List.append_nil] at hall
  exact hall.symm

/-! ## the last character -/

/-- A placeholder keeps its last digit. -/
theorem getLast?_substitute (cs : List Char) : (substitute cs).getLast? = cs.getLast? := by
  unfold substitute
  fun_induction pieces cs with
  | case1 => rfl
  | case2 c rest hc ih =>
      obtain ⟨hdollar, hdigit⟩ := Bool.and_eq_true_iff.1 hc
      have hne : rest.takeWhile isDigit ≠ [] := by
        cases rest with
        | nil => contradiction
        | cons d rest =>
            have hd : isDigit d = true := hdigit
            simp [hd]
      rw [List.flatMap_cons, Piece.render, parameter, List.getLast?_append, ih, List.getLast?_cons,
        List.getLast?_cons]
      have hsplit := List.takeWhile_append_dropWhile (p := isDigit) (l := rest)
      have hlast : rest.getLast? = (rest.dropWhile isDigit).getLast?.or (rest.takeWhile isDigit).getLast? := by
        rw [← List.getLast?_append, hsplit]
      obtain ⟨d, hd⟩ := Option.isSome_iff_exists.1 (List.getLast?_isSome.2 hne)
      rw [hlast, hd]
      cases (rest.dropWhile isDigit).getLast? <;> rfl
  | case3 c rest hc ih =>
      rw [List.flatMap_cons, Piece.render, List.singleton_append, List.getLast?_cons, ih, List.getLast?_cons]

/-! ## digits -/

/-- A placeholder has digits, and nothing else. -/
theorem digits_of_mem_placeholders (h : ds ∈ placeholders cs) : ds ≠ [] ∧ ∀ c ∈ ds, isDigit c = true := by
  unfold placeholders at h
  fun_induction pieces cs with
  | case1 => cases h
  | case2 c rest hc ih =>
      simp only [Bool.and_eq_true, decide_eq_true_eq] at hc
      rcases List.mem_cons.1 h with rfl | h
      · refine ⟨?_, List.all_eq_true.1 List.all_takeWhile⟩
        cases rest with
        | nil => simp at hc
        | cons c' rest => simp_all
      · exact ih h
  | case3 c rest hc ih => exact ih h

end Lalr.Placeholder
