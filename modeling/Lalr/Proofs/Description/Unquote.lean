import Lalr.Description.Basic
import Lalr.Proofs.Description.Lexemes
import Lalr.Proofs.Text.Replace
import Mathlib

/-!
# Lalr.Proofs.Description.Unquote

What quoted strings stand for.  A quoted string is cut into units from the left: a single character, or a
backslash and the character behind it.  Replacing every backslash with a quote behind it, wherever it
stands, is the same as reading unit by unit (`unquote_string`): no unit begins with a quote, so what is
replaced is always a whole unit.
-/

namespace Lalr.Description

open Text (replaceChars)

variable {us : List (List Char)} {u before after : List Char}

/-! ## units -/

/-- Cut a text into units from the left. -/
def units : List Char → List (List Char)
  | [] => []
  | '\\' :: c :: rest => ['\\', c] :: units rest
  | c :: rest => [c] :: units rest

/-- What a unit stands for: a backslash and a quote for the quote, every other unit for itself. -/
def unitText (u : List Char) : List Char := if u = ['\\', '"'] then ['"'] else u

/-- What a unit may stand for. -/
def IsUnitText (u : List Char) : Prop := u = ['"'] ∨ IsQuoted u ∧ u ≠ ['\\', '"']

/-- Units that a quoted string may consist of are found again. -/
theorem units_flatten (h : ∀ u ∈ us, IsQuoted u) : units us.flatten = us := by
  induction us with
  | nil => rfl
  | cons u us ih =>
      obtain ⟨hu, hus⟩ := List.forall_mem_cons.1 h
      rw [List.flatten_cons]
      rcases hu with ⟨c, hc, rfl⟩ | ⟨c, -, rfl⟩
      · have hslash : c ≠ '\\' := fun heq => hc (by simp [heq])
        rw [List.singleton_append, units.eq_3 _ _ fun _ _ heq => absurd heq hslash, ih hus]
      · rw [List.cons_append, List.singleton_append, units, ih hus]

theorem isUnitText_unitText (h : IsQuoted u) : IsUnitText (unitText u) := by
  rw [unitText]
  split
  · exact .inl rfl
  · next hne => exact .inr ⟨h, hne⟩

/-- Whatever a unit may stand for, some unit stands for it. -/
theorem IsUnitText.exists_unit (h : IsUnitText u) : ∃ v, IsQuoted v ∧ unitText v = u := by
  rcases h with rfl | ⟨hu, hne⟩
  · exact ⟨['\\', '"'], .inr ⟨'"', by decide, rfl⟩, rfl⟩
  · exact ⟨u, hu, if_neg hne⟩

theorem exists_map_unitText (h : ∀ u ∈ us, IsUnitText u) :
    ∃ vs : List (List Char), (∀ v ∈ vs, IsQuoted v) ∧ vs.map unitText = us := by
  induction us with
  | nil => exact ⟨[], by simp, rfl⟩
  | cons u us ih =>
      obtain ⟨hu, hus⟩ := List.forall_mem_cons.1 h
      obtain ⟨v, hv, rfl⟩ := hu.exists_unit
      obtain ⟨vs, hvs, rfl⟩ := ih hus
      exact ⟨v :: vs, List.forall_mem_cons.2 ⟨hv, hvs⟩, rfl⟩

/-- Units do not begin with a quote. -/
theorem head?_flatten_ne_quote (h : ∀ u ∈ us, IsQuoted u) : us.flatten.head? ≠ some '"' := by
  cases us with
  | nil => exact nofun
  | cons u us =>
      rcases h u List.mem_cons_self with ⟨c, hc, rfl⟩ | ⟨c, -, rfl⟩
      · simp only [List.flatten_cons, List.singleton_append, List.head?_cons, ne_eq, Option.some.injEq]
        exact fun heq => hc (by simp [heq])
      · simp

/-- Replacing a backslash and a quote by the quote goes unit by unit. -/
theorem replaceChars_flatten (h : ∀ u ∈ us, IsQuoted u) :
    replaceChars ['\\', '"'] ['"'] us.flatten = us.flatMap unitText := by
  have hne : ['\\', '"'] ≠ [] := List.cons_ne_nil _ _
  induction us with
  | nil => exact Text.replaceChars_nil hne
  | cons u us ih =>
      obtain ⟨hu, hus⟩ := List.forall_mem_cons.1 h
      rw [List.flatten_cons, List.flatMap_cons, ← ih hus]
      rcases hu with ⟨c, hc, rfl⟩ | ⟨c, -, rfl⟩
      · have hslash : c ≠ '\\' := fun heq => hc (by simp [heq])
        rw [List.singleton_append, Text.replaceChars_cons hne, unitText, if_neg (by simp)]
        · rfl
        · exact fun hprefix => hslash (List.cons_prefix_cons.1 hprefix).1.symm
      · by_cases hc : c = '"'
        · subst hc
          exact Text.replaceChars_self_append hne us.flatten
        · -- The character behind the backslash may be a backslash itself, but no quote follows it.
          have hpair : ¬ ['\\', '"'] <+: '\\' :: c :: us.flatten := fun hprefix =>
            hc (List.cons_prefix_cons.1 (List.cons_prefix_cons.1 hprefix).2).1.symm
          have hnext : ¬ ['\\', '"'] <+: c :: us.flatten := by
            intro hprefix
            obtain ⟨rest, hrest⟩ := (List.cons_prefix_cons.1 hprefix).2
            exact head?_flatten_ne_quote hus (by rw [← hrest]; rfl)
          rw [List.cons_append, List.singleton_append, Text.replaceChars_cons hne hpair,
            Text.replaceChars_cons hne hnext, unitText, if_neg (by simp [hc])]
          rfl

/-! ## quotes and the backslashes before them -/

/-- The number of backslashes at the end of a text. -/
def slashesBefore (cs : List Char) : Nat := (cs.reverse.takeWhile (· = '\\')).length

theorem even_slashesBefore (h : ∀ u ∈ us, IsUnitText u) : Even (slashesBefore us.flatten) := by
  induction us using List.reverseRecOn with
  | nil => exact Even.zero
  | append_singleton us u ih =>
      obtain ⟨hus, hu⟩ := List.forall_mem_append.1 h
      rw [slashesBefore, List.flatten_append, List.flatten_singleton, List.reverse_append]
      rcases hu u List.mem_cons_self with rfl | ⟨⟨c, hc, rfl⟩ | ⟨c, -, rfl⟩, -⟩
      · exact Even.zero
      · have hslash : c ≠ '\\' := fun heq => hc (by simp [heq])
        simp [hslash]
      · by_cases hslash : c = '\\'
        · subst hslash
          simpa [slashesBefore, Nat.even_add_one] using ih hus
        · simp [hslash]

/-- A quote is a unit of its own. -/
theorem exists_units_before (h : ∀ u ∈ us, IsUnitText u) (heq : us.flatten = before ++ '"' :: after) :
    ∃ vs : List (List Char), (∀ v ∈ vs, IsUnitText v) ∧ before = vs.flatten := by
  induction us generalizing before with
  | nil => simp at heq
  | cons u us ih =>
      obtain ⟨hu, hus⟩ := List.forall_mem_cons.1 h
      rw [List.flatten_cons] at heq
      by_cases hnil : before = []
      · exact ⟨[], by simp, hnil⟩
      -- No quote stands inside a unit, so what comes before the quote begins with the whole unit.
      obtain ⟨more, rfl⟩ : u <+: before := by
        obtain ⟨b, bs, rfl⟩ := List.exists_cons_of_ne_nil hnil
        rcases hu with rfl | ⟨⟨c, -, rfl⟩ | ⟨c, -, rfl⟩, hpair⟩
        · exact ⟨bs, by rw [(List.cons.inj heq).1]; rfl⟩
        · exact ⟨bs, by rw [(List.cons.inj heq).1]; rfl⟩
        · obtain ⟨rfl, hrest⟩ := List.cons.inj heq
          cases bs with
          | nil => exact absurd (by rw [(List.cons.inj hrest).1]) hpair
          | cons b bs => exact ⟨bs, by rw [(List.cons.inj hrest).1]; rfl⟩
      rw [List.append_assoc] at heq
      obtain ⟨vs, hvs, rfl⟩ := ih hus (List.append_cancel_left heq)
      exact ⟨u :: vs, List.forall_mem_cons.2 ⟨hu, hvs⟩, rfl⟩

/-! ## quoted strings -/

theorem inner_enclosed (cs : List Char) : inner ('"' :: (cs ++ ['"'])) = cs := by
  rw [inner, List.drop_succ_cons, List.drop_zero, List.dropLast_concat]

theorem toList_unquote (h : ∀ u ∈ us, IsQuoted u) {text : String}
    (htext : text.toList = '"' :: (us.flatten ++ ['"'])) :
    (unquote text).toList = us.flatMap unitText := by
  rw [unquote, String.toList_ofList, htext, inner_enclosed, replaceChars_flatten h]

theorem eq_stringTerminal : ∀ t ∈ terminals, t.name = "STRING" → t = stringTerminal := by decide

/-- A quoted string is read unit by unit, and only a backslash with a quote behind it is turned into
something else.  So a pattern consists of the other units and of bare quotes, each with an even number of
backslashes before it. -/
theorem unquote_string (t : Terminal) (ht : t ∈ terminals) (hname : t.name = "STRING") :
    (∀ text : String, t.Matches text.toList →
      text.toList = '"' :: ((units (inner text.toList)).flatten ++ ['"']) ∧
      (∀ u ∈ units (inner text.toList), IsQuoted u) ∧
      (unquote text).toList = (units (inner text.toList)).flatMap unitText) ∧
    (∀ pattern : String, (∃ text : String, t.Matches text.toList ∧ unquote text = pattern) ↔
      ∃ us : List (List Char), (∀ u ∈ us, IsUnitText u) ∧ pattern.toList = us.flatten) ∧
    ∀ text : String, t.Matches text.toList → ∀ before after, (unquote text).toList = before ++ '"' :: after →
      Even (slashesBefore before) := by
  obtain rfl := eq_stringTerminal t ht hname
  have hread (text : String) (h : stringTerminal.Matches text.toList) :
      ∃ us : List (List Char), (∀ u ∈ us, IsQuoted u) ∧ text.toList = '"' :: (us.flatten ++ ['"']) :=
    matches_string.1 h
  have htexts {us : List (List Char)} (hus : ∀ u ∈ us, IsQuoted u) :
      ∀ v ∈ us.map unitText, IsUnitText v :=
    List.forall_mem_map.2 fun u hu => isUnitText_unitText (hus u hu)
  refine ⟨fun text h => ?_, fun pattern => ⟨?_, ?_⟩, fun text h before after heq => ?_⟩
  · obtain ⟨us, hus, htext⟩ := hread text h
    rw [toList_unquote hus htext, htext, inner_enclosed, units_flatten hus]
    exact ⟨rfl, hus, rfl⟩
  · rintro ⟨text, h, rfl⟩
    obtain ⟨us, hus, htext⟩ := hread text h
    exact ⟨us.map unitText, htexts hus, by rw [toList_unquote hus htext, List.flatMap_def]⟩
  · rintro ⟨vs, hvs, hpattern⟩
    obtain ⟨us, hus, rfl⟩ := exists_map_unitText hvs
    have htext : (String.ofList ('"' :: (us.flatten ++ ['"']))).toList = '"' :: (us.flatten ++ ['"']) :=
      String.toList_ofList
    refine ⟨_, matches_string.2 ⟨us, hus, htext⟩, String.toList_inj.1 ?_⟩
    rw [toList_unquote hus htext, List.flatMap_def, hpattern]
  · obtain ⟨us, hus, htext⟩ := hread text h
    rw [toList_unquote hus htext, List.flatMap_def] at heq
    obtain ⟨vs, hvs, rfl⟩ := exists_units_before (htexts hus) heq
    exact even_slashesBefore hvs

/-- Three backslashes before a quote: the first two are a unit, and the third makes the quote one. -/
theorem unquote_string_slashes :
    stringTerminal ∈ terminals ∧ stringTerminal.name = "STRING" ∧ stringTerminal.Matches "\"\\\\\\\"\"".toList ∧
      (unquote "\"\\\\\\\"\"").toList = ['\\', '\\', '"'] ∧ Even (slashesBefore ['\\', '\\']) := by
  have hmem : stringTerminal ∈ terminals := by decide
  have hmatches : stringTerminal.Matches "\"\\\\\\\"\"".toList := by
    refine matches_string.2 ⟨[['\\', '\\'], ['\\', '"']], ?_, rfl⟩
    simp [IsQuoted]
  obtain ⟨hread, -, hquotes⟩ := unquote_string stringTerminal hmem rfl
  have hpattern : (unquote "\"\\\\\\\"\"").toList = ['\\', '\\', '"'] := (hread _ hmatches).2.2
  exact ⟨hmem, rfl, hmatches, hpattern, hquotes _ hmatches _ [] hpattern⟩

end Lalr.Description
