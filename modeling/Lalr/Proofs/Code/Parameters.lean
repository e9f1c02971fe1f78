import Lalr.Code.Rendering
import Lalr.Proofs.Code.Placeholder
import Lalr.Proofs.Grammar.WellFormed
import Mathlib

/-!
# Lalr.Proofs.Code.Parameters

Which placeholders are parameters.  The check of a grammar compares the value of a placeholder with the
number of symbols, but its digits are what is written into the code.  So the name that stands for a
placeholder is a parameter exactly if its digits, as names are read, are those in which its value is
written (`parameter_of_validate`): a placeholder with a zero in front of its digits, or with digits of
another script, passes the check and is no parameter (`not_parameter_zeros`).
-/

namespace Lalr

variable {g : Grammar} {r : Rule} {ds : List Char} {c : Char} {n : Nat}

namespace Code

open Placeholder (parameter placeholders occurrences)
open Text (digitValue? numeral isDigit Canonical)

/-! ## names -/

/-- Variants of a digit have its value. -/
theorem digitValue?_plainDigit (c : Char) : digitValue? (plainDigit c) = digitValue? c := by
  have hwide : ∀ k < 10, digitValue? (Char.ofNat (k + 0x30)) = digitValue? (Char.ofNat (0xff10 + k)) := by
    decide
  have hmath : ∀ k < 50,
      digitValue? (Char.ofNat (k % 10 + 0x30)) = digitValue? (Char.ofNat (0x1d7ce + k)) := by
    decide +kernel
  have hsegment : ∀ k < 10,
      digitValue? (Char.ofNat (k + 0x30)) = digitValue? (Char.ofNat (0x1fbf0 + k)) := by
    decide +kernel
  unfold plainDigit
  simp only [Bool.and_eq_true, decide_eq_true_eq]
  split
  · next h => rw [hwide _ (by omega), Nat.add_sub_cancel' h.1, Char.ofNat_toNat]
  · split
    · next h => rw [hmath _ (by omega), Nat.add_sub_cancel' h.1, Char.ofNat_toNat]
    · split
      · next h => rw [hsegment _ (by omega), Nat.add_sub_cancel' h.1, Char.ofNat_toNat]
      · rfl

/-- ASCII digits are no variants. -/
theorem map_plainDigit_of_isDigit (h : ∀ c ∈ ds, c.isDigit = true) : ds.map plainDigit = ds := by
  refine (List.map_congr_left fun c hc => ?_).trans (List.map_id ds)
  have hle : c.toNat ≤ 57 := (Char.isDigit_iff_toNat.1 (h c hc)).2
  unfold plainDigit
  simp only [Bool.and_eq_true, decide_eq_true_eq]
  rw [if_neg (by omega), if_neg (by omega), if_neg (by omega), id]

theorem numeral_map_plainDigit (ds : List Char) : numeral (ds.map plainDigit) = numeral ds := by
  simp [numeral, List.foldl_map, digitValue?_plainDigit]

/-- What stands for a placeholder is read as a name. -/
theorem wordLexeme_parameter (h : ∀ c ∈ ds, isDigit c = true) :
    wordLexeme (parameter ds) = some (.name (String.ofList (parameter (ds.map plainDigit)))) := by
  have hkeyword : ¬ keywords.contains (String.ofList (parameter ds)) = true := by
    intro hmem
    have hall : ∀ word ∈ keywords, word.toList.head? ≠ some '_' := by decide
    exact hall _ (List.contains_iff_mem.1 hmem) (by simp [parameter])
  have hidentifier : Text.isIdentifier (parameter ds) = true := by
    rw [parameter, Text.isIdentifier, Bool.and_eq_true, List.all_eq_true]
    exact ⟨by decide, fun c hc => Text.isIdentifierContinue_of_isDigit (h c hc)⟩
  rw [wordLexeme, if_neg hkeyword, if_pos hidentifier]
  rfl

theorem parameterName_eq (i : Nat) : parameterName i = String.ofList (parameter (Nat.toDigits 10 i)) := by
  rw [← String.toList_inj, parameterName, Nat.toString_eq_ofList_toDigits]
  simp [parameter]

/-- The name that stands for a placeholder in range is a parameter if its digits are canonical. -/
theorem mem_parameters_iff (hlt : numeral ds < n) :
    String.ofList (parameter (ds.map plainDigit)) ∈ (List.range n).map parameterName ↔
      Canonical (ds.map plainDigit) := by
  constructor
  · intro h
    obtain ⟨i, -, hi⟩ := List.mem_map.1 h
    rw [parameterName_eq] at hi
    have hdigits : Nat.toDigits 10 i = ds.map plainDigit :=
      (List.cons.inj (String.ofList_injective hi)).2
    exact hdigits ▸ Text.canonical_toDigits i
  · intro h
    refine List.mem_map.2 ⟨numeral ds, List.mem_range.2 hlt, ?_⟩
    rw [parameterName_eq, ← numeral_map_plainDigit, Text.toDigits_numeral h]

/-! ## placeholders of a grammar that passes its check -/

/-- In a grammar that passes its check, placeholders are in range. -/
theorem numeral_lt_of_validate (h : g.validate = .ok ()) (hr : r ∈ g.rules)
    (hds : ds ∈ occurrences r.code) : numeral ds < r.production.length := by
  have hm := Grammar.mistake?_of_validate h
  simp only [Grammar.mistake?, Option.orElse_eq_orElse, Option.orElse_eq_or, Option.or_eq_none_iff,
    List.findSome?_eq_none_iff] at hm
  obtain ⟨-, -, -, -, -, -, -, hactions⟩ := hm
  have haction := hactions r hr
  unfold Grammar.actionProblem? at haction
  split at haction
  · contradiction
  · rw [Option.map_eq_none_iff, List.find?_eq_none] at haction
    simpa using haction ds hds

/-- In a grammar that passes its check, the placeholders that are replaced in the code of a production
are those that have been checked.  Each has the number of one of the symbols, and is replaced by a name.
The name is a parameter of the function exactly if the digits of the placeholder are canonical, and then
it is the parameter for the symbol with its number. -/
theorem parameter_of_validate (h : g.validate = .ok ()) (hr : r ∈ g.rules) :
    placeholders (Text.trim Text.isBlank (Text.dedent r.code.toList)) = occurrences r.code ∧
    ∀ ds ∈ occurrences r.code, numeral ds < r.production.length ∧
      ∃ name, wordLexeme (parameter ds) = some (.name name) ∧
        (name ∈ (List.range r.production.length).map parameterName ↔ Canonical (ds.map plainDigit)) ∧
        (Canonical (ds.map plainDigit) → name = parameterName (numeral ds)) := by
  refine ⟨?_, fun ds hds => ?_⟩
  · rw [Placeholder.placeholders_trim, Placeholder.placeholders_dedent, Placeholder.occurrences_eq]
  · have hlt := numeral_lt_of_validate h hr hds
    have hdigits := (Placeholder.digits_of_mem_placeholders hds).2
    refine ⟨hlt, _, wordLexeme_parameter hdigits, mem_parameters_iff hlt, fun hcanonical => ?_⟩
    rw [parameterName_eq, ← numeral_map_plainDigit, Text.toDigits_numeral hcanonical]

/-- A grammar with one production of one symbol, and the code for it. -/
def singleGrammar (code : String) : Grammar where
  rules := [⟨⟨"S", ["a"]⟩, code, "object"⟩]
  terminals := [⟨"a", "a", false⟩]
  start := "S"

/-- The only symbol is `$0`, which is replaced by the only parameter. -/
theorem parameter_of_validate_single :
    (singleGrammar "$0").validate = .ok () ∧
    ∃ r ∈ (singleGrammar "$0").rules, occurrences r.code = [['0']] ∧
      Canonical (['0'].map plainDigit) ∧ wordLexeme (parameter ['0']) = some (.name (parameterName 0)) := by
  have hvalid : (singleGrammar "$0").validate = .ok () := by cbv
  have hds : occurrences "$0" = [['0']] := by cbv
  have hcanonical : Canonical (['0'].map plainDigit) := by
    rw [map_plainDigit_of_isDigit (by simp)]
    decide
  have hmem : ⟨⟨"S", ["a"]⟩, "$0", "object"⟩ ∈ (singleGrammar "$0").rules := List.mem_singleton_self _
  refine ⟨hvalid, _, hmem, hds, hcanonical, ?_⟩
  obtain ⟨-, name, hname, -, hparameter⟩ :=
    (parameter_of_validate hvalid hmem).2 ['0'] (hds ▸ List.mem_singleton_self _)
  rw [hname, hparameter hcanonical]
  rfl

/-- With zeros in front, the number of a symbol passes the check.  The name that stands for the
placeholder is none of the parameters. -/
theorem not_parameter_zeros :
    (singleGrammar "$00").validate = .ok () ∧
    ∃ r ∈ (singleGrammar "$00").rules, ∃ ds ∈ occurrences r.code, ∃ name,
      wordLexeme (parameter ds) = some (.name name) ∧
        name ∉ (List.range r.production.length).map parameterName := by
  have hvalid : (singleGrammar "$00").validate = .ok () := by cbv
  have hds : occurrences "$00" = [['0', '0']] := by cbv
  have hmem : ⟨⟨"S", ["a"]⟩, "$00", "object"⟩ ∈ (singleGrammar "$00").rules := List.mem_singleton_self _
  have hzeros : ['0', '0'] ∈ occurrences "$00" := hds ▸ List.mem_singleton_self _
  have hdigits := (Placeholder.digits_of_mem_placeholders hzeros).2
  have hcanonical : ¬ Canonical (['0', '0'].map plainDigit) := by
    rw [map_plainDigit_of_isDigit (by simp)]
    decide
  have hrange : numeral ['0', '0'] < 1 := by decide
  exact ⟨hvalid, _, hmem, _, hzeros, _, wordLexeme_parameter hdigits,
    mt (mem_parameters_iff hrange).1 hcanonical⟩

end Code

end Lalr
