import Lalr.Text.Blank
import Lalr.Text.Digit
import Lalr.Text.Identifier
import Mathlib.Data.List.Basic
import Mathlib.Data.List.Induction

/-!
# Lalr.Proofs.Text.Digit

Decimal digits, and the numerals that they make up.  A numeral of ASCII digits that does not begin with
a zero, unless that is all of it, is the one in which its value is written (`toDigits_numeral`); every
number is written in such a numeral (`canonical_toDigits`).
-/

namespace Lalr.Text

variable {c : Char} {cs : List Char} {n : Nat} {ranges ranges' : List (Nat × Nat)}

/-! ## digits among other characters -/

/-- A class that has the ranges of another within its own has its characters. -/
theorem within_of_subset (h : ranges.all fun r => ranges'.any fun r' => r'.1 ≤ r.1 && r.2 ≤ r'.2)
    (hc : within ranges c = true) : within ranges' c = true := by
  simp only [within, List.all_eq_true, List.any_eq_true, Bool.and_eq_true, decide_eq_true_eq] at h hc ⊢
  obtain ⟨r, hr, hlo, hhi⟩ := hc
  obtain ⟨r', hr', hlo', hhi'⟩ := h r hr
  exact ⟨r', hr', Nat.le_trans hlo' hlo, Nat.le_trans hhi hhi'⟩

/-- Classes with disjoint ranges have no character in common. -/
theorem within_of_disjoint (h : ranges.all fun r => ranges'.all fun r' => r.2 < r'.1 || r'.2 < r.1)
    (hc : within ranges c = true) : within ranges' c = false := by
  rw [Bool.eq_false_iff]
  intro hc'
  simp only [within, List.all_eq_true, List.any_eq_true, Bool.and_eq_true, Bool.or_eq_true,
    decide_eq_true_eq] at h hc hc'
  obtain ⟨r, hr, hlo, hhi⟩ := hc
  obtain ⟨r', hr', hlo', hhi'⟩ := hc'
  rcases h r hr r' hr' with h | h <;> omega

theorem isDigit_of_isBlank (h : isBlank c = true) : isDigit c = false := by
  have hblank : within ((0x1c, 0x1f) :: whiteSpaceRanges) c = true := by
    rw [within, List.any_cons, Bool.or_comm]
    exact h
  exact within_of_disjoint (by decide +kernel) hblank

theorem isIdentifierContinue_of_isDigit (h : isDigit c = true) : isIdentifierContinue c = true :=
  within_of_subset (by decide +kernel) h

/-! ## ASCII digits -/

/-- An ASCII digit is that of its value. -/
theorem digit_of_isDigit (h : c.isDigit = true) :
    ∃ d < 10, digitValue? c = some d ∧ Nat.digitChar d = c := by
  have hall : ∀ d < 10, digitValue? (Char.ofNat (48 + d)) = some d ∧
      Nat.digitChar d = Char.ofNat (48 + d) := by decide
  obtain ⟨hlo, hhi⟩ : 48 ≤ c.toNat ∧ c.toNat ≤ 57 := Char.isDigit_iff_toNat.1 h
  obtain ⟨d, hd⟩ := Nat.exists_eq_add_of_le hlo
  have hlt : d < 10 := by omega
  have hc : Char.ofNat (48 + d) = c := by rw [← hd, Char.ofNat_toNat]
  obtain ⟨hvalue, hchar⟩ := hall d hlt
  rw [hc] at hvalue hchar
  exact ⟨d, hlt, hvalue, hchar⟩

theorem digitValue?_digitChar (h : n < 10) : digitValue? (Nat.digitChar n) = some n := by
  have hall : ∀ d < 10, digitValue? (Nat.digitChar d) = some d := by decide
  exact hall n h

/-! ## numerals -/

/-- ASCII digits with no zero in front of others. -/
structure Canonical (cs : List Char) : Prop where
  ne_nil : cs ≠ []
  digits : ∀ c ∈ cs, c.isDigit = true
  leading : cs.head? = some '0' → cs = ['0']

instance : DecidablePred Canonical := fun cs =>
  decidable_of_iff (cs ≠ [] ∧ cs.all Char.isDigit = true ∧ (cs.head? = some '0' → cs = ['0']))
    ⟨fun ⟨hne, hdigits, hleading⟩ => ⟨hne, List.all_eq_true.1 hdigits, hleading⟩,
      fun h => ⟨h.ne_nil, List.all_eq_true.2 h.digits, h.leading⟩⟩

theorem numeral_append_singleton (cs : List Char) (c : Char) :
    numeral (cs ++ [c]) = 10 * numeral cs + (digitValue? c).getD 0 := by
  simp [numeral]

/-- A number is written with one more digit than its tenth. -/
theorem toDigits_eq_append (h : 10 ≤ n) :
    Nat.toDigits 10 n = Nat.toDigits 10 (n / 10) ++ [Nat.digitChar (n % 10)] := by
  rw [Nat.toDigits_eq_if (by decide), if_neg (by omega)]

/-- What a number is written in has its value. -/
theorem numeral_toDigits (n : Nat) : numeral (Nat.toDigits 10 n) = n := by
  induction n using Nat.strongRecOn with
  | ind n ih =>
      by_cases h : n < 10
      · rw [Nat.toDigits_of_lt_base h]
        simp [numeral, digitValue?_digitChar h]
      · rw [toDigits_eq_append (by omega), numeral_append_singleton, ih (n / 10) (by omega),
          digitValue?_digitChar (by omega), Option.getD_some]
        omega

/-- Numbers are written without zeros in front. -/
theorem canonical_toDigits (n : Nat) : Canonical (Nat.toDigits 10 n) where
  ne_nil := Nat.toDigits_ne_nil
  digits := fun _ hc => Nat.isDigit_of_mem_toDigits (by decide) (by decide) hc
  leading := by
    induction n using Nat.strongRecOn with
    | ind n ih =>
        intro h
        by_cases hn : n < 10
        · rw [Nat.toDigits_of_lt_base hn] at h ⊢
          rw [Option.some.inj h]
        · -- The zero would be in front of the digits of the tenth, which then is zero itself.
          rw [toDigits_eq_append (by omega), List.head?_append_of_ne_nil _ Nat.toDigits_ne_nil] at h
          have hzero := numeral_toDigits (n / 10)
          rw [ih (n / 10) (by omega) h, show numeral ['0'] = 0 by decide] at hzero
          omega

/-- The front of a canonical numeral is one, and its value is not zero. -/
theorem Canonical.of_append_singleton (h : Canonical (cs ++ [c])) (hne : cs ≠ []) :
    Canonical cs ∧ cs ≠ ['0'] := by
  have hlead : cs.head? ≠ some '0' := by
    intro hhead
    have hall := h.leading (by rw [List.head?_append_of_ne_nil _ hne, hhead])
    obtain ⟨d, cs, rfl⟩ := List.exists_cons_of_ne_nil hne
    simp at hall
  refine ⟨⟨hne, fun d hd => h.digits d (List.mem_append_left _ hd), fun hhead => absurd hhead hlead⟩, ?_⟩
  rintro rfl
  exact hlead rfl

/-- A canonical numeral is the one in which its value is written. -/
theorem toDigits_numeral (h : Canonical cs) : Nat.toDigits 10 (numeral cs) = cs := by
  induction cs using List.reverseRecOn with
  | nil => exact absurd rfl h.ne_nil
  | append_singleton cs c ih =>
      obtain ⟨d, hd, hvalue, rfl⟩ :=
        digit_of_isDigit (h.digits c (List.mem_append_right _ (List.mem_singleton_self c)))
      rw [numeral_append_singleton, hvalue, Option.getD_some]
      by_cases hne : cs = []
      · subst hne
        simp [numeral, Nat.toDigits_of_lt_base hd]
      · obtain ⟨hcs, hzero⟩ := h.of_append_singleton hne
        have hfront := ih hcs
        have hpos : 0 < numeral cs := by
          rw [Nat.pos_iff_ne_zero]
          intro hvalue
          rw [hvalue, Nat.toDigits_zero] at hfront
          exact hzero hfront.symm
        rw [← Nat.toDigits_append_toDigits (by decide) hpos hd, hfront, Nat.toDigits_of_lt_base hd]

end Lalr.Text
