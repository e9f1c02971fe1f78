import Lalr.Code.Lexeme
import Lalr.Text.Quoted
import Mathlib.Algebra.GroupWithZero.Nat
import Mathlib.Data.List.Basic

/-!
# Lalr.Proofs.Code.Quoting

A text that is written between quotes is read back as it was, whatever stands behind it
(`readText_escaped`).
-/

namespace Lalr.Text

/-! ## numbers in base sixteen -/

theorem hexValue?_hexDigit (n : Nat) : hexValue? (hexDigit n) = some (n % 16) := by
  have hall : ∀ k < 16, hexValue? (Nat.digitChar k) = some k := by decide
  exact hall _ (Nat.mod_lt n (by decide))

theorem length_hex (width n : Nat) : (hex width n).length = width := by
  induction width generalizing n with
  | zero => rfl
  | succ width ih => rw [hex, List.length_append, ih, List.length_singleton]

theorem readHex?_append_singleton {cs : List Char} {n d : Nat} {c : Char} (hcs : readHex? cs = some n)
    (hc : hexValue? c = some d) : readHex? (cs ++ [c]) = some (16 * n + d) := by
  rw [readHex?] at hcs
  rw [readHex?, List.foldl_append, hcs, List.foldl_cons, List.foldl_nil, hc]
  rfl

/-- The lowest digits of a number are read as what the number is, up to higher digits. -/
theorem readHex?_hex (width n : Nat) : readHex? (hex width n) = some (n % 16 ^ width) := by
  induction width generalizing n with
  | zero => simp [hex, readHex?, Nat.mod_one]
  | succ width ih =>
      rw [hex, readHex?_append_singleton (ih (n / 16)) (hexValue?_hexDigit n), Nat.pow_succ',
        Nat.mod_mul, Nat.add_comm]

theorem mem_hex {width n : Nat} {c : Char} (h : c ∈ hex width n) : c ∈ "0123456789abcdef".toList := by
  have hall : ∀ k < 16, Nat.digitChar k ∈ "0123456789abcdef".toList := by decide
  induction width generalizing n with
  | zero => cases h
  | succ width ih =>
      rw [hex, List.mem_append, List.mem_singleton] at h
      obtain h | rfl := h
      · exact ih h
      · exact hall _ (Nat.mod_lt n (by decide))

theorem toNat_lt (c : Char) : c.toNat < 0x110000 := by
  have hvalid : c.toNat < 0xd800 ∨ 0xdfff < c.toNat ∧ c.toNat < 0x110000 := c.valid
  omega

/-- An escape by code point has digits enough for its character. -/
theorem escapeCode_cases (c : Char) : ∃ letter width, escapeCode c = '\\' :: letter :: hex width c.toNat ∧
    (letter, width) ∈ [('x', 2), ('u', 4), ('U', 8)] ∧ c.toNat < 16 ^ width := by
  have hrange : c.toNat < 0x110000 := toNat_lt c
  unfold escapeCode
  dsimp only
  split
  · exact ⟨'x', 2, rfl, by simp, by omega⟩
  · split
    · exact ⟨'u', 4, rfl, by simp, by omega⟩
    · exact ⟨'U', 8, rfl, by simp, by omega⟩

/-- A character is written as itself or by an escape of one of three kinds. -/
theorem escapeChar_cases (q c : Char) :
    (c = q ∨ c = '\\') ∧ escapeChar q c = ['\\', c] ∨
    (∃ letter, (c, letter) ∈ [('\n', 'n'), ('\r', 'r'), ('\t', 't')] ∧ escapeChar q c = ['\\', letter]) ∨
    (c ≠ q ∧ c ≠ '\\' ∧ isPrintable c = true ∧ escapeChar q c = [c]) ∨
    escapeChar q c = escapeCode c := by
  unfold escapeChar
  by_cases hescaped : c = q ∨ c = '\\'
  · exact .inl ⟨hescaped, by simp [hescaped]⟩
  rw [if_neg (by simpa using hescaped)]
  by_cases hnewline : c = '\n'
  · exact .inr (.inl ⟨'n', by simp [hnewline]⟩)
  by_cases hreturn : c = '\r'
  · exact .inr (.inl ⟨'r', by simp [hreturn]⟩)
  by_cases htab : c = '\t'
  · exact .inr (.inl ⟨'t', by simp [htab]⟩)
  rw [if_neg hnewline, if_neg hreturn, if_neg htab]
  by_cases hprintable : isPrintable c = true
  · obtain ⟨hq, hslash⟩ := not_or.1 hescaped
    exact .inr (.inr (.inl ⟨hq, hslash, hprintable, if_pos hprintable⟩))
  · exact .inr (.inr (.inr (if_neg hprintable)))

theorem quoteFor_eq (cs : List Char) : quoteFor cs = '\'' ∨ quoteFor cs = '"' := by
  unfold quoteFor
  split
  · exact .inr rfl
  · exact .inl rfl

theorem isPrintable_of_mem_escapeChar {q c d : Char} (hq : q = '\'' ∨ q = '"') (h : d ∈ escapeChar q c) :
    isPrintable d = true := by
  have hletters : ∀ d ∈ "\\'\"nrtxuU0123456789abcdef".toList, isPrintable d = true := by decide +kernel
  rcases escapeChar_cases q c with ⟨hc, heq⟩ | ⟨letter, hletter, heq⟩ | ⟨-, -, hprintable, heq⟩ | heq
  · rw [heq, List.mem_cons, List.mem_singleton] at h
    refine hletters d ?_
    rcases h with rfl | rfl
    · decide
    · rcases hc with rfl | rfl
      · rcases hq with rfl | rfl <;> decide
      · decide
  · rw [heq, List.mem_cons, List.mem_singleton] at h
    refine hletters d ?_
    simp only [List.mem_cons, List.not_mem_nil, or_false, Prod.mk.injEq] at hletter
    rcases h with rfl | rfl
    · decide
    · rcases hletter with ⟨-, rfl⟩ | ⟨-, rfl⟩ | ⟨-, rfl⟩ <;> decide
  · rw [heq, List.mem_singleton] at h
    rwa [h]
  · obtain ⟨letter, width, hcode, hletter, -⟩ := escapeCode_cases c
    rw [heq, hcode, List.mem_cons, List.mem_cons] at h
    refine hletters d ?_
    simp only [List.mem_cons, List.not_mem_nil, or_false, Prod.mk.injEq] at hletter
    rcases h with rfl | rfl | h
    · decide
    · rcases hletter with ⟨rfl, -⟩ | ⟨rfl, -⟩ | ⟨rfl, -⟩ <;> decide
    · have hhex : ∀ d ∈ "0123456789abcdef".toList, d ∈ "\\'\"nrtxuU0123456789abcdef".toList := by decide
      exact hhex d (mem_hex h)

/-- A text between quotes has printable characters only. -/
theorem isPrintable_of_mem_quoteChars {cs : List Char} {d : Char} (h : d ∈ quoteChars cs) :
    isPrintable d = true := by
  have hquote : isPrintable (quoteFor cs) = true := by
    rcases quoteFor_eq cs with hq | hq <;> rw [hq] <;> decide +kernel
  simp only [quoteChars, List.mem_cons, List.mem_append, List.not_mem_nil, or_false] at h
  rcases h with (rfl | h) | rfl
  · exact hquote
  · obtain ⟨c, -, hd⟩ := List.mem_flatMap.1 h
    exact isPrintable_of_mem_escapeChar (quoteFor_eq cs) hd
  · exact hquote

end Lalr.Text

namespace Lalr.Code

open Text (escapeChar escapeChar_cases escapeCode_cases)

variable {q : Char} {s rest : List Char}

/-! ## the value of the content -/

theorem unescape_skip (bytes : Bool) (w s : List Char) :
    unescape bytes w.length (w ++ s) = unescape bytes 0 s := by
  induction w with
  | nil => rfl
  | cons c w ih => exact ih

/-- An escape by code point stands for the character with this number. -/
theorem unescape_code {letter : Char} {width : Nat} (hsimple : simpleEscape? letter = none)
    (hwidth : codeWidth? false letter = some width) {c : Char} (hc : c.toNat < 16 ^ width) (s : List Char) :
    unescape false 0 ('\\' :: letter :: (Text.hex width c.toNat ++ s)) =
      (unescape false 0 s).map (c :: ·) := by
  have htake : (Text.hex width c.toNat ++ s).take width = Text.hex width c.toNat :=
    List.take_left' (Text.length_hex ..)
  have hrest : unescape false (1 + width) (letter :: (Text.hex width c.toNat ++ s)) = unescape false 0 s := by
    rw [Nat.add_comm, unescape]
    have hskip := unescape_skip false (Text.hex width c.toNat) s
    rwa [Text.length_hex] at hskip
  have hrange := Text.toNat_lt c
  rw [unescape]
  simp only [ne_eq, not_true_eq_false, if_false, hsimple, hwidth, htake, Text.readHex?_hex,
    Nat.mod_eq_of_lt hc, Text.length_hex, hrest]
  rw [Option.bind_eq_bind, Option.bind_some, if_neg (by simpa using hrange), Char.ofNat_toNat]
  cases unescape false 0 s <;> rfl

/-- An escaped character stands for the character. -/
theorem unescape_escapeChar (hq : q = '\'' ∨ q = '"') (c : Char) (s : List Char) :
    unescape false 0 (escapeChar q c ++ s) = (unescape false 0 s).map (c :: ·) := by
  have hsimple {letter : Char} (h : simpleEscape? letter = some [c]) :
      unescape false 0 ('\\' :: letter :: s) = (unescape false 0 s).map (c :: ·) := by
    rw [unescape]
    simp only [ne_eq, not_true_eq_false, if_false, h]
    rw [unescape]
    cases unescape false 0 s <;> rfl
  rcases escapeChar_cases q c with ⟨hc, heq⟩ | ⟨letter, hletter, heq⟩ | ⟨-, hc, -, heq⟩ | heq
  · rw [heq]
    refine hsimple ?_
    rcases hc with rfl | rfl
    · rcases hq with rfl | rfl <;> rfl
    · rfl
  · rw [heq]
    refine hsimple ?_
    simp only [List.mem_cons, List.not_mem_nil, or_false, Prod.mk.injEq] at hletter
    rcases hletter with ⟨rfl, rfl⟩ | ⟨rfl, rfl⟩ | ⟨rfl, rfl⟩ <;> rfl
  · rw [heq, List.singleton_append, unescape.eq_def]
    simp only [ne_eq, hc, not_false_eq_true, if_true]
    cases unescape false 0 s <;> rfl
  · obtain ⟨letter, width, hcode, hletter, hwidth⟩ := escapeCode_cases c
    rw [heq, hcode]
    simp only [List.mem_cons, List.not_mem_nil, or_false, Prod.mk.injEq] at hletter
    rcases hletter with ⟨rfl, rfl⟩ | ⟨rfl, rfl⟩ | ⟨rfl, rfl⟩ <;> exact unescape_code rfl rfl hwidth s

theorem unescape_escaped (hq : q = '\'' ∨ q = '"') (s : List Char) :
    unescape false 0 (s.flatMap (escapeChar q)) = some s := by
  induction s with
  | nil => rfl
  | cons c s ih => rw [List.flatMap_cons, unescape_escapeChar hq, ih, Option.map_some]

/-! ## the end of the content -/

theorem untilQuote_plain {w : List Char} (hw : ∀ c ∈ w, c ≠ q ∧ c ≠ '\\' ∧ c ≠ '\n') (s : List Char) :
    untilQuote q (w ++ s) = (untilQuote q s).map fun x => (w ++ x.1, x.2) := by
  induction w with
  | nil => simp
  | cons c w ih =>
      obtain ⟨⟨hq, hslash, hnewline⟩, hw⟩ := List.forall_mem_cons.1 hw
      rw [List.cons_append, untilQuote, if_neg hq, if_neg hnewline, ih hw]
      · cases untilQuote q s <;> rfl
      · rintro c rest rfl
        exact absurd rfl hslash

theorem untilQuote_escape (c : Char) (s : List Char) :
    untilQuote q ('\\' :: c :: s) = (untilQuote q s).map fun x => ('\\' :: c :: x.1, x.2) := by
  rw [untilQuote]
  cases untilQuote q s <;> rfl

/-- An escaped character does not end the content. -/
theorem untilQuote_escapeChar (hq : q = '\'' ∨ q = '"') (c : Char) (s : List Char) :
    untilQuote q (escapeChar q c ++ s) = (untilQuote q s).map fun x => (escapeChar q c ++ x.1, x.2) := by
  rcases escapeChar_cases q c with ⟨-, heq⟩ | ⟨letter, -, heq⟩ | ⟨hcq, hc, hprintable, heq⟩ | heq
  · rw [heq]
    exact untilQuote_escape c s
  · rw [heq]
    exact untilQuote_escape letter s
  · rw [heq]
    refine untilQuote_plain (List.forall_mem_singleton.2 ⟨hcq, hc, ?_⟩) s
    rintro rfl
    exact absurd hprintable (by decide)
  · obtain ⟨letter, width, hcode, -⟩ := escapeCode_cases c
    have hsafe : ∀ d ∈ Text.hex width c.toNat, d ≠ q ∧ d ≠ '\\' ∧ d ≠ '\n' := by
      have hall : ∀ d ∈ "0123456789abcdef".toList, ∀ q ∈ ['\'', '"'], d ≠ q ∧ d ≠ '\\' ∧ d ≠ '\n' := by decide
      exact fun d hd => hall d (Text.mem_hex hd) q (by simpa using hq)
    rw [heq, hcode, List.cons_append, List.cons_append, untilQuote_escape]
    rw [untilQuote_plain hsafe]
    cases untilQuote q s <;> rfl

theorem untilQuote_escaped (hq : q = '\'' ∨ q = '"') (s rest : List Char) :
    untilQuote q (s.flatMap (escapeChar q) ++ q :: rest) = some (s.flatMap (escapeChar q), rest) := by
  induction s with
  | nil =>
      rw [List.flatMap_nil, List.nil_append, untilQuote, if_pos rfl]
      rintro c rest rfl
      exact absurd hq (by decide)
  | cons c s ih =>
      rw [List.flatMap_cons, List.append_assoc, untilQuote_escapeChar hq, ih, Option.map_some]

/-! ## quoted text -/

theorem escapeChar_head (hq : q = '\'' ∨ q = '"') (c : Char) : ∃ d w, escapeChar q c = d :: w ∧ d ≠ q := by
  have hslash : '\\' ≠ q := by rcases hq with rfl | rfl <;> decide
  rcases escapeChar_cases q c with ⟨-, heq⟩ | ⟨letter, -, heq⟩ | ⟨hcq, -, -, heq⟩ | heq
  · exact ⟨_, _, heq, hslash⟩
  · exact ⟨_, _, heq, hslash⟩
  · exact ⟨_, _, heq, hcq⟩
  · obtain ⟨letter, width, hcode, -⟩ := escapeCode_cases c
    exact ⟨_, _, heq.trans hcode, hslash⟩

/-- What is written between quotes is read as what it was, if no further quote follows. -/
theorem readText_escaped (hq : q = '\'' ∨ q = '"') (s : List Char) (hrest : rest.head? ≠ some q) :
    readText ⟨false, false, false⟩ q (s.flatMap (escapeChar q) ++ q :: rest) =
      some (.text ⟨false, false, false⟩ (String.ofList s), rest) := by
  have hsingle : [q, q].isPrefixOf (s.flatMap (escapeChar q) ++ q :: rest) = false := by
    cases s with
    | nil =>
        cases rest with
        | nil => simp [List.isPrefixOf]
        | cons d rest =>
            have hd : q ≠ d := fun h => hrest (by rw [h]; rfl)
            simp [List.isPrefixOf, hd]
    | cons c s =>
        obtain ⟨d, w, heq, hd⟩ := escapeChar_head hq c
        simp [List.isPrefixOf, heq, Ne.symm hd]
  rw [readText, readQuoted, hsingle, if_neg (by decide), untilQuote_escaped hq]
  simp [contentValue, unescape_escaped hq]

end Lalr.Code
