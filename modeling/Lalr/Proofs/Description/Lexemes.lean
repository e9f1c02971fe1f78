import Lalr.Description.Format
import Lalr.Proofs.Lexer.Munched
import Lalr.Proofs.Pattern.Forms
import Lalr.Proofs.Pattern.Literal

/-!
# Lalr.Proofs.Description.Lexemes

The lexemes of descriptions.  The languages of the format's terminals, spelled out (`matches_iff`): each
is told by the first character, so no text is a lexeme of two terminals (`Spells.name_unique`), and only
a few characters can make a lexeme longer (`Spells.length_le`).
-/

namespace Lalr

variable {u v rest : List Char} {c d : Char}

theorem Terminal.matches_iff_of_read {t : Terminal} {p : Pattern}
    (h : (Pattern.ofString t.pattern).toOption = some p) : t.Matches u ↔ p.Matches u := by
  rw [Terminal.Matches]
  cases hread : Pattern.ofString t.pattern with
  | error e => simp [hread, Except.toOption] at h
  | ok q =>
      rw [hread] at h
      obtain rfl : q = p := Option.some.inj h
      constructor
      · intro hmatch
        obtain ⟨q', hq', hu⟩ := hmatch
        rwa [Except.ok.inj hq']
      · intro hu
        exact ⟨q, rfl, hu⟩

namespace Description

/-! ## the languages of the format's terminals -/

/-- Blanks. -/
def isBlank (c : Char) : Bool := [' ', '\t', '\r', '\n'].contains c

/-- What a name begins with. -/
def isNameStart (c : Char) : Bool := ('A' ≤ c && c ≤ 'Z') || ('a' ≤ c && c ≤ 'z') || c == '_'

/-- What is in a name. -/
def isNameChar (c : Char) : Bool :=
  ('A' ≤ c && c ≤ 'Z') || ('a' ≤ c && c ≤ 'z') || ('0' ≤ c && c ≤ '9') || c == '_' || c == '.'

/-- Names. -/
def IsName (u : List Char) : Prop :=
  ∃ c cs, u = c :: cs ∧ isNameStart c = true ∧ ∀ d ∈ cs, isNameChar d = true

theorem isName_cons_iff {cs : List Char} :
    IsName (c :: cs) ↔ isNameStart c = true ∧ cs.all isNameChar = true := by
  rw [List.all_eq_true]
  constructor
  · intro h
    obtain ⟨d, ds, heq, hstart, hmore⟩ := h
    obtain ⟨rfl, rfl⟩ := List.cons.inj heq
    exact ⟨hstart, hmore⟩
  · exact fun h => ⟨c, cs, rfl, h⟩

instance : DecidablePred IsName
  | [] => isFalse fun ⟨_, _, h, _⟩ => nomatch h
  | _ :: _ => decidable_of_iff _ isName_cons_iff.symm

/-- One character in a quoted string, or a backslash and the character behind it. -/
def IsQuoted (u : List Char) : Prop :=
  (∃ c, c ∉ ['"', '\\', '\n'] ∧ u = [c]) ∨ ∃ c, c ∉ ['\n'] ∧ u = ['\\', c]

/-- Quoted strings. -/
def IsString (u : List Char) : Prop :=
  ∃ pieces : List (List Char), (∀ p ∈ pieces, IsQuoted p) ∧ u = '"' :: (pieces.flatten ++ ['"'])

/-- Texts in braces.  The braces are balanced, and those of the text and inside it at most `n` deep. -/
def Block : Nat → List Char → Prop
  | 0, _ => False
  | n + 1, u => ∃ pieces : List (List Char),
    (∀ p ∈ pieces, (∃ c, c ∉ ['\x7b', '\x7d'] ∧ p = [c]) ∨ Block n p) ∧
      u = '\x7b' :: (pieces.flatten ++ ['\x7d'])

/-- The keywords and marks of the format, with the names of their terminals. -/
def literals : List (Symbol × String) :=
  [("GRAMMAR", "@grammar"), ("HEADER", "@header"), ("AT_START", "@start"), ("RETURNS", "@returns"),
   ("SKIP", "@skip"), ("COLON", ":"), ("SEMICOLON", ";"), ("OR", "|"), ("COMMA", ","), ("LBRACKET", "["),
   ("RBRACKET", "]")]

/-- The texts of the format's terminals. -/
inductive Spells : Symbol → List Char → Prop
  | blanks {u : List Char} (hne : u ≠ []) (h : ∀ c ∈ u, isBlank c = true) : Spells "WS" u
  | comment {body : List Char} (h : '\n' ∉ body) : Spells "COMMENT" ('#' :: body)
  | literal {e : Symbol × String} (h : e ∈ literals) : Spells e.1 e.2.toList
  | name {u : List Char} (h : IsName u) : Spells "NAME" u
  | string {u : List Char} (h : IsString u) : Spells "STRING" u
  | code {u : List Char} (h : Block 3 u) : Spells "CODE" u

/-- The terminal of blanks. -/
def blanksTerminal : Terminal := ⟨"WS", "[ \\t\\r\\n]+", true⟩

/-- The terminal of comments. -/
def commentTerminal : Terminal := ⟨"COMMENT", "#[^\\n]*", true⟩

/-- The terminal of names. -/
def nameTerminal : Terminal := ⟨"NAME", "[A-Za-z_][A-Za-z0-9_.]*", false⟩

/-- The terminal of quoted strings. -/
def stringTerminal : Terminal := ⟨"STRING", "\"(?:[^\"\\\\\\n]|\\\\.)*\"", false⟩

/-- The terminal of code blocks. -/
def codeTerminal : Terminal := ⟨"CODE", braces (braces "\\\x7b[^\x7b\x7d]*\\\x7d"), false⟩

theorem terminal_cases : ∀ t ∈ terminals, t = blanksTerminal ∨ t = commentTerminal ∨ t = nameTerminal ∨
    t = stringTerminal ∨ t = codeTerminal ∨ ∃ e ∈ literals, t = .literal e.1 e.2 false := by
  decide

theorem matches_blanks : blanksTerminal.Matches u ↔ u ≠ [] ∧ ∀ c ∈ u, isBlank c = true := by
  have hread : (Pattern.ofString blanksTerminal.pattern).toOption =
      some (.rep (.chars (Pattern.listed false [' ', '\t', '\r', '\n'])) 1 none) := by
    with_unfolding_all decide
  rw [Terminal.matches_iff_of_read hread, Pattern.matches_rep_chars_iff, Nat.succ_le_iff,
    List.length_pos_iff]
  simp only [Pattern.contains_listed, Bool.bne_false, isBlank]

theorem matches_comment : commentTerminal.Matches u ↔ ∃ body, u = '#' :: body ∧ '\n' ∉ body := by
  have hread : (Pattern.ofString commentTerminal.pattern).toOption =
      some (.seq (.single '#') (.rep (.chars (Pattern.listed true ['\n'])) 0 none)) := by
    with_unfolding_all decide
  have hbody (body : List Char) :
      (∀ c ∈ body, (Pattern.listed true ['\n']).contains c = true) ↔ '\n' ∉ body := by
    simp only [Pattern.contains_listed, Bool.bne_true, Bool.not_eq_true', Bool.eq_false_iff, ne_eq,
      List.contains_iff_mem, List.mem_singleton]
    exact ⟨fun h hmem => h _ hmem rfl, fun h c hc heq => h (heq ▸ hc)⟩
  rw [Terminal.matches_iff_of_read hread, Pattern.matches_seq_iff]
  simp only [Pattern.matches_single_iff, Pattern.matches_rep_chars_iff, hbody]
  constructor
  · intro h
    obtain ⟨_, body, rfl, ⟨-, hbody⟩, hu⟩ := h
    exact ⟨body, by rw [← hu, List.singleton_append], hbody⟩
  · intro h
    obtain ⟨body, hu, hbody⟩ := h
    exact ⟨_, body, rfl, ⟨Nat.zero_le _, hbody⟩, hu.symm⟩

theorem matches_name : nameTerminal.Matches u ↔ IsName u := by
  let start : Pattern.CharClass := ⟨false, [.between 'A' 'Z', .between 'a' 'z', .single '_'.toNat]⟩
  let more : Pattern.CharClass := ⟨false, [.between 'A' 'Z', .between 'a' 'z', .between '0' '9',
    .single '_'.toNat, .single '.'.toNat]⟩
  have hread : (Pattern.ofString nameTerminal.pattern).toOption =
      some (.seq (.chars start) (.rep (.chars more) 0 none)) := by
    with_unfolding_all decide
  have hstart (c : Char) : start.contains c = isNameStart c := by
    rw [Bool.eq_iff_iff]
    simp [-Char.reduceToNat, start, Pattern.CharClass.contains, Pattern.contains_between_iff,
      Pattern.contains_single_iff, isNameStart, or_assoc]
  have hmore (c : Char) : more.contains c = isNameChar c := by
    rw [Bool.eq_iff_iff]
    simp [-Char.reduceToNat, more, Pattern.CharClass.contains, Pattern.contains_between_iff,
      Pattern.contains_single_iff, isNameChar, or_assoc]
  rw [Terminal.matches_iff_of_read hread, Pattern.matches_seq_iff]
  simp only [Pattern.matches_chars_iff, Pattern.matches_rep_chars_iff, hstart, hmore]
  constructor
  · intro h
    obtain ⟨_, cs, ⟨c, hc, rfl⟩, ⟨-, hcs⟩, hu⟩ := h
    exact ⟨c, cs, by rw [← hu, List.singleton_append], hc, hcs⟩
  · intro h
    obtain ⟨c, cs, hu, hc, hcs⟩ := h
    exact ⟨[c], cs, ⟨c, hc, rfl⟩, ⟨Nat.zero_le _, hcs⟩, hu.symm⟩

theorem matches_string : stringTerminal.Matches u ↔ IsString u := by
  have hread : (Pattern.ofString stringTerminal.pattern).toOption = some (.enclosed '"' '"'
      (.alt (.chars (Pattern.listed true ['"', '\\', '\n']))
        (.seq (.single '\\') (.chars (Pattern.listed true ['\n']))))) := by with_unfolding_all decide
  rw [Terminal.matches_iff_of_read hread, Pattern.matches_enclosed_iff, IsString]
  refine exists_congr fun pieces => and_congr_left fun _ => forall₂_congr fun p _ => ?_
  rw [Pattern.matches_alt_iff, Pattern.matches_noneOf_iff, Pattern.matches_seq_iff, IsQuoted]
  simp only [Pattern.matches_single_iff, Pattern.matches_noneOf_iff]
  refine or_congr_right ⟨?_, ?_⟩
  · rintro ⟨_, _, rfl, ⟨c, hc, rfl⟩, rfl⟩
    exact ⟨c, hc, rfl⟩
  · rintro ⟨c, hc, rfl⟩
    exact ⟨_, _, rfl, ⟨c, hc, rfl⟩, rfl⟩

/-- The pattern of a block at most so deep. -/
def blockPattern : Nat → Pattern
  | 0 => .enclosed '\x7b' '\x7d' (.chars (Pattern.listed true ['\x7b', '\x7d']))
  | n + 1 => .enclosed '\x7b' '\x7d'
    (.alt (.chars (Pattern.listed true ['\x7b', '\x7d'])) (blockPattern n))

theorem matches_blockPattern {n : Nat} : (blockPattern n).Matches u ↔ Block (n + 1) u := by
  induction n generalizing u with
  | zero => simp [blockPattern, Pattern.matches_enclosed_iff, Pattern.matches_noneOf_iff, Block]
  | succ n ih =>
      rw [blockPattern, Pattern.matches_enclosed_iff, Block]
      simp only [Pattern.matches_alt_iff, Pattern.matches_noneOf_iff, ih]

theorem matches_code : codeTerminal.Matches u ↔ Block 3 u := by
  have hread : (Pattern.ofString codeTerminal.pattern).toOption = some (blockPattern 2) := by
    with_unfolding_all decide
  rw [Terminal.matches_iff_of_read hread, matches_blockPattern]

theorem Spells.exists_matches {n : Symbol} (h : Spells n u) :
    ∃ t ∈ terminals, t.name = n ∧ t.Matches u := by
  have hspecial : blanksTerminal ∈ terminals ∧ commentTerminal ∈ terminals ∧ nameTerminal ∈ terminals ∧
      stringTerminal ∈ terminals ∧ codeTerminal ∈ terminals := by decide
  have hliteral : ∀ e ∈ literals, Terminal.literal e.1 e.2 false ∈ terminals := by decide
  obtain ⟨hblanks, hcomment, hname, hstring, hcode⟩ := hspecial
  cases h with
  | blanks hne h => exact ⟨_, hblanks, rfl, matches_blanks.2 ⟨hne, h⟩⟩
  | comment h => exact ⟨_, hcomment, rfl, matches_comment.2 ⟨_, rfl, h⟩⟩
  | literal h => exact ⟨_, hliteral _ h, rfl, Pattern.matches_literal_iff.2 rfl⟩
  | name h => exact ⟨_, hname, rfl, matches_name.2 h⟩
  | string h => exact ⟨_, hstring, rfl, matches_string.2 h⟩
  | code h => exact ⟨_, hcode, rfl, matches_code.2 h⟩

theorem eq_of_name_eq : ∀ t ∈ terminals, ∀ t' ∈ terminals, t.name = t'.name → t = t' := by
  decide

/-- The texts that a terminal matches. -/
theorem matches_iff {t : Terminal} (ht : t ∈ terminals) : t.Matches u ↔ Spells t.name u := by
  constructor
  · intro h
    rcases terminal_cases t ht with rfl | rfl | rfl | rfl | rfl | ⟨e, he, rfl⟩
    · obtain ⟨hne, hall⟩ := matches_blanks.1 h
      exact .blanks hne hall
    · obtain ⟨body, rfl, hbody⟩ := matches_comment.1 h
      exact .comment hbody
    · exact .name (matches_name.1 h)
    · exact .string (matches_string.1 h)
    · exact .code (matches_code.1 h)
    · rw [Pattern.matches_literal_iff.1 h]
      exact .literal he
  · intro h
    obtain ⟨t', ht', hname, hmatch⟩ := h.exists_matches
    rwa [← eq_of_name_eq t' ht' t ht hname]

theorem spells_blanks_iff : Spells "WS" u ↔ u ≠ [] ∧ ∀ c ∈ u, isBlank c = true := by
  have hmem : blanksTerminal ∈ terminals := by decide
  exact (matches_iff hmem).symm.trans matches_blanks

theorem spells_comment_iff : Spells "COMMENT" u ↔ ∃ body, u = '#' :: body ∧ '\n' ∉ body := by
  have hmem : commentTerminal ∈ terminals := by decide
  exact (matches_iff hmem).symm.trans matches_comment

theorem spells_name_iff : Spells "NAME" u ↔ IsName u := by
  have hmem : nameTerminal ∈ terminals := by decide
  exact (matches_iff hmem).symm.trans matches_name

theorem spells_string_iff : Spells "STRING" u ↔ IsString u := by
  have hmem : stringTerminal ∈ terminals := by decide
  exact (matches_iff hmem).symm.trans matches_string

theorem spells_code_iff : Spells "CODE" u ↔ Block 3 u := by
  have hmem : codeTerminal ∈ terminals := by decide
  exact (matches_iff hmem).symm.trans matches_code

theorem spells_literal_iff {e : Symbol × String} (he : e ∈ literals) : Spells e.1 u ↔ u = e.2.toList := by
  have hmem : ∀ e ∈ literals, Terminal.literal e.1 e.2 false ∈ terminals := by decide
  exact (matches_iff (hmem e he)).symm.trans Pattern.matches_literal_iff

/-! ## no text is a lexeme of two terminals -/

/-- The terminal of the texts that begin with a character, if that is not a keyword or a mark. -/
def lead? (c : Char) : Option Symbol :=
  if isBlank c then some "WS" else if c = '#' then some "COMMENT" else if c = '"' then some "STRING"
  else if c = '\x7b' then some "CODE" else if isNameStart c then some "NAME" else none

theorem lead?_of_isBlank (h : isBlank c = true) : lead? c = some "WS" := if_pos h

theorem lead?_of_isNameStart (h : isNameStart c = true) : lead? c = some "NAME" := by
  have hblank : ¬ isBlank c = true := by
    have hnone : [' ', '\t', '\r', '\n'].any isNameStart = false := by decide
    exact fun hblank => List.any_eq_false.1 hnone c (by simpa [isBlank] using hblank) h
  have hne {d : Char} (hd : isNameStart d = false) : c ≠ d := by
    rintro rfl
    rw [h] at hd
    contradiction
  rw [lead?, if_neg hblank, if_neg (hne (by decide)), if_neg (hne (by decide)), if_neg (hne (by decide)),
    if_pos h]

/-- The first character tells the terminal, or that the text is a keyword or a mark. -/
theorem Spells.exists_lead {n : Symbol} (h : Spells n u) : ∃ c cs, u = c :: cs ∧
    (lead? c = some n ∨ lead? c = none ∧ ∃ e ∈ literals, n = e.1 ∧ u = e.2.toList) := by
  have hliteral : ∀ e ∈ literals, e.2.toList.head?.map lead? = some none := by decide
  cases h with
  | blanks hne h =>
      obtain ⟨c, cs, rfl⟩ := List.exists_cons_of_ne_nil hne
      exact ⟨c, cs, rfl, .inl (lead?_of_isBlank (h c List.mem_cons_self))⟩
  | comment h => exact ⟨_, _, rfl, .inl rfl⟩
  | @literal e h =>
      obtain ⟨c, hc, hlead⟩ := Option.map_eq_some_iff.1 (hliteral e h)
      obtain ⟨cs, hcs⟩ := List.head?_eq_some_iff.1 hc
      exact ⟨c, cs, hcs, .inr ⟨hlead, e, h, rfl, rfl⟩⟩
  | name h =>
      obtain ⟨c, cs, rfl, hc, -⟩ := h
      exact ⟨c, cs, rfl, .inl (lead?_of_isNameStart hc)⟩
  | string h =>
      obtain ⟨pieces, -, rfl⟩ := h
      exact ⟨_, _, rfl, .inl rfl⟩
  | code h =>
      obtain ⟨pieces, -, rfl⟩ := h
      exact ⟨_, _, rfl, .inl rfl⟩

theorem Spells.ne_nil {n : Symbol} (h : Spells n u) : u ≠ [] := by
  obtain ⟨c, cs, rfl, -⟩ := h.exists_lead
  exact List.cons_ne_nil c cs

/-- Texts that begin with the same character belong to the same terminal, or are keywords or marks. -/
theorem Spells.same_lead {n n' : Symbol} {us vs : List Char} (h : Spells n (c :: us)) (h' : Spells n' (c :: vs)) :
    n = n' ∨ (∃ e ∈ literals, n = e.1 ∧ c :: us = e.2.toList) ∧
      ∃ e ∈ literals, n' = e.1 ∧ c :: vs = e.2.toList := by
  obtain ⟨d, ds, heq, hd⟩ := h.exists_lead
  obtain ⟨d', ds', heq', hd'⟩ := h'.exists_lead
  obtain rfl := (List.cons.inj heq).1
  obtain rfl := (List.cons.inj heq').1
  rcases hd with hd | ⟨hd, he⟩ <;> rcases hd' with hd' | ⟨hd', he'⟩
  · exact .inl (Option.some.inj (hd.symm.trans hd'))
  · exact absurd (hd.symm.trans hd') nofun
  · exact absurd (hd.symm.trans hd') nofun
  · exact .inr ⟨he, he'⟩

/-- No text is a lexeme of two terminals. -/
theorem Spells.name_unique {n n' : Symbol} (h : Spells n u) (h' : Spells n' u) : n = n' := by
  have hliterals : ∀ e ∈ literals, ∀ e' ∈ literals, e.2.toList = e'.2.toList → e.1 = e'.1 := by
    decide
  obtain ⟨c, cs, rfl, -⟩ := h.exists_lead
  rcases h.same_lead h' with hsame | ⟨⟨e, he, rfl, hu⟩, e', he', rfl, hu'⟩
  · exact hsame
  · exact hliterals e he e' he' (hu.symm.trans hu')

theorem firstMatch_of_spells {t : Terminal} (ht : t ∈ terminals) (h : Spells t.name u) :
    FirstMatch terminals u t := by
  obtain ⟨before, after, hsplit⟩ := List.append_of_mem ht
  refine ⟨before, after, hsplit, (matches_iff ht).2 h, fun t' ht' hmatch => ?_⟩
  have hmem : t' ∈ terminals := hsplit ▸ List.mem_append_left _ ht'
  have hname := ((matches_iff hmem).1 hmatch).name_unique h
  obtain rfl := eq_of_name_eq t' hmem t ht hname
  have hnodup : terminals.Nodup := by decide
  rw [hsplit] at hnodup
  exact (List.nodup_append.1 hnodup).2.2 t' ht' t' List.mem_cons_self rfl

/-! ## how far a lexeme goes -/

/-- Languages in which no text is a beginning of another. -/
def PrefixFree (L : List Char → Prop) : Prop := ∀ u v r r', L u → L v → u ++ r = v ++ r' → u = v

/-- So it is for pieces between two characters, if it is for the pieces and none begins like the end. -/
theorem prefixFree_enclosed {a b : Char} {L : List Char → Prop} (h : PrefixFree L)
    (hb : ∀ p, L p → ∃ c cs, p = c :: cs ∧ c ≠ b) : PrefixFree fun u =>
      ∃ pieces : List (List Char), (∀ p ∈ pieces, L p) ∧ u = a :: (pieces.flatten ++ [b]) := by
  rintro _ _ r r' ⟨ps, hps, rfl⟩ ⟨qs, hqs, rfl⟩ heq
  replace heq : ps.flatten ++ b :: r = qs.flatten ++ b :: r' := by simpa using heq
  suffices hsame : ps = qs by rw [hsame]
  have hend (q : List Char) (hq : L q) {more r r' : List Char} : b :: r ≠ q ++ more ++ r' := by
    obtain ⟨c, cs, rfl, hc⟩ := hb q hq
    exact fun h => hc (List.cons.inj h).1.symm
  induction ps generalizing qs with
  | nil =>
      cases qs with
      | nil => rfl
      | cons q qs => exact absurd heq (hend q (hqs q List.mem_cons_self))
  | cons p ps ih =>
      obtain ⟨hp, hps⟩ := List.forall_mem_cons.1 hps
      cases qs with
      | nil => exact absurd heq.symm (hend p hp)
      | cons q qs =>
          obtain ⟨hq, hrest⟩ := List.forall_mem_cons.1 hqs
          rw [List.flatten_cons, List.flatten_cons, List.append_assoc, List.append_assoc] at heq
          obtain rfl := h p q _ _ hp hq heq
          rw [ih hps qs hrest (List.append_cancel_left heq)]

theorem prefixFree_string : PrefixFree IsString := by
  refine prefixFree_enclosed ?_ ?_
  · rintro _ _ r r' (⟨c, hc, rfl⟩ | ⟨c, -, rfl⟩) (⟨d, hd, rfl⟩ | ⟨d, -, rfl⟩) heq
    · rw [(List.cons.inj heq).1]
    · exact absurd (List.cons.inj heq).1 fun h => hc (by simp [h])
    · exact absurd (List.cons.inj heq).1.symm fun h => hd (by simp [h])
    · rw [(List.cons.inj (List.cons.inj heq).2).1]
  · rintro _ (⟨c, hc, rfl⟩ | ⟨c, -, rfl⟩)
    · exact ⟨c, [], rfl, fun h => hc (by simp [h])⟩
    · exact ⟨_, _, rfl, by decide⟩

theorem prefixFree_block (n : Nat) : PrefixFree (Block n) := by
  induction n with
  | zero => exact fun _ _ _ _ h => h.elim
  | succ n ih =>
      have hopen {u : List Char} (h : Block n u) : ∃ cs, u = '\x7b' :: cs := by
        cases n with
        | zero => exact h.elim
        | succ n =>
            obtain ⟨pieces, -, rfl⟩ := h
            exact ⟨_, rfl⟩
      refine prefixFree_enclosed ?_ ?_
      · rintro u v r r' (⟨c, hc, rfl⟩ | hu) (⟨d, hd, rfl⟩ | hv) heq
        · rw [(List.cons.inj heq).1]
        · obtain ⟨cs, rfl⟩ := hopen hv
          exact absurd (List.cons.inj heq).1 fun h => hc (by simp [h])
        · obtain ⟨cs, rfl⟩ := hopen hu
          exact absurd (List.cons.inj heq).1.symm fun h => hd (by simp [h])
        · exact ih u v r r' hu hv heq
      · rintro p (⟨c, hc, rfl⟩ | hp)
        · exact ⟨c, [], rfl, fun h => hc (by simp [h])⟩
        · obtain ⟨cs, rfl⟩ := hopen hp
          exact ⟨_, cs, rfl, by decide⟩

/-- Whether a character would make the lexemes of a terminal longer. -/
def continues (n : Symbol) (c : Char) : Bool :=
  if n = "WS" then isBlank c else if n = "COMMENT" then c != '\n' else if n = "NAME" then isNameChar c
  else false

/-- A text all of whose characters have a property goes no further than a text that ends where the
property does. -/
theorem length_le_of_forall {p : Char → Bool} (hv : ∀ c ∈ v, p c = true)
    (hrest : ∀ c ∈ rest.head?, p c = false) (h : v <+: u ++ rest) : v.length ≤ u.length := by
  by_contra hlt
  obtain ⟨more, hmore⟩ := h
  obtain ⟨w, rfl, hw⟩ : ∃ w, v = u ++ w ∧ w ++ more = rest := by
    rcases List.append_eq_append_iff.1 hmore with ⟨w, rfl, hw⟩ | ⟨w, hu, hw⟩
    · simp at hlt
    · exact ⟨w, hu, hw.symm⟩
  cases w with
  | nil => simp at hlt
  | cons c w =>
      rw [← hw] at hrest
      have hc := hv c (by simp)
      rw [hrest c rfl] at hc
      contradiction

theorem PrefixFree.length_le {L : List Char → Prop} (h : PrefixFree L) (hu : L u) (hv : L v)
    (hbegins : v <+: u ++ rest) : v.length ≤ u.length := by
  obtain ⟨more, hmore⟩ := hbegins
  rw [h u v rest more hu hv hmore.symm]

/-- Lexemes of a terminal go no further than the first character that does not continue them. -/
theorem Spells.length_le_of_same {n : Symbol} (h : Spells n u) (h' : Spells n v)
    (hrest : ∀ c ∈ rest.head?, continues n c = false) (hbegins : v <+: u ++ rest) :
    v.length ≤ u.length := by
  cases h with
  | blanks => exact length_le_of_forall (spells_blanks_iff.1 h').2 hrest hbegins
  | @comment body _ =>
      obtain ⟨body', rfl, hbody'⟩ := spells_comment_iff.1 h'
      refine Nat.succ_le_succ (length_le_of_forall (p := (· != '\n')) (fun c hc => ?_) hrest
        (List.cons_prefix_cons.1 hbegins).2)
      simpa using ne_of_mem_of_not_mem hc hbody'
  | literal he => rw [(spells_literal_iff he).1 h']
  | name =>
      obtain ⟨c, cs, rfl, hc, hcs⟩ := spells_name_iff.1 h'
      have hchar : isNameChar c = true := by
        simp only [isNameStart, isNameChar, Bool.or_eq_true] at hc ⊢
        tauto
      exact length_le_of_forall (List.forall_mem_cons.2 ⟨hchar, hcs⟩) hrest hbegins
  | string h => exact prefixFree_string.length_le h (spells_string_iff.1 h') hbegins
  | code h => exact (prefixFree_block 3).length_le h (spells_code_iff.1 h') hbegins

/-- Nothing longer than a lexeme stands ahead of a character that does not continue it. -/
theorem Spells.length_le {n n' : Symbol} (h : Spells n u) (h' : Spells n' v)
    (hrest : ∀ c ∈ rest.head?, continues n c = false) (hbegins : v <+: u ++ rest) :
    v.length ≤ u.length := by
  have hliterals : ∀ e ∈ literals, ∀ e' ∈ literals, e.2.toList <+: e'.2.toList → e = e' := by
    decide
  obtain ⟨c, us, rfl, -⟩ := h.exists_lead
  obtain ⟨d, vs, rfl, -⟩ := h'.exists_lead
  obtain rfl : d = c := (List.cons_prefix_cons.1 hbegins).1
  rcases h.same_lead h' with rfl | ⟨⟨e, he, -, hu⟩, e', he', -, hv⟩
  · exact h.length_le_of_same h' hrest hbegins
  · rcases List.prefix_or_prefix_of_prefix hbegins (List.prefix_append (d :: us) rest) with hle | hle
    · exact hle.length_le
    · rw [hu, hv] at hle
      rw [hu, hv, hliterals e he e' he' hle]

/-- A text of a terminal is the longest lexeme ahead of a character that does not continue it. -/
theorem Spells.longestLexeme {n : Symbol} (h : Spells n u)
    (hrest : ∀ c ∈ rest.head?, continues n c = false) : LongestLexeme terminals (u ++ rest) u where
  isLexeme := by
    obtain ⟨t, ht, -, hmatch⟩ := h.exists_matches
    exact ⟨h.ne_nil, t, ht, hmatch⟩
  begins := List.prefix_append u rest
  longest := by
    rintro v ⟨-, t, ht, hmatch⟩ hbegins
    exact h.length_le ((matches_iff ht).1 hmatch) hrest hbegins

end Description

end Lalr
