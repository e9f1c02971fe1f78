import Lalr.Code.Rendering
import Lalr.Proofs.Code.Lexes
import Lalr.Proofs.Code.Placeholder
import Lalr.Proofs.Code.Quoting
import Lalr.Proofs.Text.Digit
import Lalr.Proofs.Text.Margin

/-!
# Lalr.Proofs.Code.Rendered

The lexemes of a rendered function.  The name of the function, its parameters and what it returns are read as
they are meant, the production is a comment, and an expression between the brackets of the body has the lexemes
that it has by itself, but for line ends and blocks (`blockLexemes_renderAction`).
-/

namespace Lalr.Code

open Text (Plain Spread plainNewlines)

variable {blocks : List Margin} {closers r s w rest : List Char} {L Lt : List Lexeme} {c d : Char} {t : Lexeme}

/-! ## names -/

/-- The characters of the names that rendering makes up. -/
def nameChars : List Char := "0123456789action_".toList

/-- A name that rendering makes up. -/
def MadeUp (w : List Char) : Prop := ∃ w', w = '_' :: w' ∧ ∀ c ∈ w', c ∈ nameChars

theorem mem_nameChars_of_isDigit (h : c.isDigit = true) : c ∈ nameChars := by
  obtain ⟨d, hd, -, rfl⟩ := Text.digit_of_isDigit h
  have hall : ∀ d < 10, Nat.digitChar d ∈ nameChars := by decide
  exact hall d hd

theorem toList_toString (i : Nat) : (toString i).toList = Nat.toDigits 10 i := by
  rw [Nat.toString_eq_ofList_toDigits, String.toList_ofList]

theorem mem_nameChars_of_mem_toDigits {i : Nat} (h : c ∈ Nat.toDigits 10 i) : c ∈ nameChars :=
  mem_nameChars_of_isDigit (Nat.isDigit_of_mem_toDigits (by decide) (by decide) h)

theorem madeUp_parameterName (i : Nat) : MadeUp (parameterName i).toList := by
  refine ⟨Nat.toDigits 10 i, ?_, fun c => mem_nameChars_of_mem_toDigits⟩
  rw [parameterName, String.toList_append, toList_toString]
  rfl

theorem madeUp_functionName (i : Nat) : MadeUp (functionName i).toList := by
  refine ⟨"action_".toList ++ Nat.toDigits 10 i, ?_, fun c hc => ?_⟩
  · rw [functionName, String.toList_append, toList_toString]
    rfl
  · have hfront : ∀ c ∈ "action_".toList, c ∈ nameChars := by decide
    exact (List.mem_append.1 hc).elim (hfront c) mem_nameChars_of_mem_toDigits

/-- A name that rendering makes up is a name, of the characters that it is written with. -/
theorem MadeUp.wordLexeme (h : MadeUp w) : wordLexeme w = some (.name (String.ofList w)) := by
  obtain ⟨w, rfl, hw⟩ := h
  have hcontinue {c : Char} (hc : Text.within [(0x30, 0x39), (0x61, 0x7a), (0x5f, 0x5f)] c = true) :
      Text.isIdentifierContinue c = true :=
    Text.within_of_subset (by decide +kernel) hc
  have hall : ∀ c ∈ '_' :: nameChars,
      Text.within [(0x30, 0x39), (0x61, 0x7a), (0x5f, 0x5f)] c = true ∧ plainDigit c = c := by
    decide +kernel
  have hchars : ∀ c ∈ '_' :: w, Text.isIdentifierContinue c = true ∧ plainDigit c = c := by
    intro c hc
    have hmem : c ∈ '_' :: nameChars := by
      rcases List.mem_cons.1 hc with rfl | hc
      · exact List.mem_cons_self
      · exact List.mem_cons_of_mem _ (hw c hc)
    exact ⟨hcontinue (hall c hmem).1, (hall c hmem).2⟩
  have hkeyword : ¬ keywords.contains (String.ofList ('_' :: w)) = true := by
    intro hmem
    have hnone : ∀ word ∈ keywords, word.toList.head? ≠ some '_' := by decide
    exact hnone _ (List.contains_iff_mem.1 hmem) (by simp)
  have hidentifier : Text.isIdentifier ('_' :: w) = true := by
    rw [Text.isIdentifier, Bool.and_eq_true, List.all_eq_true]
    exact ⟨by decide, fun c hc => (hchars c (List.mem_cons_of_mem _ hc)).1⟩
  have hsame : ('_' :: w).map plainDigit = '_' :: w :=
    (List.map_congr_left fun c hc => (hchars c hc).2).trans (List.map_id _)
  rw [Code.wordLexeme, if_neg hkeyword, if_pos hidentifier, hsame]

theorem MadeUp.isWordPart (h : MadeUp w) : ∀ c ∈ w, isWordPart c = true := by
  obtain ⟨w, rfl, hw⟩ := h
  have hall : ∀ c ∈ '_' :: nameChars, Code.isWordPart c = true := by decide
  exact List.forall_mem_cons.2 ⟨rfl, fun c hc => hall c (List.mem_cons_of_mem _ (hw c hc))⟩

/-! ## lexemes one by one -/

/-- What stands behind the words and the texts of rendered code. -/
def wordEnds : List Char := [' ', '(', ')', ',', ':', '=', ']', '\x7d', '\n']

/-- A word is a lexeme if it ends where it should. -/
theorem Lexes.word (hword : wordLexeme w = some t) (hw : ∀ c ∈ w, isWordPart c = true)
    (hne : w.head?.any (! ·.isDigit)) (hd : d ∈ wordEnds) (h : Lexes blocks closers false (d :: rest) L) :
    Lexes blocks closers false (w ++ d :: rest) (t :: L) := by
  have hend : ∀ d ∈ wordEnds, isWordPart d = false ∧ d ≠ '\'' ∧ d ≠ '"' := by decide
  obtain ⟨hpart, hsingle, hdouble⟩ := hend d hd
  cases w with
  | nil => contradiction
  | cons c w =>
      have hc : isWordPart c = true := hw c List.mem_cons_self
      have hclass : ∀ c ∈ special ++ ['\'', '"', '.'], isWordPart c = false := by decide
      have hnot {x : Char} (hx : x ∈ special ++ ['\'', '"', '.']) : c ≠ x := by
        rintro rfl
        exact absurd (hclass c hx) (by simp [hc])
      have hdigit : c.isDigit = false := by simpa using hne
      have hnumber (s : List Char) : opensNumber c s = false := by
        rw [opensNumber, hdigit, decide_eq_false (hnot (by decide))]
        rfl
      have hquote : ¬ (c = '\'' ∨ c = '"') := not_or.2 ⟨hnot (by decide), hnot (by decide)⟩
      rw [List.cons_append]
      refine .lexeme (fun hmem => hnot (List.mem_append_left _ hmem) rfl) ?_ h
      have hread := readWord_append hw (r := d :: rest) (by simpa using hpart)
      rw [List.cons_append] at hread
      refine (readLexeme_word hquote (hnumber _) hc closers).trans ?_
      rw [hread, wordBefore_name, hword]
      · rfl
      · rintro q hq (rfl | rfl)
        · exact absurd (Option.some.inj hq) hsingle
        · exact absurd (Option.some.inj hq) hdouble

theorem Lexes.name (hw : MadeUp w) (hd : d ∈ wordEnds) (h : Lexes blocks closers false (d :: rest) L) :
    Lexes blocks closers false (w ++ d :: rest) (.name (String.ofList w) :: L) := by
  refine .word hw.wordLexeme hw.isWordPart ?_ hd h
  obtain ⟨w, rfl, -⟩ := hw
  rfl

/-- A text between quotes is a lexeme if it ends where it should. -/
theorem Lexes.quoted (s : List Char) (hd : d ∈ wordEnds) (h : Lexes blocks closers false (d :: rest) L) :
    Lexes blocks closers false (Text.quoteChars s ++ d :: rest)
      (.text ⟨false, false, false⟩ (String.ofList s) :: L) := by
  have hend : ∀ d ∈ wordEnds, d ≠ '\'' ∧ d ≠ '"' := by decide
  obtain ⟨hsingle, hdouble⟩ := hend d hd
  have hq := Text.quoteFor_eq s
  rw [Text.quoteChars, List.cons_append, List.cons_append, List.append_assoc, List.singleton_append]
  refine .lexeme ?_ ?_ h
  · rcases hq with hq | hq <;> rw [hq] <;> decide
  · rw [readLexeme_text hq, readText_escaped hq]
    · rfl
    · rcases hq with hq | hq <;> rw [hq]
      · exact fun h => hsingle (Option.some.inj h)
      · exact fun h => hdouble (Option.some.inj h)

/-- The brackets, each with what closes it. -/
def brackets : List (Char × Char) := [('(', ')'), ('[', ']'), ('\x7b', '\x7d')]

theorem round_mem_brackets : ('(', ')') ∈ brackets := List.mem_cons_self

/-- A bracket can be opened unless too many are open. -/
theorem Lexes.opened {opener close : Char} (hb : (opener, close) ∈ brackets) (hdepth : closers.length < 200)
    (h : Lexes blocks (close :: closers) false rest L) :
    Lexes blocks closers false (opener :: rest) (.sign (String.ofList [opener]) :: L) := by
  have hchange : changeBrackets closers [opener] = some (close :: closers) := by
    simp only [brackets, List.mem_cons, Prod.mk.injEq, List.not_mem_nil, or_false] at hb
    rcases hb with ⟨rfl, rfl⟩ | ⟨rfl, rfl⟩ | ⟨rfl, rfl⟩ <;> exact if_pos hdepth
  have hread : readLexeme closers opener rest = (changeBrackets closers [opener]).bind fun closers =>
      some (.sign (String.ofList [opener]), rest, closers) := by
    simp only [brackets, List.mem_cons, Prod.mk.injEq, List.not_mem_nil, or_false] at hb
    rcases hb with ⟨rfl, rfl⟩ | ⟨rfl, rfl⟩ | ⟨rfl, rfl⟩ <;> rfl
  have hspecial : ∀ b ∈ brackets, b.1 ∉ special := by decide
  rw [hchange, Option.bind_some] at hread
  exact .lexeme (hspecial _ hb) hread h

/-- The brackets that close. -/
def closingBrackets : List Char := [')', ']', '\x7d']

theorem Lexes.closed {close : Char} (hclose : close ∈ closingBrackets) (h : Lexes blocks closers false rest L) :
    Lexes blocks (close :: closers) false (close :: rest) (.sign (String.ofList [close]) :: L) := by
  simp only [closingBrackets, List.mem_cons, List.not_mem_nil, or_false] at hclose
  rcases hclose with rfl | rfl | rfl <;> exact .lexeme (by decide) rfl h

/-! ## the first line -/

/-- The lexemes of names with commas between. -/
def nameLexemes (names : List (List Char)) : List Lexeme :=
  List.intercalate [.sign ","] (names.map fun w => [.name (String.ofList w)])

theorem lexes_names {names : List (List Char)} (hnames : ∀ w ∈ names, MadeUp w)
    (h : Lexes blocks [')'] false (')' :: rest) L) :
    Lexes blocks [')'] false (List.intercalate [',', ' '] names ++ ')' :: rest) (nameLexemes names ++ L) := by
  induction names with
  | nil => exact h
  | cons w names ih =>
      obtain ⟨hw, hnames⟩ := List.forall_mem_cons.1 hnames
      cases names with
      | nil =>
          rw [List.intercalate_singleton]
          exact .name hw (by decide) h
      | cons w' names =>
          have hrest := ih hnames
          rw [List.intercalate_cons_cons, List.append_assoc, List.append_assoc]
          exact .name hw (by decide) (.lexeme (by decide) rfl (.blank (.inl rfl) hrest))

/-- The lexemes of the first line of the function of a production. -/
def headLexemes (index : Nat) (r : Rule) : List Lexeme :=
  [.keyword "def", .name (functionName index), .sign "("] ++
    nameLexemes ((List.range r.production.length).map fun i => (parameterName i).toList) ++
    [.sign ")", .sign "->", .text ⟨false, false, false⟩ r.returns, .sign ":"]

theorem headLine_eq (index : Nat) (r : Rule) : headLine index r = "def".toList ++ ' ' ::
    ((functionName index).toList ++ '(' ::
      (List.intercalate [',', ' '] ((List.range r.production.length).map fun i => (parameterName i).toList) ++
        ')' :: ' ' :: '-' :: '>' :: ' ' :: (Text.quoteChars r.returns.toList ++ [':']))) := by
  simp only [headLine, String.toList_append, String.toList_intercalate, List.map_map, Text.quote,
    String.toList_ofList, List.append_assoc]
  rfl

theorem lexes_headLine (index : Nat) (r : Rule) (h : Lexes [] [] true rest L) :
    Lexes [] [] true (headLine index r ++ '\n' :: rest) (headLexemes index r ++ .newline :: L) := by
  have hdef : wordLexeme "def".toList = some (.keyword "def") := by decide
  have hnames : ∀ w ∈ (List.range r.production.length).map fun i => (parameterName i).toList, MadeUp w := by
    intro w hw
    obtain ⟨i, -, rfl⟩ := List.mem_map.1 hw
    exact madeUp_parameterName i
  have hcolon : Lexes [] [] false (':' :: '\n' :: rest) (.sign ":" :: .newline :: L) :=
    .lexeme (by decide) rfl (.newline h)
  have htext := (hcolon.quoted r.returns.toList (by decide)).blank (.inl rfl)
  have harrow : Lexes [] [] false ('-' :: '>' :: ' ' :: _) (.sign "->" :: _) :=
    .lexeme (by decide) rfl htext
  have hparameters := lexes_names hnames ((harrow.blank (.inl rfl)).closed (by decide))
  have hfunction := Lexes.name (madeUp_functionName index) (by decide) (hparameters.opened round_mem_brackets (by decide))
  have hline := Lexes.word hdef (by decide) (by decide) (by decide) (hfunction.blank (.inl rfl))
  rw [String.ofList_toList, String.ofList_toList] at hline
  simp only [headLine_eq, headLexemes, List.append_assoc, List.cons_append, List.nil_append] at hline ⊢
  have hsame : changeBlocks ⟨0, 0⟩ [] = some ([], []) := rfl
  exact .line rfl (by decide) hsame hline

/-! ## the body -/

/-- A comment line has no lexemes. -/
theorem lexes_commentLine {text : List Char} (htext : '\n' ∉ text) (h : Lexes [] [] true rest L) :
    Lexes [] [] true ("    # ".toList ++ text ++ '\n' :: rest) L := by
  have hskip : skipComment (' ' :: text ++ '\n' :: rest) = '\n' :: rest := by
    have hall : ∀ c ∈ ' ' :: text, decide (c ≠ '\n') = true :=
      List.forall_mem_cons.2 ⟨by decide, fun c hc => decide_eq_true fun h => htext (h ▸ hc)⟩
    rw [skipComment, List.dropWhile_append_of_pos hall]
    rfl
  have hmargin : readMargin ⟨0, 0⟩ 0 ("    # ".toList ++ text ++ '\n' :: rest) =
      (⟨4, 4⟩, '#' :: (' ' :: text ++ '\n' :: rest)) := rfl
  refine .commentLine hmargin ?_
  rw [hskip]
  exact .blankLine rfl h

/-- The lexemes of the body of a function that gives an expression. -/
def bodyLexemes (L : List Lexeme) : List Lexeme :=
  [.indent, .keyword "return", .sign "("] ++ L.filter (!·.isLayout) ++ [.sign ")", .newline, .dedent]

theorem lexes_body {s' : List Char} (h : Lexes [] [] true s L) (hs : Spread s s')
    (htexts : ∀ x ∈ quotedTexts s, Plain x) (hdepth : deepest 0 L < 200) (k j : Nat) :
    Lexes [] [] true ("    return (\n".toList ++ (List.replicate k ' ' ++ s') ++
      '\n' :: (List.replicate j ' ' ++ [')', '\n'])) (bodyLexemes L) := by
  have hreturn : wordLexeme "return".toList = some (.keyword "return") := by decide
  have hdone : Lexes [⟨4, 4⟩] [] true [] [.dedent] := .done (m := ⟨0, 0⟩) rfl
  have hclose : Lexes [⟨4, 4⟩] [')'] false ('\n' :: (List.replicate j ' ' ++ [')', '\n']))
      [.sign ")", .newline, .dedent] :=
    .joined (by decide) ((hdone.newline.closed (by decide)).spaces j)
  have hinside := (h.inside hs htexts hdepth hclose).spaces k
  have hopen := (hinside.joined (by decide)).opened round_mem_brackets (by decide)
  have hline := Lexes.word hreturn (by decide) (by decide) (by decide) (hopen.blank (.inl rfl))
  have hindent : changeBlocks ⟨4, 4⟩ [] = some ([.indent], [⟨4, 4⟩]) := rfl
  have hall := Lexes.line (s := "    ".toList ++ ("return".toList ++ ' ' :: _)) rfl (by decide) hindent hline
  simpa [bodyLexemes] using hall

/-! ## the text of the body -/

theorem margin_eq : margin = List.replicate 4 ' ' := by decide

theorem getLast?_substituted (code : String) : (substituted code).getLast? ≠ some '\r' := by
  intro h
  rw [substituted, Placeholder.getLast?_substitute] at h
  exact absurd (Text.getLast?_trim h) (by decide)

/-- The body of the function for an expression is the expression between brackets, spread over its lines. -/
theorem exists_spread_bodyOf {e : List Char} (h : (readExpr e).isSome) (hlast : e.getLast? ≠ some '\r') :
    ∃ k j u, Spread (plainNewlines e) u ∧
      plainNewlines (Text.indent margin (bodyOf e)) =
        "    return (\n".toList ++ (List.replicate k ' ' ++ u) ++ '\n' :: (List.replicate j ' ' ++ [')']) := by
  have hbody : bodyOf e = "return (\n".toList ++ (Text.indent margin e ++ "\n)".toList) := by
    have hex : Language.readable.isExpression e = true := h
    rw [bodyOf, if_pos hex, List.append_assoc]
  have hcomplete : Text.Complete "return (\n".toList := by
    have hplain : Plain "return (".toList := by decide
    exact hplain.complete
  have hhead : Text.indentLine margin "return (\n".toList = "    return (\n".toList := by decide
  have hreturn : '\r' ∉ "    return (\n".toList := by decide
  obtain ⟨k₁, u₁, hu₁, hs₁⟩ := Text.exists_spread_indent 4 e
  obtain ⟨k₂, u₂, hu₂, hs₂⟩ := Text.exists_spread_indent 4 (Text.indent margin e ++ "\n)".toList)
  have hsplit : plainNewlines (Text.indent margin e ++ "\n)".toList) =
      plainNewlines (Text.indent margin e) ++ "\n)".toList := by
    refine Text.plainNewlines_append_newline ?_ [')']
    rwa [margin_eq, Text.getLast?_indent]
  rw [hsplit] at hs₂
  obtain ⟨v, v', rfl, hv, hv'⟩ := hs₂.exists_of_append
  rw [margin_eq, hu₁] at hv
  obtain ⟨w, rfl, hw⟩ := Spread.exists_of_plain (Spread.plain_replicate k₁) hv
  obtain ⟨j, hj⟩ : ∃ j, v' = '\n' :: (List.replicate j ' ' ++ [')']) := by
    obtain _ | ⟨j, -, hv'⟩ := hv'
    obtain _ | ⟨i, hi, hv'⟩ := hv'
    obtain rfl := hi (by decide)
    cases hv'
    exact ⟨j, rfl⟩
  refine ⟨k₂ + k₁, j, w, hs₁.trans hw, ?_⟩
  rw [hbody, Text.indent_append hcomplete (fun h => absurd h (by decide)), hhead, Text.plainNewlines_append hreturn, margin_eq]
  rw [margin_eq] at hu₂
  rw [hu₂, hj]
  rw [← List.replicate_append_replicate]
  simp only [List.append_assoc]

/-! ## the whole text -/

/-- The characters that a comment ends at or that code cannot hold. -/
def lineBreaks : List Char := ['\n', '\r', '\x00']

theorem isPrintable_of_mem_lineBreaks {c : Char} (h : c ∈ lineBreaks) : Text.isPrintable c = false := by
  have hall : ∀ c ∈ lineBreaks, Text.isPrintable c = false := by decide +kernel
  exact hall c h

/-- A production that is shown on one line of code. -/
def OneLine (p : Production) : Prop := ∀ s ∈ p.name :: p.symbols, ∀ c ∈ s.toList, c ∉ lineBreaks

instance : DecidablePred OneLine := fun p => inferInstanceAs (Decidable (∀ s ∈ p.name :: p.symbols, _))

theorem forall_mem_intercalate {p : Char → Prop} {sep : List Char} {ls : List (List Char)}
    (hsep : ∀ c ∈ sep, p c) (hls : ∀ l ∈ ls, ∀ c ∈ l, p c) : ∀ c ∈ List.intercalate sep ls, p c := by
  induction ls with
  | nil => exact nofun
  | cons l ls ih =>
      obtain ⟨hl, hls⟩ := List.forall_mem_cons.1 hls
      cases ls with
      | nil => rwa [List.intercalate_singleton]
      | cons l' ls =>
          rw [List.intercalate_cons_cons, List.append_assoc, List.forall_mem_append, List.forall_mem_append]
          exact ⟨hl, hsep, ih hls⟩

theorem OneLine.text {p : Production} (h : OneLine p) : ∀ c ∈ p.text.toList, c ∉ lineBreaks := by
  obtain ⟨hname, hsymbols⟩ := List.forall_mem_cons.1 h
  rw [Production.text, String.toList_append, String.toList_append, List.forall_mem_append,
    List.forall_mem_append]
  refine ⟨⟨hname, by decide⟩, ?_⟩
  split
  · decide
  · rw [String.toList_intercalate]
    exact forall_mem_intercalate (by decide) fun l hl => by
      obtain ⟨s, hs, rfl⟩ := List.mem_map.1 hl
      exact hsymbols s hs

theorem MadeUp.oneLine {w : List Char} (h : MadeUp w) : ∀ c ∈ w, c ∉ lineBreaks := by
  obtain ⟨w, rfl, hw⟩ := h
  have hall : ∀ c ∈ '_' :: nameChars, c ∉ lineBreaks := by decide
  exact List.forall_mem_cons.2 ⟨by decide, fun c hc => hall c (List.mem_cons_of_mem _ (hw c hc))⟩

theorem headLine_oneLine (index : Nat) (r : Rule) : ∀ c ∈ headLine index r, c ∉ lineBreaks := by
  have hnames : ∀ w ∈ (List.range r.production.length).map fun i => (parameterName i).toList,
      ∀ c ∈ w, c ∉ lineBreaks := by
    intro w hw
    obtain ⟨i, -, rfl⟩ := List.mem_map.1 hw
    exact (madeUp_parameterName i).oneLine
  have hquote : ∀ c ∈ Text.quoteChars r.returns.toList, c ∉ lineBreaks := fun c hc hmem =>
    absurd (Text.isPrintable_of_mem_quoteChars hc) (by simp [isPrintable_of_mem_lineBreaks hmem])
  rw [headLine_eq]
  simp only [List.forall_mem_append, List.forall_mem_cons]
  exact ⟨by decide, by decide, (madeUp_functionName index).oneLine, by decide,
    forall_mem_intercalate (by decide) hnames, by decide, by decide, by decide, by decide, by decide, hquote,
    by decide, nofun⟩

/-- Code that stands in the function of a production keeps its lexemes, but for line ends and blocks. -/
theorem blockLexemes_renderAction {r : Rule} {L : List Lexeme} (hname : OneLine r.production)
    (hexpr : (readExpr (substituted r.code)).isSome) (hL : expressionLexemes (substituted r.code) = some L)
    (htexts : ∀ x ∈ quotedTexts (plainNewlines (substituted r.code)), Plain x) (hdepth : deepest 0 L < 200)
    (index : Nat) :
    blockLexemes (renderAction index r) = some (headLexemes index r ++ .newline :: bodyLexemes L) := by
  obtain ⟨hnul, hlexes⟩ := lexemes_eq_some_iff.1 hL
  obtain ⟨k, j, u, hu, hbody⟩ := exists_spread_bodyOf hexpr (getLast?_substituted r.code)
  have hhead := headLine_oneLine index r
  have hcomment : ∀ c ∈ "    # ".toList ++ r.production.text.toList, c ∉ lineBreaks :=
    List.forall_mem_append.2 ⟨by decide, hname.text⟩
  have htext : plainNewlines (renderAction index r) = headLine index r ++ '\n' ::
      ("    # ".toList ++ r.production.text.toList ++ '\n' ::
        ("    return (\n".toList ++ (List.replicate k ' ' ++ u) ++ '\n' :: (List.replicate j ' ' ++ [')']))) := by
    have hreturn {s : List Char} (h : ∀ c ∈ s, c ∉ lineBreaks) : '\r' ∉ s :=
      fun hmem => h _ hmem (by decide)
    rw [renderAction, Text.joinNewlines_cons _ (by simp), Text.joinNewlines_cons _ (by simp),
      Text.joinNewlines, List.intercalate_singleton, Text.plainNewlines_append (hreturn hhead),
      Text.plainNewlines_cons (by decide), String.toList_append, Text.plainNewlines_append (hreturn hcomment),
      Text.plainNewlines_cons (by decide), hbody]
  have hcode := lexes_body hlexes hu htexts hdepth k j
  have hall := lexes_headLine index r
    (lexes_commentLine (fun hmem => hname.text _ hmem (by decide)) hcode)
  have hfree : ∀ c ∈ plainNewlines (renderAction index r) ++ ['\n'], c ≠ '\x00' := by
    have hkept {s : List Char} (h : ∀ c ∈ s, c ∉ lineBreaks) : ∀ c ∈ s, c ≠ '\x00' :=
      fun c hc heq => h c hc (heq ▸ by decide)
    have hspaces (n : Nat) : ∀ c ∈ List.replicate n ' ', c ≠ '\x00' :=
      fun c hc => List.eq_of_mem_replicate hc ▸ by decide
    have hspread := hu.forall_mem (p := (· ≠ '\x00')) (by decide) fun c hc heq => hnul (heq ▸ hc)
    rw [htext]
    simp only [List.forall_mem_append, List.forall_mem_cons]
    exact ⟨⟨hkept hhead, by decide, ⟨by decide, hkept hname.text⟩, by decide,
      ⟨by decide, hspaces k, hspread⟩, by decide, hspaces j, by decide, by simp⟩, by decide, by simp⟩
  have hlast : (plainNewlines (renderAction index r)).getLast? = some ')' := by
    rw [htext]
    simp only [List.getLast?_append, List.getLast?_cons, List.getLast?_nil, Option.getD_none, Option.some_or,
      Option.getD_some]
  rw [blockLexemes, if_neg (by rw [hlast]; decide), lexemes_eq_some_iff]
  refine ⟨fun hmem => hfree _ hmem rfl, ?_⟩
  rw [htext]
  simp only [List.append_assoc, List.cons_append, List.nil_append] at hall ⊢
  exact hall

end Lalr.Code
