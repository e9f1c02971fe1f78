import Lalr.Proofs.Code.Locality
import Mathlib.Data.List.TakeWhile

/-!
# Lalr.Proofs.Code.Lexeme

Words, signs and quoted text are read within a line too, as long as no quoted text has a line boundary in it.
So a lexeme is the same in two texts that are alike up to the next boundary, and inside one more bracket
(`readLexeme_alike`).
-/

namespace Lalr.Code

open Text (Plain isLineBoundary plain_append plain_nil)

variable {c : Char} {r r₂ s s₂ w : List Char}

/-! ## words and signs -/

theorem plain_of_quotation? {k : Quotation} (h : quotation? w = some k) : Plain w := by
  have hletters : ∃ t ∈ ["", "u", "r", "b", "f", "rb", "br", "rf", "fr"],
      String.ofList (w.map Char.toLower) = t := by
    refine ⟨_, ?_, rfl⟩
    by_contra hmem
    simp only [List.mem_cons, List.not_mem_nil, or_false, not_or] at hmem
    simp [quotation?, hmem] at h
  obtain ⟨t, ht, hw⟩ := hletters
  have hclass : ∀ t ∈ ["", "u", "r", "b", "f", "rb", "br", "rf", "fr"], ∀ c ∈ t.toList,
      c ∈ ['u', 'r', 'b', 'f'] := by decide
  have hlower : ∀ b ∈ Text.boundaries, b.toLower ∉ ['u', 'r', 'b', 'f'] := by decide
  intro c hc
  refine Bool.eq_false_iff.2 fun hb => hlower c (Text.mem_boundaries hb) (hclass t ht _ ?_)
  rw [← hw, String.toList_ofList]
  exact List.mem_map_of_mem hc

theorem plain_of_isIdentifier (h : Text.isIdentifier w = true) : Plain w := by
  have hstart {c : Char} (hc : Text.isIdentifierStart c = true) : isLineBoundary c = false :=
    Text.within_of_disjoint (by decide +kernel) hc
  have hcontinue {c : Char} (hc : Text.isIdentifierContinue c = true) : isLineBoundary c = false :=
    Text.within_of_disjoint (by decide +kernel) hc
  cases w with
  | nil => exact plain_nil
  | cons c w =>
      obtain ⟨hc, hw⟩ := Bool.and_eq_true_iff.1 h
      exact List.forall_mem_cons.2 ⟨hstart hc, fun d hd => hcontinue (List.all_eq_true.1 hw d hd)⟩

theorem plain_of_wordLexeme {t : Lexeme} (h : wordLexeme w = some t) : Plain w := by
  have hkeywords : ∀ k ∈ keywords, Plain k.toList := by decide
  unfold wordLexeme at h
  dsimp only at h
  split at h
  · next hkeyword =>
      have := hkeywords _ (List.contains_iff_mem.1 hkeyword)
      rwa [String.toList_ofList] at this
  · split at h
    · next hidentifier => exact plain_of_isIdentifier hidentifier
    · contradiction

theorem bare_signs : ∀ sign ∈ signs, Bare sign ∧ sign ≠ [] := by decide

theorem Alike.readSign_eq (h : Alike s s₂) : readSign s₂ = readSign s := by
  have hfind (l : List (List Char)) (hl : ∀ sign ∈ l, Plain sign) :
      l.find? (·.isPrefixOf s₂) = l.find? (·.isPrefixOf s) := by
    induction l with
    | nil => rfl
    | cons sign l ih =>
        obtain ⟨hsign, hl⟩ := List.forall_mem_cons.1 hl
        rw [List.find?_cons, List.find?_cons, h.isPrefixOf_eq hsign, ih hl]
  exact hfind signs fun sign hsign => (bare_signs sign hsign).1.plain

theorem exists_of_readSign {sign : List Char} (h : readSign s = some sign) :
    sign ∈ signs ∧ ∃ r, s = sign ++ r := by
  unfold readSign at h
  refine ⟨List.mem_of_find?_eq_some h, ?_⟩
  have hprefix : sign.isPrefixOf s = true := by simpa using List.find?_some h
  obtain ⟨r, hr⟩ := List.isPrefixOf_iff_prefix.1 hprefix
  exact ⟨r, hr.symm⟩

/-! ## quoted text -/

theorem untilQuote_split {q : Char} (hq : q ≠ '\\') {content : List Char}
    (h : untilQuote q s = some (content, r)) :
    s = content ++ q :: r ∧ ∀ r₂, untilQuote q (content ++ q :: r₂) = some (content, r₂) := by
  fun_induction untilQuote q s generalizing content with
  | case1 => contradiction
  | case2 c rest ih =>
      obtain ⟨⟨content', r'⟩, hread, hc⟩ := Option.bind_eq_some_iff.1 h
      obtain ⟨rfl, rfl⟩ := Prod.mk.inj (Option.some.inj hc)
      obtain ⟨rfl, hagain⟩ := ih hread
      refine ⟨rfl, fun r₂ => ?_⟩
      rw [List.cons_append, List.cons_append, untilQuote, hagain]
      rfl
  | case3 rest hpattern =>
      obtain ⟨rfl, rfl⟩ := Prod.mk.inj (Option.some.inj h)
      refine ⟨rfl, fun r₂ => ?_⟩
      rw [List.nil_append, untilQuote, if_pos rfl]
      exact fun c r heq => absurd heq hq
  | case4 => contradiction
  | case5 c rest hpattern hcq hc ih =>
      obtain ⟨⟨content', r'⟩, hread, hcontent⟩ := Option.bind_eq_some_iff.1 h
      obtain ⟨rfl, rfl⟩ := Prod.mk.inj (Option.some.inj hcontent)
      obtain ⟨rfl, hagain⟩ := ih hread
      have hslash : c ≠ '\\' := by
        rintro rfl
        cases content' with
        | nil => exact hpattern q _ rfl rfl
        | cons d content' => exact hpattern d _ rfl rfl
      refine ⟨rfl, fun r₂ => ?_⟩
      rw [List.cons_append, untilQuote, if_neg hcq, if_neg hc, hagain]
      · rfl
      · exact fun c r heq => absurd heq hslash

theorem untilTriple_split {q : Char} (hq : q ≠ '\\') {content : List Char}
    (h : untilTriple q s = some (content, r)) :
    s = content ++ q :: q :: q :: r ∧
      ∀ r₂, untilTriple q (content ++ q :: q :: q :: r₂) = some (content, r₂) := by
  fun_induction untilTriple q s generalizing content with
  | case1 => contradiction
  | case2 c rest ih =>
      obtain ⟨⟨content', r'⟩, hread, hc⟩ := Option.bind_eq_some_iff.1 h
      obtain ⟨rfl, rfl⟩ := Prod.mk.inj (Option.some.inj hc)
      obtain ⟨rfl, hagain⟩ := ih hread
      refine ⟨rfl, fun r₂ => ?_⟩
      rw [List.cons_append, List.cons_append, untilTriple, hagain]
      rfl
  | case3 c rest hpattern hend =>
      obtain ⟨rfl, rfl⟩ := Prod.mk.inj (Option.some.inj h)
      rw [Bool.and_eq_true, decide_eq_true_eq] at hend
      obtain ⟨rfl, hprefix⟩ := hend
      obtain ⟨r, rfl⟩ := List.isPrefixOf_iff_prefix.1 hprefix
      refine ⟨rfl, fun r₂ => ?_⟩
      rw [List.nil_append, untilTriple, if_pos (by simp [List.isPrefixOf])]
      · rfl
      · exact fun c r heq => absurd heq hq
  | case4 c rest hpattern hend ih =>
      obtain ⟨⟨content', r'⟩, hread, hcontent⟩ := Option.bind_eq_some_iff.1 h
      obtain ⟨rfl, rfl⟩ := Prod.mk.inj (Option.some.inj hcontent)
      obtain ⟨rfl, hagain⟩ := ih hread
      have hslash : c ≠ '\\' := by
        rintro rfl
        cases content' with
        | nil => exact hpattern q _ rfl rfl
        | cons d content' => exact hpattern d _ rfl rfl
      have hsame (r₂ : List Char) : [q, q].isPrefixOf (content' ++ q :: q :: q :: r₂) =
          [q, q].isPrefixOf (content' ++ q :: q :: q :: r') := by
        match content' with
        | [] => simp [List.isPrefixOf]
        | [_] => simp [List.isPrefixOf]
        | _ :: _ :: _ => simp [List.isPrefixOf]
      refine ⟨rfl, fun r₂ => ?_⟩
      rw [List.cons_append, untilTriple, hsame, if_neg hend, hagain]
      · rfl
      · exact fun c r heq => absurd heq hslash

theorem plain_quote {q : Char} (hq : q = '\'' ∨ q = '"') : isLineBoundary q = false ∧ q ≠ '\\' := by
  rcases hq with rfl | rfl <;> decide

/-- Quoted text within a line is read within the line. -/
theorem readQuoted_alike {q : Char} (hq : q = '\'' ∨ q = '"') {content : List Char}
    (hs : Alike s s₂) (h : readQuoted q s = some (content, r)) (hcontent : Plain content) :
    ∃ w r₂, Plain w ∧ s = w ++ r ∧ s₂ = w ++ r₂ ∧ Alike r r₂ ∧
      readQuoted q s₂ = some (content, r₂) := by
  obtain ⟨hplain, hslash⟩ := plain_quote hq
  have hpair : [q, q].isPrefixOf s₂ = [q, q].isPrefixOf s :=
    hs.isPrefixOf_eq (List.forall_mem_cons.2 ⟨hplain, List.forall_mem_singleton.2 hplain⟩)
  unfold readQuoted at h ⊢
  rw [hpair]
  split at h
  · next htriple =>
      obtain ⟨x, rfl⟩ := List.isPrefixOf_iff_prefix.1 htriple
      obtain ⟨hx, hagain⟩ := untilTriple_split hslash h
      have hw : Plain (q :: q :: (content ++ [q, q, q])) := by
        simp only [Plain, List.forall_mem_cons, List.forall_mem_append]
        exact ⟨hplain, hplain, hcontent, hplain, hplain, hplain, nofun⟩
      have hsplit : [q, q] ++ x = q :: q :: (content ++ [q, q, q]) ++ r := by
        change x = _ at hx
        rw [hx]
        simp
      rw [hsplit] at hs
      obtain ⟨r₂, rfl, hr⟩ := hs.exists_of_append hw
      refine ⟨_, r₂, hw, hsplit, rfl, hr, ?_⟩
      rw [if_pos htriple]
      simpa using hagain r₂
  · next htriple =>
      obtain ⟨rfl, hagain⟩ := untilQuote_split hslash h
      have hw : Plain (content ++ [q]) := plain_append.2 ⟨hcontent, List.forall_mem_singleton.2 hplain⟩
      rw [List.append_cons] at hs
      obtain ⟨r₂, rfl, hr⟩ := hs.exists_of_append hw
      refine ⟨_, r₂, hw, List.append_cons .., rfl, hr, ?_⟩
      rw [if_neg htriple]
      simpa using hagain r₂

/-! ## quoted text in code -/

/-- The contents of the quoted texts in code outside of comments, from the left; `skip` characters belong to a
comment or to a text that was found before. -/
def quotedFrom (skip : Nat) : List Char → List (List Char)
  | [] => []
  | c :: rest =>
    match skip with
    | skip + 1 => quotedFrom skip rest
    | 0 =>
      if c = '#' then quotedFrom (rest.takeWhile (· ≠ '\n')).length rest
      else if c = '\'' || c = '"' then
        match readQuoted c rest with
        | some (content, after) => content :: quotedFrom (rest.length - after.length) rest
        | none => quotedFrom 0 rest
      else quotedFrom 0 rest

/-- The contents of the quoted texts in code. -/
def quotedTexts (s : List Char) : List (List Char) := quotedFrom 0 s

theorem quotedFrom_eq (n : Nat) (s : List Char) : quotedFrom n s = quotedTexts (s.drop n) := by
  induction s generalizing n with
  | nil => simp [quotedTexts, quotedFrom]
  | cons c s ih =>
      cases n with
      | zero => rfl
      | succ n => rw [quotedFrom, ih, List.drop_succ_cons]

theorem quotedTexts_append (hw : ∀ c ∈ w, c ∉ marks) (s : List Char) :
    quotedTexts (w ++ s) = quotedTexts s := by
  induction w with
  | nil => rfl
  | cons c w ih =>
      obtain ⟨hc, hw⟩ := List.forall_mem_cons.1 hw
      simp only [marks, List.mem_cons, List.not_mem_nil, or_false, not_or] at hc
      rw [List.cons_append, quotedTexts, quotedFrom, if_neg hc.1, if_neg (by simp [hc])]
      exact ih hw

theorem quotedTexts_comment (s : List Char) : quotedTexts ('#' :: s) = quotedTexts (skipComment s) := by
  have hdrop : (s.takeWhile (· ≠ '\n') ++ skipComment s).drop (s.takeWhile (· ≠ '\n')).length =
      skipComment s := List.drop_left
  rw [skipComment, List.takeWhile_append_dropWhile] at hdrop
  rw [quotedTexts, quotedFrom, if_pos rfl, quotedFrom_eq, hdrop, skipComment]

theorem exists_of_readQuoted {q : Char} (hq : q = '\'' ∨ q = '"') {content : List Char}
    (h : readQuoted q s = some (content, r)) : ∃ w, s = w ++ r := by
  obtain ⟨-, hslash⟩ := plain_quote hq
  unfold readQuoted at h
  split at h
  · next htriple =>
      obtain ⟨x, rfl⟩ := List.isPrefixOf_iff_prefix.1 htriple
      have hx := (untilTriple_split hslash h).1
      change x = _ at hx
      exact ⟨q :: q :: (content ++ [q, q, q]), by rw [hx]; simp⟩
  · exact ⟨content ++ [q], by rw [(untilQuote_split hslash h).1]; simp⟩

theorem quotedTexts_quote {q : Char} (hq : q = '\'' ∨ q = '"') {content : List Char}
    (h : readQuoted q s = some (content, r)) : quotedTexts (q :: s) = content :: quotedTexts r := by
  obtain ⟨w, rfl⟩ := exists_of_readQuoted hq h
  have hhash : q ≠ '#' := by rcases hq with rfl | rfl <;> decide
  rw [quotedTexts, quotedFrom, if_neg hhash, if_pos (by simpa using hq), h]
  dsimp only
  rw [quotedFrom_eq, List.length_append, Nat.add_sub_cancel, List.drop_left]

/-! ## lexemes -/

theorem readText_alike {k : Quotation} {q : Char} (hq : q = '\'' ∨ q = '"') (hs : Alike s s₂)
    {t : Lexeme} (h : readText k q s = some (t, r)) (htexts : ∀ x ∈ quotedTexts (q :: s), Plain x) :
    (∃ w r₂, Plain w ∧ s = w ++ r ∧ s₂ = w ++ r₂ ∧ Alike r r₂ ∧ readText k q s₂ = some (t, r₂)) ∧
      ∀ x ∈ quotedTexts r, Plain x := by
  obtain ⟨⟨content, r'⟩, hread, h⟩ := Option.bind_eq_some_iff.1 h
  obtain ⟨value, hvalue, h⟩ := Option.bind_eq_some_iff.1 h
  obtain ⟨rfl, rfl⟩ := Prod.mk.inj (Option.some.inj h)
  rw [quotedTexts_quote hq hread, List.forall_mem_cons] at htexts
  obtain ⟨w, r₂, hw, hs₁, hs₂, hr, hread₂⟩ := readQuoted_alike hq hs hread htexts.1
  refine ⟨⟨w, r₂, hw, hs₁, hs₂, hr, ?_⟩, htexts.2⟩
  exact Option.bind_eq_some_iff.2 ⟨(content, r₂), hread₂,
    Option.bind_eq_some_iff.2 ⟨value, hvalue, rfl⟩⟩

theorem takeWhile_isWordPart (hw : ∀ c ∈ w, isWordPart c = true) (hr : r.head?.any isWordPart = false) :
    (w ++ r).takeWhile isWordPart = w ∧ (w ++ r).dropWhile isWordPart = r := by
  rw [List.takeWhile_append_of_pos hw, List.dropWhile_append_of_pos hw]
  cases r with
  | nil => simp
  | cons c r =>
      have hc : isWordPart c = false := hr
      simp [hc]

/-- What a word is together with the text behind it. -/
def wordBefore (w r : List Char) : Option (Lexeme × List Char) :=
  match r, quotation? w with
  | '\'' :: after, some k => readText k '\'' after
  | '"' :: after, some k => readText k '"' after
  | _, _ => do return (← wordLexeme w, r)

theorem readWord_append (hw : ∀ c ∈ w, isWordPart c = true) (hr : r.head?.any isWordPart = false) :
    readWord (w ++ r) = wordBefore w r := by
  obtain ⟨htake, hdrop⟩ := takeWhile_isWordPart hw hr
  simp only [readWord, htake, hdrop]
  rfl

theorem wordBefore_text {q : Char} (hq : q = '\'' ∨ q = '"') {k : Quotation} (hk : quotation? w = some k)
    (s : List Char) : wordBefore w (q :: s) = readText k q s := by
  rcases hq with rfl | rfl <;> simp only [wordBefore, hk]

theorem wordBefore_name (h : ∀ q, r.head? = some q → q = '\'' ∨ q = '"' → quotation? w = none) :
    wordBefore w r = (wordLexeme w).map (·, r) := by
  unfold wordBefore
  split
  · next hk => exact absurd hk (by rw [h _ rfl (.inl rfl)]; nofun)
  · next hk => exact absurd hk (by rw [h _ rfl (.inr rfl)]; nofun)
  · cases wordLexeme w <;> rfl

/-- A word, or quoted text behind letters that announce it, within a line. -/
theorem readWord_alike (hs : Alike s s₂) (hhead : s.head?.any isWordPart = true) {t : Lexeme}
    (h : readWord s = some (t, r)) (htexts : ∀ x ∈ quotedTexts s, Plain x) :
    (∃ w r₂, w ≠ [] ∧ Plain w ∧ s = w ++ r ∧ s₂ = w ++ r₂ ∧ Alike r r₂ ∧ readWord s₂ = some (t, r₂)) ∧
      ∀ x ∈ quotedTexts r, Plain x := by
  obtain ⟨word, rest, rfl, hword, hrest⟩ : ∃ word rest, s = word ++ rest ∧
      (∀ c ∈ word, isWordPart c = true) ∧ rest.head?.any isWordPart = false := by
    refine ⟨s.takeWhile isWordPart, s.dropWhile isWordPart,
      List.takeWhile_append_dropWhile.symm, fun c => List.mem_takeWhile_imp, ?_⟩
    have := List.head?_dropWhile_not isWordPart s
    cases h : (s.dropWhile isWordPart).head? <;> simp_all
  have hne : word ≠ [] := by
    rintro rfl
    exact absurd (hhead.symm.trans hrest) nofun
  have hmarks : ∀ c ∈ word, c ∉ marks := by
    have hclass : ∀ c ∈ marks, isWordPart c = false := by decide
    exact fun c hc hmem => absurd (hword c hc) (by simp [hclass c hmem])
  rw [readWord_append hword hrest] at h
  rw [quotedTexts_append hmarks] at htexts
  by_cases htext : ∃ q after k, (q = '\'' ∨ q = '"') ∧ rest = q :: after ∧ quotation? word = some k
  · obtain ⟨q, after, k, hq, rfl, hk⟩ := htext
    have hplain := plain_of_quotation? hk
    rw [wordBefore_text hq hk] at h
    obtain ⟨rest₂, rfl, hrest₂⟩ := hs.exists_of_append hplain
    obtain ⟨after₂, rfl, hafter⟩ := hrest₂.exists_of_cons
    obtain ⟨⟨w, r₂, hw, rfl, rfl, hr, h₂⟩, hquoted⟩ :=
      readText_alike hq (hafter (plain_quote hq).1) h htexts
    refine ⟨⟨word ++ q :: w, r₂, by simp, plain_append.2 ⟨hplain, List.forall_mem_cons.2 ⟨(plain_quote hq).1, hw⟩⟩,
      by simp, by simp, hr, ?_⟩, hquoted⟩
    rw [readWord_append hword (by rcases hq with rfl | rfl <;> rfl), wordBefore_text hq hk, h₂]
  · have hnone : ∀ q, rest.head? = some q → q = '\'' ∨ q = '"' → quotation? word = none := by
      intro q hhead hq
      obtain ⟨after, rfl⟩ := List.head?_eq_some_iff.1 hhead
      exact Option.eq_none_iff_forall_ne_some.2 fun k hk => htext ⟨q, after, k, hq, rfl, hk⟩
    rw [wordBefore_name hnone] at h
    obtain ⟨t', ht, heq⟩ := Option.map_eq_some_iff.1 h
    obtain ⟨rfl, rfl⟩ := Prod.mk.inj heq
    have hplain := plain_of_wordLexeme ht
    obtain ⟨rest₂, rfl, hrest₂⟩ := hs.exists_of_append hplain
    refine ⟨⟨word, rest₂, hne, hplain, rfl, rfl, hrest₂, ?_⟩, htexts⟩
    have hnone₂ : ∀ q, rest₂.head? = some q → q = '\'' ∨ q = '"' → quotation? word = none := by
      intro q hhead hq
      have hsame := hrest₂.any_head? (p := (· == q)) (by rcases hq with rfl | rfl <;> decide)
      rw [hhead] at hsame
      refine hnone q ?_ hq
      cases hrest : rest.head? <;> simp_all
    rw [readWord_append hword (by rw [hrest₂.any_head? (by decide), hrest]), wordBefore_name hnone₂, ht]
    rfl

/-- The signs that open brackets. -/
def openers : List (List Char) := [['('], ['['], ['\x7b']]

/-- The signs that close brackets. -/
def closings : List (List Char) := [[')'], [']'], ['\x7d']]

theorem changeBrackets_of_opener {sign : List Char} (h : sign ∈ openers) : ∃ close, ∀ closers,
    changeBrackets closers sign = if closers.length < 200 then some (close :: closers) else none := by
  simp only [openers, List.mem_cons, List.not_mem_nil, or_false] at h
  rcases h with rfl | rfl | rfl <;> exact ⟨_, fun _ => rfl⟩

theorem changeBrackets_of_closing (h : [c] ∈ closings) (closers : List Char) :
    changeBrackets closers [c] = match closers with
      | top :: outer => if top = c then some outer else none
      | [] => none := by
  simp only [closings, List.mem_cons, List.not_mem_nil, or_false, List.cons.injEq, and_true] at h
  rcases h with rfl | rfl | rfl <;> rfl

theorem changeBrackets_of_other {sign : List Char} (hopen : sign ∉ openers) (hclose : sign ∉ closings)
    (closers : List Char) : changeBrackets closers sign = some closers := by
  simp only [openers, closings, List.mem_cons, List.not_mem_nil, or_false, not_or] at hopen hclose
  unfold changeBrackets
  split <;> simp_all

theorem changeBrackets_append {closers closers' sign : List Char}
    (h : changeBrackets closers sign = some closers') (hdepth : closers'.length < 200) (outer : Char) :
    changeBrackets (closers ++ [outer]) sign = some (closers' ++ [outer]) := by
  by_cases hopen : sign ∈ openers
  · obtain ⟨close, hclose⟩ := changeBrackets_of_opener hopen
    rw [hclose] at h ⊢
    split at h
    · obtain rfl := Option.some.inj h
      rw [if_pos (by simpa using hdepth), List.cons_append]
    · contradiction
  by_cases hclosing : sign ∈ closings
  · obtain ⟨c, rfl⟩ : ∃ c, sign = [c] := by
      simp only [closings, List.mem_cons, List.not_mem_nil, or_false] at hclosing
      rcases hclosing with rfl | rfl | rfl <;> exact ⟨_, rfl⟩
    rw [changeBrackets_of_closing hclosing] at h ⊢
    cases closers with
    | nil => contradiction
    | cons top closers =>
        dsimp only at h
        split at h
        · next htop =>
            obtain rfl := Option.some.inj h
            rw [List.cons_append]
            exact if_pos htop
        · contradiction
  · rw [changeBrackets_of_other hopen hclosing] at h ⊢
    obtain rfl := Option.some.inj h
    rfl

/-! ## the four kinds of lexemes -/

/-- Whether a number begins with a character. -/
def opensNumber (c : Char) (s : List Char) : Bool := c.isDigit || (c = '.' && s.head?.any Char.isDigit)

theorem readLexeme_text (hq : c = '\'' ∨ c = '"') (closers : List Char) :
    readLexeme closers c s =
      (readText ⟨false, false, false⟩ c s).map fun x => (x.1, x.2, closers) := by
  rw [readLexeme, if_pos (by simpa using hq)]
  cases readText ⟨false, false, false⟩ c s <;> rfl

theorem readLexeme_number (hq : ¬ (c = '\'' ∨ c = '"')) (hnumber : opensNumber c s = true)
    (closers : List Char) : readLexeme closers c s =
      (readNumber (c :: s)).map fun x => (.number x.1, x.2, closers) := by
  rw [opensNumber] at hnumber
  rw [readLexeme, if_neg (by simpa using hq), if_pos hnumber]
  cases readNumber (c :: s) <;> rfl

theorem readLexeme_word (hq : ¬ (c = '\'' ∨ c = '"')) (hnumber : opensNumber c s = false)
    (hword : isWordPart c = true) (closers : List Char) : readLexeme closers c s =
      (readWord (c :: s)).map fun x => (x.1, x.2, closers) := by
  rw [opensNumber] at hnumber
  rw [readLexeme, if_neg (by simpa using hq), if_neg (by rw [hnumber]; decide), if_pos hword]
  cases readWord (c :: s) <;> rfl

theorem readLexeme_sign (hq : ¬ (c = '\'' ∨ c = '"')) (hnumber : opensNumber c s = false)
    (hword : isWordPart c = false) (closers : List Char) : readLexeme closers c s =
      (readSign (c :: s)).bind fun sign => (changeBrackets closers sign).map fun closers' =>
        (.sign (String.ofList sign), (c :: s).drop sign.length, closers') := by
  rw [opensNumber] at hnumber
  rw [readLexeme, if_neg (by simpa using hq), if_neg (by rw [hnumber]; decide), if_neg (by simp [hword])]
  cases readSign (c :: s) with
  | none => rfl
  | some sign =>
      rw [Option.bind_some]
      cases h : changeBrackets closers sign <;> simp [h]

/-- A lexeme is a quoted text, a number, a word or a sign, and only signs open and close brackets. -/
theorem readLexeme_cases {closers closers' : List Char} {t : Lexeme}
    (h : readLexeme closers c s = some (t, r, closers')) :
    ((c = '\'' ∨ c = '"') ∧ readText ⟨false, false, false⟩ c s = some (t, r) ∧ closers' = closers) ∨
    ¬ (c = '\'' ∨ c = '"') ∧
      ((opensNumber c s = true ∧ ∃ v, readNumber (c :: s) = some (v, r) ∧ t = .number v ∧ closers' = closers) ∨
      opensNumber c s = false ∧
        ((isWordPart c = true ∧ readWord (c :: s) = some (t, r) ∧ closers' = closers) ∨
        isWordPart c = false ∧ ∃ sign, readSign (c :: s) = some sign ∧ c :: s = sign ++ r ∧
          changeBrackets closers sign = some closers' ∧ t = .sign (String.ofList sign))) := by
  by_cases hq : c = '\'' ∨ c = '"'
  · rw [readLexeme_text hq] at h
    obtain ⟨⟨t', r'⟩, hread, heq⟩ := Option.map_eq_some_iff.1 h
    simp only [Prod.mk.injEq] at heq
    obtain ⟨rfl, rfl, rfl⟩ := heq
    exact .inl ⟨hq, hread, rfl⟩
  refine .inr ⟨hq, ?_⟩
  cases hnumber : opensNumber c s with
  | true =>
      rw [readLexeme_number hq hnumber] at h
      obtain ⟨⟨v, r'⟩, hread, heq⟩ := Option.map_eq_some_iff.1 h
      simp only [Prod.mk.injEq] at heq
      obtain ⟨rfl, rfl, rfl⟩ := heq
      exact .inl ⟨rfl, v, hread, rfl, rfl⟩
  | false =>
      refine .inr ⟨rfl, ?_⟩
      cases hword : isWordPart c with
      | true =>
          rw [readLexeme_word hq hnumber hword] at h
          obtain ⟨⟨t', r'⟩, hread, heq⟩ := Option.map_eq_some_iff.1 h
          simp only [Prod.mk.injEq] at heq
          obtain ⟨rfl, rfl, rfl⟩ := heq
          exact .inl ⟨rfl, hread, rfl⟩
      | false =>
          rw [readLexeme_sign hq hnumber hword] at h
          obtain ⟨sign, hsign, h⟩ := Option.bind_eq_some_iff.1 h
          obtain ⟨closers'', hclosers, heq⟩ := Option.map_eq_some_iff.1 h
          simp only [Prod.mk.injEq] at heq
          obtain ⟨rfl, rfl, rfl⟩ := heq
          obtain ⟨-, r, heq⟩ := exists_of_readSign hsign
          refine .inr ⟨rfl, sign, hsign, ?_, hclosers, rfl⟩
          rw [heq, List.drop_left]

theorem exists_cons_of_append (hne : w ≠ []) (h : c :: s = w ++ r) (h₂ : c :: s₂ = w ++ r₂) :
    ∃ w', w = c :: w' ∧ s = w' ++ r ∧ s₂ = w' ++ r₂ := by
  obtain ⟨d, w, rfl⟩ := List.exists_cons_of_ne_nil hne
  rw [List.cons_append, List.cons.injEq] at h h₂
  exact ⟨w, by rw [h.1], h.2, h₂.2⟩

/-- The lexeme and the open brackets are the same inside one more bracket, and in every text that goes on
alike. -/
theorem readLexeme_alike {closers closers' : List Char} (hs : Alike (c :: s) s₂) {t : Lexeme}
    (h : readLexeme closers c s = some (t, r, closers')) (hdepth : closers'.length < 200)
    (htexts : ∀ x ∈ quotedTexts (c :: s), Plain x) (outer : Char) :
    (∃ w r₂, Plain (c :: w) ∧ s = w ++ r ∧ s₂ = c :: (w ++ r₂) ∧ Alike r r₂ ∧
      readLexeme (closers ++ [outer]) c (w ++ r₂) = some (t, r₂, closers' ++ [outer])) ∧
      ∀ x ∈ quotedTexts r, Plain x := by
  obtain ⟨s', rfl, hs'⟩ := hs.exists_of_cons
  have hopens (hc : isLineBoundary c = false) : opensNumber c s' = opensNumber c s := by
    rw [opensNumber, opensNumber, (hs' hc).any_head? (by decide)]
  rcases readLexeme_cases h with ⟨hq, hread, rfl⟩ | ⟨hq, ⟨hnumber, v, hread, rfl, rfl⟩ |
    ⟨hnumber, ⟨hword, hread, rfl⟩ | ⟨hword, sign, hsign, heq, hclosers, rfl⟩⟩⟩
  · have hplain := (plain_quote hq).1
    obtain ⟨⟨w, r₂, hw, rfl, rfl, hr, hread₂⟩, hquoted⟩ := readText_alike hq (hs' hplain) hread htexts
    refine ⟨⟨w, r₂, List.forall_mem_cons.2 ⟨hplain, hw⟩, rfl, rfl, hr, ?_⟩, hquoted⟩
    rw [readLexeme_text hq, hread₂]
    rfl
  · have hfirst : c.isDigit = true ∨ c = '.' := by
      rw [opensNumber, Bool.or_eq_true, Bool.and_eq_true, decide_eq_true_eq] at hnumber
      exact hnumber.imp_right And.left
    obtain ⟨w, r₂, hne, hw, heq, heq₂, hr, hread₂⟩ := readNumber_alike hs hfirst hread
    obtain ⟨w, rfl, rfl, rfl⟩ := exists_cons_of_append hne heq heq₂
    refine ⟨⟨w, r₂, hw.plain, rfl, rfl, hr, ?_⟩, ?_⟩
    · rw [readLexeme_number hq ((hopens (hw.plain c List.mem_cons_self)).trans hnumber), hread₂]
      rfl
    · rwa [heq, quotedTexts_append fun c hc => (hw c hc).2] at htexts
  · obtain ⟨⟨w, r₂, hne, hw, heq, heq₂, hr, hread₂⟩, hquoted⟩ := readWord_alike hs hword hread htexts
    obtain ⟨w, rfl, rfl, rfl⟩ := exists_cons_of_append hne heq heq₂
    refine ⟨⟨w, r₂, hw, rfl, rfl, hr, ?_⟩, hquoted⟩
    rw [readLexeme_word hq ((hopens (hw c List.mem_cons_self)).trans hnumber) hword, hread₂]
    rfl
  · obtain ⟨hw, hne⟩ := bare_signs sign (exists_of_readSign hsign).1
    have hsign₂ := hs.readSign_eq.trans hsign
    have hs₂ := hs
    rw [heq] at hs₂
    obtain ⟨r₂, heq₂, hr⟩ := hs₂.exists_of_append hw.plain
    obtain ⟨w, rfl, rfl, rfl⟩ := exists_cons_of_append hne heq heq₂
    refine ⟨⟨w, r₂, hw.plain, rfl, rfl, hr, ?_⟩, ?_⟩
    · rw [readLexeme_sign hq ((hopens (hw c List.mem_cons_self).1).trans hnumber) hword, hsign₂]
      refine Option.bind_eq_some_iff.2 ⟨_, rfl, Option.map_eq_some_iff.2
        ⟨_, changeBrackets_append hclosers hdepth outer, ?_⟩⟩
      rw [← List.cons_append, List.drop_left]
    · rwa [heq, quotedTexts_append fun c hc => (hw c hc).2] at htexts

theorem length_le_of_readText {k : Quotation} {q : Char} (hq : q = '\'' ∨ q = '"') {t : Lexeme}
    (h : readText k q s = some (t, r)) : r.length ≤ s.length := by
  obtain ⟨⟨content, r'⟩, hread, h⟩ := Option.bind_eq_some_iff.1 h
  obtain ⟨value, -, h⟩ := Option.bind_eq_some_iff.1 h
  obtain ⟨-, rfl⟩ := Prod.mk.inj (Option.some.inj h)
  obtain ⟨w, rfl⟩ := exists_of_readQuoted hq hread
  rw [List.length_append]
  exact Nat.le_add_left ..

theorem length_le_of_readWord (hc : isWordPart c = true) {t : Lexeme}
    (h : readWord (c :: s) = some (t, r)) : r.length ≤ s.length := by
  have hrest := (List.dropWhile_suffix (l := s) isWordPart).length_le
  rw [readWord, List.dropWhile_cons_of_pos hc] at h
  split at h
  · next heq _ =>
      have := length_le_of_readText (.inl rfl) h
      rw [heq, List.length_cons] at hrest
      omega
  · next heq _ =>
      have := length_le_of_readText (.inr rfl) h
      rw [heq, List.length_cons] at hrest
      omega
  · obtain ⟨t', -, heq⟩ := Option.bind_eq_some_iff.1 h
    obtain ⟨-, rfl⟩ := Prod.mk.inj (Option.some.inj heq)
    exact hrest

/-- A lexeme takes at least one character. -/
theorem length_le_of_readLexeme {closers closers' : List Char} {t : Lexeme}
    (h : readLexeme closers c s = some (t, r, closers')) : r.length ≤ s.length := by
  rcases readLexeme_cases h with ⟨hq, hread, -⟩ | ⟨-, ⟨hnumber, v, hread, -⟩ |
    ⟨-, ⟨hword, hread, -⟩ | ⟨-, sign, hsign, heq, -⟩⟩⟩
  · exact length_le_of_readText hq hread
  · have hfirst : c.isDigit = true ∨ c = '.' := by
      rw [opensNumber, Bool.or_eq_true, Bool.and_eq_true, decide_eq_true_eq] at hnumber
      exact hnumber.imp_right And.left
    obtain ⟨w, -, hne, -, heq, -⟩ := readNumber_alike (.refl _) hfirst hread
    obtain ⟨w, -, rfl, -⟩ := exists_cons_of_append hne heq heq
    exact (List.suffix_append w r).length_le
  · exact length_le_of_readWord hword hread
  · obtain ⟨w, -, rfl, -⟩ :=
      exists_cons_of_append (bare_signs sign (exists_of_readSign hsign).1).2 heq heq
    exact (List.suffix_append w r).length_le

end Lalr.Code
