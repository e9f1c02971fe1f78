import Lalr.Proofs.Description.Lexemes

/-!
# Lalr.Proofs.Description.Layout

Descriptions as they are laid out: tokens, with blanks and comments between them.  Whatever the layout, a
lexer yields the tokens (`exists_yields_of_laidOut`).
-/

namespace Lalr.Description

variable {cs sep rest : List Char} {n : Symbol} {ts : List (Symbol × String)}
  {es : List (Terminal × List Char)}

/-! ## layouts -/

/-- Blanks and comments, each comment with the newline that ends it. -/
inductive Layout : List Char → Prop
  | nil : Layout []
  | blank {c : Char} {cs : List Char} (hc : isBlank c = true) (h : Layout cs) : Layout (c :: cs)
  | comment {body cs : List Char} (hbody : '\n' ∉ body) (h : Layout cs) :
    Layout ('#' :: (body ++ '\n' :: cs))

/-- What may stand behind the last token: the last comment may do without its newline. -/
inductive Closing : List Char → Prop
  | layout {cs : List Char} (h : Layout cs) : Closing cs
  | comment {cs body : List Char} (h : Layout cs) (hbody : '\n' ∉ body) : Closing (cs ++ '#' :: body)

/-- Tokens, by the names of their terminals and their texts, that follow another one in a text: a layout
that is not empty stands in front of each. -/
inductive Follows : List (Symbol × String) → List Char → Prop
  | nil {cs : List Char} (h : Closing cs) : Follows [] cs
  | cons {n : Symbol} {s : String} {ts : List (Symbol × String)} {sep rest : List Char} (hsep : Layout sep)
    (hne : sep ≠ []) (hrest : Follows ts rest) : Follows ((n, s) :: ts) (sep ++ (s.toList ++ rest))

/-- Tokens that make up a text with layouts between them, in front of the first and behind the last. -/
inductive LaidOut : List (Symbol × String) → List Char → Prop
  | nil {cs : List Char} (h : Closing cs) : LaidOut [] cs
  | cons {n : Symbol} {s : String} {ts : List (Symbol × String)} {sep rest : List Char} (hsep : Layout sep)
    (hrest : Follows ts rest) : LaidOut ((n, s) :: ts) (sep ++ (s.toList ++ rest))

/-- Tokens that reach the parser. -/
structure IsToken (e : Symbol × String) : Prop where
  spells : Spells e.1 e.2.toList
  ne_blanks : e.1 ≠ "WS"
  ne_comment : e.1 ≠ "COMMENT"

/-- What separates tokens begins with a blank or a comment. -/
def isSeparating (c : Char) : Bool := isBlank c || c == '#'

theorem Layout.isSeparating_of_head? (h : Layout cs) : ∀ c ∈ cs.head?, isSeparating c = true := by
  cases h with
  | nil => nofun
  | blank hc => rintro _ ⟨⟩; simp [isSeparating, hc]
  | comment => rintro _ ⟨⟩; rfl

theorem Layout.dropWhile (h : Layout cs) : Layout (cs.dropWhile isBlank) := by
  induction h with
  | nil => exact .nil
  | blank hc _ ih => rwa [List.dropWhile_cons_of_pos hc]
  | comment hbody h => exact .comment hbody h

theorem Follows.isSeparating_of_head? (h : Follows ts cs) : ∀ c ∈ cs.head?, isSeparating c = true := by
  cases h with
  | nil h =>
      cases h with
      | layout h => exact h.isSeparating_of_head?
      | @comment cs body h =>
          intro c hc
          rw [List.head?_append, Option.mem_def, Option.or_eq_some_iff] at hc
          rcases hc with hc | ⟨-, hc⟩
          · exact h.isSeparating_of_head? c hc
          · obtain rfl : '#' = c := Option.some.inj hc
            rfl
  | cons hsep hne =>
      intro c hc
      obtain ⟨d, sep, rfl⟩ := List.exists_cons_of_ne_nil hne
      exact hsep.isSeparating_of_head? c hc

/-! ## lexemes of a layout -/

theorem isBlank_hash : isBlank '#' = false := by decide

/-- A lexeme ahead of what does not continue it. -/
theorem Munched.spells {u : List Char} (hm : Munched terminals rest es) (h : Spells n u)
    (hrest : ∀ c ∈ rest.head?, continues n c = false) : ∃ t ∈ terminals, t.name = n ∧
      Munched terminals (u ++ rest) ((t, u) :: es) := by
  obtain ⟨t, ht, rfl, -⟩ := h.exists_matches
  exact ⟨t, ht, rfl, .cons (h.longestLexeme hrest) (firstMatch_of_spells ht h) hm⟩

/-- The lexemes that are not skipped. -/
def kept (es : List (Terminal × List Char)) : List (Terminal × List Char) := es.filter (!·.1.skip)

theorem skip_iff : ∀ t ∈ terminals, t.skip = true ↔ t.name = "WS" ∨ t.name = "COMMENT" := by
  decide

theorem kept_cons_of_skipped {t : Terminal} {u : List Char} (ht : t ∈ terminals)
    (h : t.name = "WS" ∨ t.name = "COMMENT") : kept ((t, u) :: es) = kept es := by
  rw [kept, List.filter_cons_of_neg (by simp [(skip_iff t ht).2 h]), kept]

/-- A layout in front of a text adds lexemes that are skipped. -/
theorem Layout.exists_munched (h : Layout sep) (hrest : ∀ c ∈ rest.head?, isBlank c = false)
    (hm : Munched terminals rest es) :
    ∃ es', Munched terminals (sep ++ rest) es' ∧ kept es' = kept es := by
  induction hn : sep.length using Nat.strongRecOn generalizing sep with
  | ind n ih =>
      cases h with
      | nil => exact ⟨es, hm, rfl⟩
      | @blank c cs hc h =>
          -- the longest run of blanks is one lexeme
          have hdrop : ((c :: cs).dropWhile isBlank).length < n := by
            rw [List.dropWhile_cons_of_pos hc, ← hn, List.length_cons]
            exact Nat.lt_succ_of_le (List.length_dropWhile_le _ _)
          obtain ⟨es', hm', hkept⟩ := ih _ hdrop (Layout.blank hc h).dropWhile rfl
          have hspells : Spells "WS" ((c :: cs).takeWhile isBlank) := by
            refine .blanks ?_ fun d hd => List.all_eq_true.1 List.all_takeWhile d hd
            rw [List.takeWhile_cons_of_pos hc]
            exact List.cons_ne_nil _ _
          have hnext : ∀ d ∈ ((c :: cs).dropWhile isBlank ++ rest).head?, continues "WS" d = false := by
            intro d hd
            rw [List.head?_append, Option.mem_def, Option.or_eq_some_iff] at hd
            rcases hd with hd | ⟨-, hd⟩
            · have hstop := List.head?_dropWhile_not isBlank (c :: cs)
              rwa [hd] at hstop
            · exact hrest d hd
          obtain ⟨t, ht, hname, hmunched⟩ := Munched.spells hm' hspells hnext
          rw [← List.append_assoc, List.takeWhile_append_dropWhile] at hmunched
          exact ⟨_, hmunched, (kept_cons_of_skipped ht (.inl hname)).trans hkept⟩
      | @comment body cs hbody h =>
          have hlength : ('\n' :: cs).length < n := by
            rw [← hn, List.length_cons, List.length_cons, List.length_append, List.length_cons]
            omega
          obtain ⟨es', hm', hkept⟩ := ih _ hlength (.blank (by decide) h) rfl
          have hnext : ∀ d ∈ ('\n' :: cs ++ rest).head?, continues "COMMENT" d = false := by
            rintro _ ⟨⟩
            decide
          obtain ⟨t, ht, hname, hmunched⟩ := Munched.spells hm' (.comment hbody) hnext
          have hsplit : '#' :: (body ++ '\n' :: cs) ++ rest = '#' :: body ++ ('\n' :: cs ++ rest) := by simp
          rw [hsplit]
          exact ⟨_, hmunched, (kept_cons_of_skipped ht (.inr hname)).trans hkept⟩

theorem Closing.exists_munched (h : Closing cs) : ∃ es, Munched terminals cs es ∧ kept es = [] := by
  have hend {p : Char → Bool} : ∀ c ∈ ([] : List Char).head?, p c = false := nofun
  cases h with
  | layout h =>
      obtain ⟨es, hm, hkept⟩ := h.exists_munched hend .nil
      exact ⟨es, by rwa [List.append_nil] at hm, hkept⟩
  | @comment cs body h hbody =>
      obtain ⟨t, ht, hname, hm⟩ := Munched.spells .nil (.comment hbody) hend
      rw [List.append_nil] at hm
      obtain ⟨es, hm', hkept⟩ := h.exists_munched (by rintro _ ⟨⟩; exact isBlank_hash) hm
      exact ⟨es, hm', hkept.trans (kept_cons_of_skipped ht (.inr hname))⟩

/-! ## tokens in a layout -/

/-- A separator does not make a token longer. -/
theorem IsToken.continues_eq {e : Symbol × String} (he : IsToken e) {c : Char} (hc : isSeparating c = true) :
    continues e.1 c = false := by
  have hnone : [' ', '\t', '\r', '\n', '#'].any isNameChar = false := by decide
  have hmem : c ∈ [' ', '\t', '\r', '\n', '#'] := by
    simpa [isSeparating, isBlank, or_assoc] using hc
  rw [continues, if_neg he.ne_blanks, if_neg he.ne_comment,
    Bool.eq_false_iff.2 (List.any_eq_false.1 hnone c hmem), ite_self]

/-- A token does not begin with a blank. -/
theorem IsToken.isBlank_of_head? {e : Symbol × String} (he : IsToken e) :
    ∀ c ∈ (e.2.toList ++ rest).head?, isBlank c = false := by
  intro c hc
  obtain ⟨d, ds, hds, hlead⟩ := he.spells.exists_lead
  rw [hds] at hc
  obtain rfl : d = c := Option.some.inj hc
  refine Bool.eq_false_iff.2 fun hblank => ?_
  rw [lead?_of_isBlank hblank] at hlead
  rcases hlead with hlead | ⟨hlead, -⟩
  · exact he.ne_blanks (Option.some.inj hlead).symm
  · cases hlead

/-- The token of a lexeme. -/
def entryOf (e : Terminal × List Char) : Symbol × String := (e.1.name, String.ofList e.2)

/-- A token behind a layout, and what follows it. -/
theorem IsToken.exists_munched {s : String} (he : IsToken (n, s)) (hsep : Layout sep)
    (hrest : Follows ts rest) (hm : Munched terminals rest es) (hes : (kept es).map entryOf = ts) :
    ∃ es', Munched terminals (sep ++ (s.toList ++ rest)) es' ∧ (kept es').map entryOf = (n, s) :: ts := by
  obtain ⟨t, ht, rfl, hm'⟩ := Munched.spells hm he.spells fun c hc =>
    he.continues_eq (hrest.isSeparating_of_head? c hc)
  obtain ⟨es', hm'', hkept⟩ := hsep.exists_munched he.isBlank_of_head? hm'
  have hskip : t.skip = false := Bool.eq_false_iff.2 fun h =>
    ((skip_iff t ht).1 h).elim he.ne_blanks he.ne_comment
  refine ⟨es', hm'', ?_⟩
  rw [hkept, kept, List.filter_cons_of_pos (by simp [hskip]), List.map_cons, ← kept, hes]
  simp [entryOf]

theorem Follows.exists_munched (h : Follows ts cs) (hts : ∀ e ∈ ts, IsToken e) :
    ∃ es, Munched terminals cs es ∧ (kept es).map entryOf = ts := by
  induction h with
  | nil h =>
      obtain ⟨es, hm, hkept⟩ := h.exists_munched
      exact ⟨es, hm, by rw [hkept, List.map_nil]⟩
  | cons hsep _ hrest ih =>
      obtain ⟨he, hts⟩ := List.forall_mem_cons.1 hts
      obtain ⟨es, hm, hes⟩ := ih hts
      exact he.exists_munched hsep hrest hm hes

theorem LaidOut.exists_munched (h : LaidOut ts cs) (hts : ∀ e ∈ ts, IsToken e) :
    ∃ es, Munched terminals cs es ∧ (kept es).map entryOf = ts := by
  cases h with
  | nil h => exact (Follows.nil h).exists_munched nofun
  | cons hsep hrest =>
      obtain ⟨he, hts⟩ := List.forall_mem_cons.1 hts
      obtain ⟨es, hm, hes⟩ := hrest.exists_munched hts
      exact he.exists_munched hsep hrest hm hes

/-- Whatever the layout, a lexer yields the tokens that are laid out. -/
theorem exists_yields_of_laidOut {lexicon : Lexicon} (h : Lexicon.ofTerminals terminals = .ok lexicon)
    {text : String} (hts : ∀ e ∈ ts, IsToken e) (htext : LaidOut ts text.toList) : ∃ tokens p,
      (Lexer.start lexicon (.ofString text)).Yields tokens (.ok p) ∧
        tokens.map (fun t => (t.name, t.text)) = ts := by
  obtain ⟨es, hm, rfl⟩ := htext.exists_munched hts
  have hremaining : (Lexer.start lexicon (.ofString text)).remaining = text.toList :=
    Source.text_map_char text.toList
  have hnames : ∀ t ∈ terminals, t.name ≠ endMarker := by decide
  exact Lexer.exists_yields_of_munched (l := .start lexicon (.ofString text)) h hnames
    (Source.failures_map_char _) (hremaining ▸ hm)

end Lalr.Description
