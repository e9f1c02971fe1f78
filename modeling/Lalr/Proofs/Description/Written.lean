import Lalr.Description.Basic
import Lalr.Proofs.Description.Layout

/-!
# Lalr.Proofs.Description.Written

Descriptions as they are written, and their tokens in the order of the format.  A written description
still has its patterns in quotes and its code in braces.
-/

namespace Lalr

open Description (IsName IsString Block IsToken literals)

/-! ## types -/

/-- Types that can be written: all names are names, and brackets hold at least one type. -/
inductive TypeName.Written : TypeName → Prop
  | simple {name : String} (h : IsName name.toList) : Written (.simple name)
  | applied {name : String} {arguments : List TypeName} (h : IsName name.toList) (hne : arguments ≠ [])
    (hs : ∀ t ∈ arguments, Written t) : Written (.applied name arguments)

mutual

/-- The tokens of a type. -/
def TypeName.tokens : TypeName → List (Symbol × String)
  | .simple name => [("NAME", name)]
  | .applied name arguments =>
    ("NAME", name) :: ("LBRACKET", "[") :: (TypeName.tokensOf arguments ++ [("RBRACKET", "]")])

/-- The tokens of types with commas between them. -/
def TypeName.tokensOf : List TypeName → List (Symbol × String)
  | [] => []
  | t :: ts => t.tokens ++ TypeName.moreTokens ts

/-- The tokens of types with a comma in front of each. -/
def TypeName.moreTokens : List TypeName → List (Symbol × String)
  | [] => []
  | t :: ts => ("COMMA", ",") :: (t.tokens ++ TypeName.moreTokens ts)

end

theorem TypeName.moreTokens_eq (ts : List TypeName) :
    moreTokens ts = ts.flatMap fun t => ("COMMA", ",") :: t.tokens := by
  induction ts with
  | nil => rw [moreTokens, List.flatMap_nil]
  | cons t ts ih => rw [moreTokens, ih, List.flatMap_cons, List.cons_append]

/-! ## alternatives, declarations and descriptions -/

/-- Alternatives that can be written. -/
structure Alternative.Written (a : Alternative) : Prop where
  symbols : ∀ s ∈ a.symbols, IsName s.toList
  code : Block 3 a.code.toList

/-- The tokens of an alternative. -/
def Alternative.tokens (a : Alternative) : List (Symbol × String) :=
  a.symbols.map (("NAME", ·)) ++ [("CODE", a.code)]

/-- The tokens of alternatives with bars between them. -/
def Alternative.tokensOf : List Alternative → List (Symbol × String)
  | [] => []
  | a :: as => a.tokens ++ as.flatMap fun a => ("OR", "|") :: a.tokens

/-- Declarations that can be written. -/
def Declaration.Written : Declaration → Prop
  | .header code => Block 3 code.toList
  | .start name => IsName name.toList
  | .terminal t => IsName t.name.toList ∧ IsString t.pattern.toList
  | .rule name returns alternatives =>
    IsName name.toList ∧ returns.Written ∧ alternatives ≠ [] ∧ ∀ a ∈ alternatives, a.Written

/-- The tokens of a declaration. -/
def Declaration.tokens : Declaration → List (Symbol × String)
  | .header code => [("HEADER", "@header"), ("CODE", code)]
  | .start name => [("AT_START", "@start"), ("NAME", name), ("SEMICOLON", ";")]
  | .terminal t => [("NAME", t.name), ("COLON", ":"), ("STRING", t.pattern)] ++
    (if t.skip then [("SKIP", "@skip")] else []) ++ [("SEMICOLON", ";")]
  | .rule name returns alternatives => [("NAME", name), ("RETURNS", "@returns")] ++ returns.tokens ++
    [("COLON", ":")] ++ Alternative.tokensOf alternatives ++ [("SEMICOLON", ";")]

/-- Descriptions that can be written. -/
structure Description.Written (d : Description) : Prop where
  name : IsName d.name.toList
  declarations : ∀ e ∈ d.declarations, e.Written

/-- The tokens of a description. -/
def Description.tokens (d : Description) : List (Symbol × String) :=
  [("GRAMMAR", "@grammar"), ("NAME", d.name), ("SEMICOLON", ";")] ++
    d.declarations.flatMap Declaration.tokens

/-! ## written tokens are tokens -/

theorem isToken_literal : ∀ e ∈ literals, IsToken e := by
  have hnames : ∀ e ∈ literals, e.1 ≠ "WS" ∧ e.1 ≠ "COMMENT" := by decide
  exact fun e he => ⟨.literal he, (hnames e he).1, (hnames e he).2⟩

theorem isToken_name {s : String} (h : IsName s.toList) : IsToken ("NAME", s) :=
  ⟨.name h, (by decide : "NAME" ≠ "WS"), (by decide : "NAME" ≠ "COMMENT")⟩

theorem isToken_string {s : String} (h : IsString s.toList) : IsToken ("STRING", s) :=
  ⟨.string h, (by decide : "STRING" ≠ "WS"), (by decide : "STRING" ≠ "COMMENT")⟩

theorem isToken_code {s : String} (h : Block 3 s.toList) : IsToken ("CODE", s) :=
  ⟨.code h, (by decide : "CODE" ≠ "WS"), (by decide : "CODE" ≠ "COMMENT")⟩

theorem TypeName.Written.isToken {t : TypeName} (h : t.Written) : ∀ e ∈ t.tokens, IsToken e := by
  induction h with
  | simple h =>
      rw [TypeName.tokens]
      exact List.forall_mem_singleton.2 (isToken_name h)
  | @applied name arguments h hne _ ih =>
      obtain ⟨t, ts, rfl⟩ := List.exists_cons_of_ne_nil hne
      obtain ⟨ht, hts⟩ := List.forall_mem_cons.1 ih
      have hmore : ∀ e ∈ TypeName.moreTokens ts, IsToken e := by
        rw [TypeName.moreTokens_eq]
        intro e he
        obtain ⟨t', ht', he⟩ := List.mem_flatMap.1 he
        exact List.forall_mem_cons.2 ⟨isToken_literal _ (by decide), hts t' ht'⟩ e he
      rw [TypeName.tokens, TypeName.tokensOf]
      simp only [List.forall_mem_cons, List.forall_mem_append]
      exact ⟨isToken_name h, isToken_literal _ (by decide), ⟨ht, hmore⟩, isToken_literal _ (by decide), nofun⟩

theorem Alternative.Written.isToken {a : Alternative} (h : a.Written) : ∀ e ∈ a.tokens, IsToken e := by
  rw [Alternative.tokens, List.forall_mem_append, List.forall_mem_map]
  exact ⟨fun s hs => isToken_name (h.symbols s hs), List.forall_mem_singleton.2 (isToken_code h.code)⟩

theorem Alternative.isToken_tokensOf {as : List Alternative} (h : ∀ a ∈ as, a.Written) :
    ∀ e ∈ tokensOf as, IsToken e := by
  cases as with
  | nil => exact fun _ he => absurd he List.not_mem_nil
  | cons a as =>
      obtain ⟨ha, has⟩ := List.forall_mem_cons.1 h
      rw [tokensOf, List.forall_mem_append]
      refine ⟨ha.isToken, fun e he => ?_⟩
      obtain ⟨a', ha', he⟩ := List.mem_flatMap.1 he
      exact List.forall_mem_cons.2 ⟨isToken_literal _ (by decide), (has a' ha').isToken⟩ e he

theorem Declaration.Written.isToken {d : Declaration} (h : d.Written) : ∀ e ∈ d.tokens, IsToken e := by
  have hliteral {e : Symbol × String} (he : e ∈ literals) : IsToken e := isToken_literal e he
  cases d with
  | header code =>
      simp only [Declaration.tokens, List.forall_mem_cons]
      exact ⟨hliteral (by decide), isToken_code h, nofun⟩
  | start name =>
      simp only [Declaration.tokens, List.forall_mem_cons]
      exact ⟨hliteral (by decide), isToken_name h, hliteral (by decide), nofun⟩
  | terminal t =>
      have hskip : ∀ e ∈ if t.skip then [("SKIP", "@skip")] else [], IsToken e := by
        split
        · exact List.forall_mem_singleton.2 (hliteral (by decide))
        · nofun
      simp only [Declaration.tokens, List.forall_mem_append, List.forall_mem_cons]
      exact ⟨⟨⟨isToken_name h.1, hliteral (by decide), isToken_string h.2, nofun⟩, hskip⟩,
        hliteral (by decide), nofun⟩
  | rule name returns alternatives =>
      obtain ⟨hname, hreturns, -, halternatives⟩ := h
      simp only [Declaration.tokens, List.forall_mem_append, List.forall_mem_cons]
      exact ⟨⟨⟨⟨⟨isToken_name hname, hliteral (by decide), nofun⟩, hreturns.isToken⟩,
        hliteral (by decide), nofun⟩, Alternative.isToken_tokensOf halternatives⟩,
        hliteral (by decide), nofun⟩

/-- The tokens of a description that can be written are tokens. -/
theorem Description.Written.isToken {d : Description} (h : d.Written) : ∀ e ∈ d.tokens, IsToken e := by
  simp only [Description.tokens, List.forall_mem_append, List.forall_mem_cons]
  refine ⟨⟨isToken_literal _ (by decide), isToken_name h.name, isToken_literal _ (by decide), nofun⟩,
    fun e he => ?_⟩
  obtain ⟨d', hd', he⟩ := List.mem_flatMap.1 he
  exact (h.declarations d' hd').isToken e he

end Lalr
