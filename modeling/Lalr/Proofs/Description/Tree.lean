import Lalr.Description.Reader
import Lalr.Proofs.Description.Written
import Lalr.Proofs.Parser.Tree

/-!
# Lalr.Proofs.Description.Tree

Parse trees of written descriptions.  The tokens of every part of a description have a parse tree of the
format that is read as that part (`Reads`), from names and types up to the description itself
(`reads_description`).
-/

namespace Lalr

/-- The name and the text of a token. -/
def Token.entry (t : Token) : Symbol × String := (t.name, t.text)

namespace Description

variable {α β : Type} {X : Symbol} {w : List Symbol} {es es' : List (Symbol × String)} {x : α}
  {read? : Tree → Option α} {P : List Tree → Prop}

/-! ## trees and forests -/

/-- Tokens with some names and texts have a parse tree for a symbol, and it is read as a value. -/
def Reads (X : Symbol) (read? : Tree → Option α) (es : List (Symbol × String)) (x : α) : Prop :=
  ∀ tokens : List Token, tokens.map Token.entry = es →
    ∃ T, ParseTree format X T ∧ T.tokens = tokens ∧ read? T = some x

/-- Tokens with some names and texts have parse trees for the symbols of a string. -/
def Forest (w : List Symbol) (es : List (Symbol × String)) (P : List Tree → Prop) : Prop :=
  ∀ tokens : List Token, tokens.map Token.entry = es →
    ∃ Ts, ParseForest format w Ts ∧ Tree.tokensOf Ts = tokens ∧ P Ts

theorem forest_nil : Forest [] [] (· = []) := by
  intro tokens htokens
  rw [List.map_eq_nil_iff] at htokens
  exact ⟨[], .nil, htokens ▸ rfl, rfl⟩

theorem Reads.forest_cons (h : Reads X read? es x) (hs : Forest w es' P) :
    Forest (X :: w) (es ++ es') fun Ts => ∃ T, read? T = some x ∧ ∃ Ts', P Ts' ∧ Ts = T :: Ts' := by
  intro tokens htokens
  obtain ⟨front, rest, rfl, hfront, hrest⟩ := List.map_eq_append_iff.1 htokens
  obtain ⟨T, hT, rfl, hread⟩ := h front hfront
  obtain ⟨Ts, hTs, rfl, hP⟩ := hs rest hrest
  exact ⟨T :: Ts, .cons hT hTs, by rw [Tree.tokensOf], T, hread, Ts, hP, rfl⟩

/-- A tree for a production, from trees for its symbols. -/
theorem Forest.reads {k : Nat} {p : Production} (h : Forest p.symbols es P)
    (hk : format.productionList[k]? = some p) (hread : ∀ Ts, P Ts → read? (.node k Ts) = some x) :
    Reads p.name read? es x := by
  intro tokens htokens
  obtain ⟨Ts, hTs, htokens, hP⟩ := h tokens htokens
  exact ⟨.node k Ts, .node hk hTs, by rw [Tree.tokens, htokens], hread Ts hP⟩

theorem reads_leaf {n : Symbol} (hn : n ∈ format.terminalNames) (s : String) :
    Reads n leafText? [(n, s)] s := by
  intro tokens htokens
  obtain ⟨t, rfl, hentry⟩ := List.map_eq_singleton_iff.1 htokens
  obtain ⟨rfl, rfl⟩ : t.name = n ∧ t.text = s := Prod.mk.inj hentry
  exact ⟨.leaf t, .leaf hn, by rw [Tree.tokens], rfl⟩

/-- A list that goes on to the right, element by element. -/
theorem Reads.extend {read? : Tree → Option (List α)} {tokensOf : β → List (Symbol × String)} {f : β → α}
    {acc : List α} {xs : List β} (hsnoc : ∀ x ∈ xs, ∀ es acc, Reads X read? es acc →
      Reads X read? (es ++ tokensOf x) (acc ++ [f x]))
    (h : Reads X read? es acc) : Reads X read? (es ++ xs.flatMap tokensOf) (acc ++ xs.map f) := by
  induction xs generalizing es acc with
  | nil => rwa [List.flatMap_nil, List.map_nil, List.append_nil, List.append_nil]
  | cons x xs ih =>
      obtain ⟨hx, hxs⟩ := List.forall_mem_cons.1 hsnoc
      have hmore := ih hxs (hx es acc h)
      rwa [List.append_assoc, List.append_assoc, List.singleton_append, ← List.flatMap_cons,
        ← List.map_cons] at hmore

/-! ## names and types -/

theorem reads_names (symbols : List Symbol) :
    Reads "names" namesOf? (symbols.map (("NAME", ·))) symbols := by
  have hnil : Reads "names" namesOf? [] [] :=
    forest_nil.reads (k := 18) (p := ⟨"names", []⟩) rfl (by rintro _ rfl; rfl)
  have hsnoc (s : Symbol) (_ : s ∈ symbols) (es : List (Symbol × String)) (acc : List Symbol)
      (h : Reads "names" namesOf? es acc) : Reads "names" namesOf? (es ++ [("NAME", s)]) (acc ++ [s]) := by
    refine (h.forest_cons ((reads_leaf (by decide) s).forest_cons forest_nil)).reads
      (k := 17) (p := ⟨"names", ["names", "NAME"]⟩) rfl ?_
    rintro _ ⟨_, hnames, _, ⟨_, hname, _, rfl, rfl⟩, rfl⟩
    simp [namesOf?, hnames, hname]
  have h := hnil.extend hsnoc
  rwa [List.nil_append, List.nil_append, ← List.map_eq_flatMap, List.map_id'] at h

theorem reads_type {t : TypeName} (h : t.Written) : Reads "type" typeOf? t.tokens t := by
  induction h with
  | @simple name h =>
      refine ((reads_leaf (by decide) name).forest_cons forest_nil).reads
        (k := 10) (p := ⟨"type", ["NAME"]⟩) rfl ?_
      rintro _ ⟨_, hname, _, rfl, rfl⟩
      simp [typeOf?, hname]
  | @applied name arguments h hne hs ih =>
      obtain ⟨t, ts, rfl⟩ := List.exists_cons_of_ne_nil hne
      obtain ⟨ht, hts⟩ := List.forall_mem_cons.1 ih
      have hfirst : Reads "types" typesOf? t.tokens [t] := by
        have hforest := ht.forest_cons forest_nil
        rw [List.append_nil] at hforest
        refine hforest.reads (k := 12) (p := ⟨"types", ["type"]⟩) rfl ?_
        rintro _ ⟨_, ht, _, rfl, rfl⟩
        simp [typesOf?, ht]
      have hsnoc (t' : TypeName) (ht' : t' ∈ ts) (es : List (Symbol × String)) (acc : List TypeName)
          (h : Reads "types" typesOf? es acc) :
          Reads "types" typesOf? (es ++ ("COMMA", ",") :: t'.tokens) (acc ++ [t']) := by
        have hforest := h.forest_cons ((reads_leaf (n := "COMMA") (by decide) ",").forest_cons
          ((hts t' ht').forest_cons forest_nil))
        rw [List.append_nil] at hforest
        refine hforest.reads (k := 13) (p := ⟨"types", ["types", "COMMA", "type"]⟩) rfl ?_
        rintro _ ⟨_, htypes, _, ⟨_, -, _, ⟨_, htype, _, rfl, rfl⟩, rfl⟩, rfl⟩
        simp [typesOf?, htypes, htype]
      have htypes : Reads "types" typesOf? (TypeName.tokensOf (t :: ts)) (t :: ts) := by
        rw [TypeName.tokensOf, TypeName.moreTokens_eq]
        have h := hfirst.extend hsnoc
        rwa [List.map_id'] at h
      have hforest := (reads_leaf (n := "NAME") (by decide) name).forest_cons
        ((reads_leaf (n := "LBRACKET") (by decide) "[").forest_cons
          (htypes.forest_cons ((reads_leaf (n := "RBRACKET") (by decide) "]").forest_cons forest_nil)))
      rw [TypeName.tokens]
      refine hforest.reads (k := 11) (p := ⟨"type", ["NAME", "LBRACKET", "types", "RBRACKET"]⟩) rfl ?_
      rintro _ ⟨_, hname, _, ⟨_, -, _, ⟨_, htypes, _, ⟨_, -, _, rfl, rfl⟩, rfl⟩, rfl⟩, rfl⟩
      simp [typeOf?, hname, htypes]

/-! ## alternatives and declarations -/

/-- An alternative with the code that its block holds. -/
def unwrapAlternative (a : Alternative) : Alternative := ⟨a.symbols, stripCode a.code⟩

/-- A declaration with what its quotes and blocks hold. -/
def unwrapDeclaration : Declaration → Declaration
  | .header code => .header (stripCode code)
  | .start name => .start name
  | .terminal t => .terminal ⟨t.name, unquote t.pattern, t.skip⟩
  | .rule name returns alternatives => .rule name returns (alternatives.map unwrapAlternative)

/-- A description with what its quotes and blocks hold. -/
def unwrap (d : Description) : Description := ⟨d.name, d.declarations.map unwrapDeclaration⟩

theorem reads_alternative (a : Alternative) :
    Reads "alternative" alternativeOf? a.tokens (unwrapAlternative a) := by
  refine ((reads_names a.symbols).forest_cons ((reads_leaf (n := "CODE") (by decide) a.code).forest_cons
    forest_nil)).reads (k := 16) (p := ⟨"alternative", ["names", "CODE"]⟩) rfl ?_
  rintro _ ⟨_, hnames, _, ⟨_, hcode, _, rfl, rfl⟩, rfl⟩
  simp [alternativeOf?, hnames, hcode, unwrapAlternative]

theorem reads_alternatives {as : List Alternative} (hne : as ≠ []) :
    Reads "alternatives" alternativesOf? (Alternative.tokensOf as) (as.map unwrapAlternative) := by
  obtain ⟨a, as, rfl⟩ := List.exists_cons_of_ne_nil hne
  have hfirst : Reads "alternatives" alternativesOf? a.tokens [unwrapAlternative a] := by
    have hforest := (reads_alternative a).forest_cons forest_nil
    rw [List.append_nil] at hforest
    refine hforest.reads (k := 14) (p := ⟨"alternatives", ["alternative"]⟩) rfl ?_
    rintro _ ⟨_, ha, _, rfl, rfl⟩
    simp [alternativesOf?, ha]
  have hsnoc (a' : Alternative) (_ : a' ∈ as) (es : List (Symbol × String)) (acc : List Alternative)
      (h : Reads "alternatives" alternativesOf? es acc) : Reads "alternatives" alternativesOf?
        (es ++ ("OR", "|") :: a'.tokens) (acc ++ [unwrapAlternative a']) := by
    have hforest := h.forest_cons ((reads_leaf (n := "OR") (by decide) "|").forest_cons
      ((reads_alternative a').forest_cons forest_nil))
    rw [List.append_nil] at hforest
    refine hforest.reads (k := 15) (p := ⟨"alternatives", ["alternatives", "OR", "alternative"]⟩) rfl ?_
    rintro _ ⟨_, has, _, ⟨_, -, _, ⟨_, ha, _, rfl, rfl⟩, rfl⟩, rfl⟩
    simp [alternativesOf?, has, ha]
  exact hfirst.extend hsnoc

theorem reads_flags (skip : Bool) :
    Reads "flags" flagsOf? (if skip then [("SKIP", "@skip")] else []) skip := by
  cases skip with
  | true =>
      refine ((reads_leaf (n := "SKIP") (by decide) "@skip").forest_cons forest_nil).reads
        (k := 8) (p := ⟨"flags", ["SKIP"]⟩) rfl ?_
      rintro _ ⟨_, -, _, rfl, rfl⟩
      rfl
  | false => exact forest_nil.reads (k := 9) (p := ⟨"flags", []⟩) rfl (by rintro _ rfl; rfl)

theorem reads_declaration {d : Declaration} (h : d.Written) :
    Reads "declaration" declarationOf? d.tokens (unwrapDeclaration d) := by
  have hsemicolon := (reads_leaf (n := "SEMICOLON") (by decide) ";").forest_cons forest_nil
  have hname (name : String) : Reads "NAME" leafText? [("NAME", name)] name := reads_leaf (by decide) name
  have hcolon : Reads "COLON" leafText? [("COLON", ":")] ":" := reads_leaf (by decide) ":"
  cases d with
  | header code =>
      refine ((reads_leaf (n := "HEADER") (by decide) "@header").forest_cons
        ((reads_leaf (n := "CODE") (by decide) code).forest_cons forest_nil)).reads
        (k := 4) (p := ⟨"declaration", ["HEADER", "CODE"]⟩) rfl ?_
      rintro _ ⟨_, -, _, ⟨_, hcode, _, rfl, rfl⟩, rfl⟩
      simp [declarationOf?, hcode, unwrapDeclaration]
  | start name =>
      refine ((reads_leaf (n := "AT_START") (by decide) "@start").forest_cons
        ((hname name).forest_cons hsemicolon)).reads
        (k := 5) (p := ⟨"declaration", ["AT_START", "NAME", "SEMICOLON"]⟩) rfl ?_
      rintro _ ⟨_, -, _, ⟨_, hname, _, ⟨_, -, _, rfl, rfl⟩, rfl⟩, rfl⟩
      simp [declarationOf?, hname, unwrapDeclaration]
  | terminal t =>
      have hforest := (hname t.name).forest_cons (hcolon.forest_cons
        ((reads_leaf (n := "STRING") (by decide) t.pattern).forest_cons
          ((reads_flags t.skip).forest_cons hsemicolon)))
      have htokens : (Declaration.terminal t).tokens = [("NAME", t.name)] ++ ([("COLON", ":")] ++
          ([("STRING", t.pattern)] ++ ((if t.skip then [("SKIP", "@skip")] else []) ++
            ([("SEMICOLON", ";")] ++ [])))) := by
        simp [Declaration.tokens]
      rw [htokens]
      refine hforest.reads
        (k := 6) (p := ⟨"declaration", ["NAME", "COLON", "STRING", "flags", "SEMICOLON"]⟩) rfl ?_
      rintro _ ⟨_, hname, _, ⟨_, -, _, ⟨_, hpattern, _, ⟨_, hflags, _, ⟨_, -, _, rfl, rfl⟩, rfl⟩, rfl⟩,
        rfl⟩, rfl⟩
      simp [declarationOf?, hname, hpattern, hflags, unwrapDeclaration]
  | rule name returns alternatives =>
      obtain ⟨-, hreturns, hne, -⟩ := h
      have hforest := (hname name).forest_cons ((reads_leaf (n := "RETURNS") (by decide) "@returns").forest_cons
        ((reads_type hreturns).forest_cons (hcolon.forest_cons
          ((reads_alternatives hne).forest_cons hsemicolon))))
      have htokens : (Declaration.rule name returns alternatives).tokens = [("NAME", name)] ++
          ([("RETURNS", "@returns")] ++ (returns.tokens ++ ([("COLON", ":")] ++
            (Alternative.tokensOf alternatives ++ ([("SEMICOLON", ";")] ++ []))))) := by
        simp [Declaration.tokens]
      rw [htokens]
      refine hforest.reads (k := 7)
        (p := ⟨"declaration", ["NAME", "RETURNS", "type", "COLON", "alternatives", "SEMICOLON"]⟩) rfl ?_
      rintro _ ⟨_, hname, _, ⟨_, -, _, ⟨_, htype, _, ⟨_, -, _, ⟨_, has, _, ⟨_, -, _, rfl, rfl⟩, rfl⟩,
        rfl⟩, rfl⟩, rfl⟩, rfl⟩
      simp [declarationOf?, hname, htype, has, unwrapDeclaration]

theorem reads_declarations {ds : List Declaration} (h : ∀ d ∈ ds, d.Written) :
    Reads "declarations" declarationsOf? (ds.flatMap Declaration.tokens) (ds.map unwrapDeclaration) := by
  have hnil : Reads "declarations" declarationsOf? [] [] :=
    forest_nil.reads (k := 3) (p := ⟨"declarations", []⟩) rfl (by rintro _ rfl; rfl)
  have hsnoc (d : Declaration) (hd : d ∈ ds) (es : List (Symbol × String)) (acc : List Declaration)
      (hacc : Reads "declarations" declarationsOf? es acc) : Reads "declarations" declarationsOf?
        (es ++ d.tokens) (acc ++ [unwrapDeclaration d]) := by
    have hforest := hacc.forest_cons ((reads_declaration (h d hd)).forest_cons forest_nil)
    rw [List.append_nil] at hforest
    refine hforest.reads (k := 2) (p := ⟨"declarations", ["declarations", "declaration"]⟩) rfl ?_
    rintro _ ⟨_, hds, _, ⟨_, hd, _, rfl, rfl⟩, rfl⟩
    simp [declarationsOf?, hds, hd]
  exact hnil.extend hsnoc

/-- The name of a grammar. -/
def nameOf? : Tree → Option String
  | .node 1 [_, name, _] => leafText? name
  | _ => none

theorem ofTree?_of_nameOf? {T Ts : Tree} {name : String} {ds : List Declaration}
    (h : nameOf? T = some name) (hs : declarationsOf? Ts = some ds) :
    ofTree? (.node 0 [T, Ts]) = some ⟨name, ds⟩ := by
  unfold nameOf? at h
  split at h
  · simp [ofTree?, h, hs]
  · cases h

/-- The tokens of a written description have a parse tree that is read as the description. -/
theorem reads_description {d : Description} (h : d.Written) :
    Reads "description" ofTree? d.tokens (unwrap d) := by
  have hgrammar : Reads "grammar" nameOf? [("GRAMMAR", "@grammar"), ("NAME", d.name), ("SEMICOLON", ";")]
      d.name := by
    refine ((reads_leaf (n := "GRAMMAR") (by decide) "@grammar").forest_cons
      ((reads_leaf (n := "NAME") (by decide) d.name).forest_cons
        ((reads_leaf (n := "SEMICOLON") (by decide) ";").forest_cons forest_nil))).reads
      (k := 1) (p := ⟨"grammar", ["GRAMMAR", "NAME", "SEMICOLON"]⟩) rfl ?_
    rintro _ ⟨_, -, _, ⟨_, hname, _, ⟨_, -, _, rfl, rfl⟩, rfl⟩, rfl⟩
    exact hname
  have hforest := hgrammar.forest_cons ((reads_declarations h.declarations).forest_cons forest_nil)
  rw [List.append_nil] at hforest
  refine hforest.reads (k := 0) (p := ⟨"description", ["grammar", "declarations"]⟩) rfl ?_
  rintro _ ⟨_, hname, _, ⟨_, hds, _, rfl, rfl⟩, rfl⟩
  exact ofTree?_of_nameOf? hname hds

end Description

end Lalr
