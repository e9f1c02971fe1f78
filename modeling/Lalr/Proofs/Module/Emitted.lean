import Lalr.Construction
import Lalr.Module.Emission
import Lalr.Proofs.Fallible
import Lalr.Proofs.Module.Validation
import Mathlib

/-!
# Lalr.Proofs.Module.Emitted

The signature of an emitted module.  The first line of a module is the one that is signed, so a module
has its own signature in front of those that the texts of its grammar spell
(`signatures_emitted`).  Signing counts slugs and no signatures: a grammar whose name, header, patterns or
action code spell a signature is emitted as well, as a module in which none is found (`emit_cases`).
-/

namespace Lalr.Module

variable {g : Grammar} {t : Table} {lang : Code.Language} {s : Signature} {source signed rest : List Char}

/-! ## the line that is signed -/

/-- The line to be signed, up to its slug. -/
def lineFront : List Char := '#' :: ' ' :: signingMark ++ [' ']

/-- A text whose first line holds a slug or a signature. -/
def lined (token rest : List Char) : List Char := lineFront ++ (token ++ '\n' :: rest)

/-- What stands in a module behind the line that is signed.  Texts of its grammar may take several lines. -/
def textLines (g : Grammar) (t : Table) (lang : Code.Language) : List (List Char) :=
  (openingLines g.name ++ headerLines g ++ "" :: terminalLines g.terminals ++ "" :: tableLines t ++
    ["", ""] ++ functionLines g lang ++ listLines g ++ closingLines).map String.toList

/-- A module begins with the line to be signed. -/
theorem unsigned_eq (g : Grammar) (t : Table) (lang : Code.Language) :
    unsigned g t lang = lined slug (Text.joinNewlines (textLines g t lang)) := by
  have hline : signatureLine = lineFront ++ slug := by decide
  have hne : textLines g t lang ≠ [] := List.cons_ne_nil _ _
  rw [lined, ← List.append_assoc, ← hline, ← Text.joinNewlines_cons signatureLine hne]
  rfl

theorem not_mem_joinNewlines {c : Char} {ls : List (List Char)} (hc : c ≠ '\n') (h : ∀ l ∈ ls, c ∉ l) :
    c ∉ Text.joinNewlines ls := by
  induction ls with
  | nil => exact List.not_mem_nil
  | cons l ls ih =>
      obtain ⟨hl, hls⟩ := List.forall_mem_cons.1 h
      by_cases hne : ls = []
      · simpa [hne, Text.joinNewlines] using hl
      · rw [Text.joinNewlines_cons l hne]
        simpa [hl, hc] using ih hls

/-- No signature reaches over a newline between joined texts. -/
theorem signatures_joinNewlines (ls : List (List Char)) :
    signatures (Text.joinNewlines ls) = ls.flatMap signatures := by
  induction ls with
  | nil => exact signatures_nil
  | cons l ls ih =>
      by_cases hne : ls = []
      · simp [hne, Text.joinNewlines]
      · rw [Text.joinNewlines_cons l hne, signatures_boundary (by decide), ih, List.flatMap_cons]

theorem signatures_lined_slug (rest : List Char) : signatures (lined slug rest) = signatures rest := by
  have hfront : signatures (lineFront ++ slug) = [] :=
    signatures_of_not_occurs (not_occurs_of_not_mem (by decide))
  rw [lined, ← List.append_assoc, signatures_boundary (by decide), hfront, List.nil_append]

theorem signatures_lined_token (hs : Spelled versionText s) (rest : List Char) :
    signatures (lined s.token rest) = s :: signatures rest := by
  have hmarked : lined s.token rest = ['#', ' '] ++ (marked versionText s ++ '\n' :: rest) := by
    rw [lined, lineFront, marked_eq hs]
    simp
  have hnewline : signatures ('\n' :: rest) = signatures rest :=
    (signatures_boundary (by decide) [] rest).trans (by rw [signatures_nil, List.nil_append])
  rw [hmarked, signatures_append_marked hs, hnewline,
    signatures_of_not_occurs (not_occurs_of_not_mem (by decide)), List.nil_append]

/-- Signing a text with no slug but in its first line. -/
theorem sign_lined (honce : Text.countChars slug (lined slug rest) = 1) :
    sign (lined slug rest) = .ok (lined (signatureOf (lined slug rest)).token rest) := by
  have hfront : Text.countChars slug lineFront = 0 := by decide_cbv
  refine sign_append hfront ?_
  rw [lined, Text.countChars_append_self slug_ne_nil slug_not_mem_tail, hfront] at honce
  omega

/-- Unless the signature that it is given stands in it already, such a text comes back from what was
signed. -/
theorem withSlug_lined (hs : Spelled versionText s) (h : ¬ s.token <:+: lined slug rest) :
    withSlug s (lined s.token rest) = lined slug rest := by
  have hfront : ¬ tokenStart <:+: lineFront := not_occurs_of_not_mem (by decide)
  refine withSlug_token hs (not_token_occurs hs hfront) fun hoccurs => h (hoccurs.trans ?_)
  exact ⟨lineFront ++ slug, [], by simp [lined]⟩

/-! ## what emission gives -/

/-- A module with its signature. -/
def emitted (g : Grammar) (t : Table) (lang : Code.Language) : List Char :=
  lined (signatureOf (unsigned g t lang)).token (Text.joinNewlines (textLines g t lang))

/-- Emission checks the code of a grammar, and then signs its module. -/
theorem emit_eq (g : Grammar) (t : Table) (lang : Code.Language) : emit g t lang =
    match Code.check g lang with
    | .error e => .error (.code e)
    | .ok () => (sign (unsigned g t lang)).mapError .signature := by
  rw [emit]
  cases Code.check g lang <;> rfl

theorem check_eq_ok (h : (Code.check g lang).isOk = true) : Code.check g lang = .ok () := by
  cases hcheck : Code.check g lang with
  | error e =>
      rw [hcheck] at h
      cases h
  | ok _ => rfl

theorem emit_of_once (hcheck : Code.check g lang = .ok ())
    (honce : Text.countChars slug (unsigned g t lang) = 1) : emit g t lang = .ok (emitted g t lang) := by
  have hsign : sign (unsigned g t lang) = .ok (emitted g t lang) := by
    rw [unsigned_eq] at honce
    rw [emitted, unsigned_eq]
    exact sign_lined honce
  rw [emit_eq, hcheck, hsign]
  rfl

/-- A module has its own signature in front of those that the texts of its grammar spell. -/
theorem signatures_emitted (g : Grammar) (t : Table) (lang : Code.Language) :
    signatures (emitted g t lang) = signatureOf (unsigned g t lang) :: signatures (unsigned g t lang) := by
  have hunsigned : signatures (unsigned g t lang) =
      signatures (Text.joinNewlines (textLines g t lang)) := by
    rw [unsigned_eq, signatures_lined_slug]
  rw [emitted, signatures_lined_token (spelled_signatureOf _), hunsigned]

theorem findSignature_emitted (h : signatures (unsigned g t lang) ≠ []) :
    findSignature (emitted g t lang) = .error .multiple := by
  obtain ⟨s, ss, hss⟩ := List.exists_cons_of_ne_nil h
  rw [findSignature, signatures_emitted, hss]

/-- Whatever language the code of a grammar is in, emission refuses a grammar whose code that language does
not take, and one that spells a slug.  All others get a module.  It carries a good signature if the texts of
the grammar spell none; if they do, the module has several signatures, and none is found.  That the texts
already hold the digest which depends on them is left out. -/
theorem emit_cases (g : Grammar) (t : Table) (lang : Code.Language)
    (hfresh : ¬ (signatureOf (unsigned g t lang)).token <:+: unsigned g t lang) :
    (∃ e, Code.check g lang = .error e ∧ emit g t lang = .error (.code e)) ∨
    (Text.countChars slug (unsigned g t lang) ≠ 1 ∧ emit g t lang = .error (.signature .notOneSlug)) ∨
    ∃ source, emit g t lang = .ok source ∧
      (signatures (unsigned g t lang) = [] →
        findSignature source = .ok (signatureOf (unsigned g t lang)) ∧
        validate source = .ok true ∧ isCurrent source = .ok true) ∧
      (signatures (unsigned g t lang) ≠ [] → findSignature source = .error .multiple) := by
  cases hcheck : Code.check g lang with
  | error e =>
      refine .inl ⟨e, rfl, ?_⟩
      rw [emit_eq, hcheck]
  | ok _ =>
      refine .inr ?_
      by_cases honce : Text.countChars slug (unsigned g t lang) = 1
      · refine .inr ⟨emitted g t lang, emit_of_once hcheck honce, fun hnone => ?_, findSignature_emitted⟩
        have hfind : findSignature (emitted g t lang) = .ok (signatureOf (unsigned g t lang)) := by
          rw [findSignature, signatures_emitted, hnone]
        have hsource : withSlug (signatureOf (unsigned g t lang)) (emitted g t lang) = unsigned g t lang := by
          have hunsigned := unsigned_eq g t lang
          refine (withSlug_lined (spelled_signatureOf _) ?_).trans hunsigned.symm
          rwa [← hunsigned]
        exact ⟨hfind, validate_of_withSlug hfind hsource⟩
      · refine .inl ⟨honce, ?_⟩
        rw [emit_eq, hcheck, sign_eq, if_pos honce]
        rfl

/-- A grammar of one token, with a header. -/
def headedGrammar (header : String) : Grammar where
  rules := [⟨⟨"S", ["a"]⟩, "$0", "object"⟩]
  terminals := [{ name := "a", pattern := "a" }]
  start := "S"
  header := header

/-- The table of such a grammar. -/
def headedTable : Table where
  rows := [⟨[("S", .goto 1), ("a", .shift 2)], by decide⟩, ⟨[(endMarker, .accept)], by decide⟩,
    ⟨[(endMarker, .reduce 0 "S" 1)], by decide⟩]

theorem exists_ofGrammar_headed (header : String) :
    ∃ c, Construction.ofGrammar (headedGrammar header) = .ok c ∧ c.table = headedTable :=
  exists_ok_of_map_toOption (by cbv)

/-- Only the lines of its header tell such a grammar from others. -/
theorem mem_textLines_headed {header : String} {l : List Char}
    (h : l ∈ textLines (headedGrammar header) headedTable .readable) :
    l ∈ (headerLines (headedGrammar header)).map String.toList ∨
      l ∈ textLines (headedGrammar "") headedTable .readable := by
  have hfunctions : functionLines (headedGrammar header) = functionLines (headedGrammar "") := rfl
  have hlist : listLines (headedGrammar header) = listLines (headedGrammar "") := rfl
  simp only [textLines, hfunctions, hlist, List.map_append, List.mem_append] at h ⊢
  grind [headedGrammar]

theorem not_mem_of_mem_textLines_headed {l : List Char}
    (h : l ∈ textLines (headedGrammar "") headedTable .readable) : '!' ∉ l ∧ '<' ∉ l := by
  have hall : (textLines (headedGrammar "") headedTable .readable).all
      (fun l => l.all fun c => c != '!' && c != '<') = true := by decide +kernel
  have hl := List.all_eq_true.1 (List.all_eq_true.1 hall l h)
  exact ⟨fun hc => absurd (hl '!' hc) (by decide), fun hc => absurd (hl '<' hc) (by decide)⟩

/-- Such a module has no slug but the one in its first line, if its header has none. -/
theorem countChars_headed {header : String}
    (h : ∀ l ∈ (headerLines (headedGrammar header)).map String.toList, '!' ∉ l) :
    Text.countChars slug (unsigned (headedGrammar header) headedTable) = 1 := by
  have hrest : '!' ∉ Text.joinNewlines (textLines (headedGrammar header) headedTable .readable) :=
    not_mem_joinNewlines (by decide) fun l hl =>
      (mem_textLines_headed hl).elim (h l) fun hl => (not_mem_of_mem_textLines_headed hl).1
  have hslug : slug = '!' :: slug.tail := by decide
  have hnone {cs : List Char} (hcs : '!' ∉ cs) : Text.countChars slug cs = 0 := by
    refine Text.countChars_of_not_occurs slug_ne_nil fun hoccurs => hcs (hoccurs.subset ?_)
    rw [hslug]
    exact List.mem_cons_self
  rw [unsigned_eq, lined, Text.countChars_append_self slug_ne_nil slug_not_mem_tail,
    hnone (by decide), hnone (by simpa using hrest)]

/-- A header with the line of another module. -/
def spelledHeader : String :=
  "# @generated by lalrgen Signed<<v1:" ++ String.ofList (List.replicate 64 '0') ++ ">>"

/-- The module of a grammar without a header carries a good signature. -/
theorem emit_headed : ∃ c source, Construction.ofGrammar (headedGrammar "") = .ok c ∧
    ¬ (signatureOf (unsigned (headedGrammar "") c.table)).token <:+: unsigned (headedGrammar "") c.table ∧
    emit (headedGrammar "") c.table = .ok source ∧
    findSignature source = .ok (signatureOf (unsigned (headedGrammar "") c.table)) ∧
    validate source = .ok true ∧ isCurrent source = .ok true := by
  obtain ⟨c, hc, htable⟩ := exists_ofGrammar_headed ""
  have hheader : headerLines (headedGrammar "") = [] := by decide +kernel
  have honce : Text.countChars slug (unsigned (headedGrammar "") headedTable) = 1 :=
    countChars_headed (by simp [hheader])
  have hangle : '<' ∉ unsigned (headedGrammar "") headedTable := by
    have hfront : '<' ∉ lineFront := by decide
    have hslug : '<' ∉ slug := by decide
    have hrest : '<' ∉ Text.joinNewlines (textLines (headedGrammar "") headedTable .readable) :=
      not_mem_joinNewlines (by decide) fun l hl => (not_mem_of_mem_textLines_headed hl).2
    rw [unsigned_eq, lined]
    simp [hfront, hslug, hrest]
  have hfresh := not_token_occurs (spelled_signatureOf (unsigned (headedGrammar "") headedTable))
    (not_occurs_of_not_mem hangle)
  rcases emit_cases (headedGrammar "") headedTable .readable hfresh with
    ⟨e, he, -⟩ | ⟨hcount, -⟩ | ⟨source, hemit, hgood, -⟩
  · have hcheck : Code.check (headedGrammar "") = .ok () := check_eq_ok (by decide +kernel)
    cases hcheck.symm.trans he
  · exact absurd honce hcount
  · exact ⟨c, source, hc, by rwa [htable], by rwa [htable],
      by rw [htable]; exact hgood (signatures_of_not_occurs (not_occurs_of_not_mem hangle))⟩

/-- In the module of a grammar with the line of another module in its header no signature is found. -/
theorem emit_spelled : ∃ c source, Construction.ofGrammar (headedGrammar spelledHeader) = .ok c ∧
    emit (headedGrammar spelledHeader) c.table = .ok source ∧
    findSignature source = .error .multiple := by
  obtain ⟨c, hc, htable⟩ := exists_ofGrammar_headed spelledHeader
  have hcheck : Code.check (headedGrammar spelledHeader) = .ok () := check_eq_ok (by decide +kernel)
  have hheader : headerLines (headedGrammar spelledHeader) = ["# Grammar header", spelledHeader, ""] := by
    decide +kernel
  have honce := @countChars_headed spelledHeader (by rw [hheader]; decide +kernel)
  have hspelled : signatures (unsigned (headedGrammar spelledHeader) headedTable) ≠ [] := by
    have hmem : spelledHeader.toList ∈ textLines (headedGrammar spelledHeader) headedTable .readable := by
      simp [textLines, hheader]
    have hline : signatures spelledHeader.toList ≠ [] := by decide +kernel
    rw [unsigned_eq, signatures_lined_slug, signatures_joinNewlines]
    exact fun hnone => hline (List.flatMap_eq_nil_iff.1 hnone _ hmem)
  exact ⟨c, emitted (headedGrammar spelledHeader) headedTable .readable, hc,
    by rw [htable]; exact emit_of_once hcheck honce, findSignature_emitted hspelled⟩

end Lalr.Module
