import Lalr.Proofs.Module.Signature

/-!
# Lalr.Proofs.Module.Signing

Signing a text and taking the signature out again.  A signed text has the signature that it was given
and no other (`findSignature_signed`), and with the slug in the place of the signature it is the text
that was signed (`withSlug_signed`).  Taking a signature out changes no marker line, so the lines and the
sections stay where they are.
-/

namespace Lalr.Module

variable {s : Signature} {l cs source : List Char} {c : Char}

/-! ## digests -/

theorem length_hex (width n : Nat) : (Text.hex width n).length = width := by
  induction width generalizing n with
  | zero => rfl
  | succ width ih => rw [Text.hex, List.length_append, ih, List.length_singleton]

theorem isHexDigit_hexDigit (n : Nat) : isHexDigit (Text.hexDigit n) = true := by
  have h : ∀ k < 16, isHexDigit (Nat.digitChar k) = true := by decide
  exact h (n % 16) (Nat.mod_lt n (by decide))

theorem isHexDigit_of_mem_hex {width n : Nat} (h : c ∈ Text.hex width n) : isHexDigit c = true := by
  induction width generalizing n with
  | zero => cases h
  | succ width ih =>
      rcases List.mem_append.1 h with h | h
      · exact ih h
      · rw [List.mem_singleton.1 h]
        exact isHexDigit_hexDigit n

theorem length_hexDigest (message : List UInt8) : (Sha256.hexDigest message).length = 64 := by
  simp [Sha256.hexDigest, Sha256.State.toList, length_hex]

theorem isHexDigit_of_mem_hexDigest {message : List UInt8} (h : c ∈ Sha256.hexDigest message) :
    isHexDigit c = true := by
  obtain ⟨w, -, hc⟩ := List.mem_flatMap.1 h
  exact isHexDigit_of_mem_hex hc

/-- The signature that a text is given. -/
def signatureOf (source : List Char) : Signature := ⟨formatVersion, digest source formatVersion⟩

/-- The version in a new signature. -/
def versionText : List Char := ['1']

theorem spelled_signatureOf (source : List Char) : Spelled versionText (signatureOf source) where
  ne_nil := List.cons_ne_nil _ _
  isDigit := List.all_eq_true.1 (by decide)
  version := rfl
  length := length_hexDigest _
  isHexDigit _ := isHexDigit_of_mem_hexDigest

/-! ## tokens -/

theorem token_eq_append (s : Signature) : s.token =
    "Signed<<v".toList ++ (toString s.version).toList ++ ':' :: s.digest ++ ">>".toList := rfl

/-- The text of a signature of the current version. -/
theorem token_eq (hs : Spelled versionText s) :
    s.token = tokenStart ++ ('v' :: '1' :: ':' :: (s.digest ++ ['>', '>'])) := by
  have hversion : s.version = 1 := hs.version
  rw [token_eq_append, hversion]
  have htext : (toString 1 : String).toList = ['1'] := by decide
  have hstart : "Signed<<v".toList = tokenStart ++ ['v'] := by decide
  have hend : ">>".toList = ['>', '>'] := by decide
  rw [htext, hstart, hend]
  simp

theorem marked_eq (hs : Spelled versionText s) : marked versionText s = signingMark ++ ' ' :: s.token := by
  have hheading : heading = signingMark ++ ' ' :: (tokenStart ++ ['v']) := by decide
  rw [marked, hheading, token_eq hs]
  simp [versionText]

theorem mem_token (hs : Spelled versionText s) (hc : c ∈ s.token) :
    c ∈ tokenStart ++ ['v', '1', ':', '>'] ∨ isHexDigit c = true := by
  rw [token_eq hs, List.mem_append] at hc
  rcases hc with hc | hc
  · exact .inl (List.mem_append_left _ hc)
  · have hparts : c ∈ ['v', '1', ':', '>'] ∨ c ∈ s.digest := by
      simp only [List.mem_cons, List.mem_append] at hc ⊢
      grind
    exact hparts.imp (List.mem_append_right _) (hs.isHexDigit c)

/-- No other character of a signature is like its first. -/
theorem not_mem_tail_token (hs : Spelled versionText s) : 'S' ∉ s.token.tail := by
  have htail : s.token.tail = tokenStart.tail ++ ('v' :: '1' :: ':' :: (s.digest ++ ['>', '>'])) := by
    rw [token_eq hs]
    rfl
  rw [htail]
  simp only [List.mem_append, List.mem_cons, List.not_mem_nil, or_false, not_or]
  refine ⟨by decide, by decide, by decide, by decide, fun hc => ?_, by decide, by decide⟩
  exact absurd (hs.isHexDigit 'S' hc) (by decide)

theorem token_ne_nil (hs : Spelled versionText s) : s.token ≠ [] := by
  rw [token_eq hs]
  exact List.cons_ne_nil _ _

theorem plain_token (hs : Spelled versionText s) : Text.Plain s.token := by
  have hstart : Text.Plain (tokenStart ++ ['v', '1', ':', '>']) := by decide
  have hboundaries : Text.boundaries.any isHexDigit = false := by decide
  intro c hc
  rcases mem_token hs hc with hc | hc
  · exact hstart c hc
  · refine Bool.eq_false_iff.2 fun hboundary => ?_
    exact List.any_eq_false.1 hboundaries c (Text.mem_boundaries hboundary) hc

theorem slug_ne_nil : slug ≠ [] := by decide

theorem plain_slug : Text.Plain slug := by decide

/-! ## taking a signature out -/

/-- A text with the slug in the place of a signature. -/
def withSlug (s : Signature) (cs : List Char) : List Char := Text.replaceChars s.token slug cs

/-- Texts in which no signature can begin. -/
def Guarded (front : List Char) : Prop :=
  ∀ n < front.length, front[n]? = some 'S' → n + 1 < front.length ∧ front[n + 1]? ≠ some 'i'

instance (front : List Char) : Decidable (Guarded front) := by
  unfold Guarded
  infer_instance

theorem withSlug_append (hs : Spelled versionText s) {front : List Char} (h : Guarded front)
    (rest : List Char) : withSlug s (front ++ rest) = front ++ withSlug s rest := by
  rw [withSlug, withSlug, token_eq hs]
  refine Text.replaceChars_append_of_forall (fun n hn => ?_) rest
  exact h n (List.getElem?_eq_some_iff.1 hn).1 hn

theorem guarded_of_blanks {blanks : List Char} (h : ∀ c ∈ blanks, Text.isBlank c = true) :
    Guarded blanks := by
  intro n _ hn
  exact absurd (h 'S' (List.mem_of_getElem? hn)) (by decide)

theorem exists_of_withSlug_eq (hs : Spelled versionText s) {front rest : List Char} (hfront : '!' ∉ front)
    (h : withSlug s cs = front ++ rest) : ∃ rest', cs = front ++ rest' ∧ withSlug s rest' = rest := by
  obtain ⟨ms, hms⟩ : ∃ ms, slug = '!' :: ms := ⟨slug.tail, by decide⟩
  simp only [withSlug, hms] at h ⊢
  exact Text.exists_of_replaceChars_eq_append (token_ne_nil hs) hfront h

/-- A marker behind blanks is kept, and none comes in. -/
theorem exists_marker_iff (hs : Spelled versionText s) {marker : List Char} (hmarker : Guarded marker)
    (hslug : '!' ∉ marker) {P : List Char → Prop} (hP : ∀ rest, P (withSlug s rest) ↔ P rest) :
    (∃ blanks rest, (∀ c ∈ blanks, Text.isBlank c = true) ∧
        withSlug s l = blanks ++ (marker ++ rest) ∧ P rest) ↔
      ∃ blanks rest, (∀ c ∈ blanks, Text.isBlank c = true) ∧ l = blanks ++ (marker ++ rest) ∧ P rest := by
  constructor
  · rintro ⟨blanks, rest, hblanks, h, hrest⟩
    rw [← List.append_assoc] at h
    have hfront : '!' ∉ blanks ++ marker := by
      refine fun hmem => (List.mem_append.1 hmem).elim (fun hmem => ?_) hslug
      exact absurd (hblanks '!' hmem) (by decide)
    obtain ⟨rest', rfl, rfl⟩ := exists_of_withSlug_eq hs hfront h
    exact ⟨blanks, rest', hblanks, List.append_assoc .., (hP rest').1 hrest⟩
  · rintro ⟨blanks, rest, hblanks, rfl, hrest⟩
    refine ⟨blanks, withSlug s rest, hblanks, ?_, (hP rest).2 hrest⟩
    rw [withSlug_append hs (guarded_of_blanks hblanks), withSlug_append hs hmarker]

theorem goes_withSlug (hs : Spelled versionText s) (cs : List Char) : Goes (withSlug s cs) ↔ Goes cs := by
  by_cases h : s.token <+: cs
  · obtain ⟨rest, rfl⟩ := h
    rw [withSlug, Text.replaceChars_self_append (token_ne_nil hs), token_eq hs]
    exact ⟨fun _ => ⟨'S', rfl, by decide⟩, fun _ => ⟨'!', rfl, by decide⟩⟩
  · cases cs with
    | nil => rw [withSlug, Text.replaceChars_nil (token_ne_nil hs)]
    | cons c cs =>
        rw [withSlug, Text.replaceChars_cons (token_ne_nil hs) h]
        rfl

/-- Whether a line closes or opens a section does not depend on a signature in it. -/
theorem closes_withSlug (hs : Spelled versionText s) (l : List Char) :
    closes (withSlug s l) = closes l := by
  have hmarker : Guarded closingMarker := by decide
  have hiff := exists_marker_iff (l := l) (P := fun _ => True) hs hmarker (by decide) fun _ => Iff.rfl
  rw [Bool.eq_iff_iff, closes_iff, closes_iff]
  simpa using hiff

theorem opens_withSlug (hs : Spelled versionText s) (l : List Char) : opens (withSlug s l) = opens l := by
  rw [Bool.eq_iff_iff, opens_iff, opens_iff]
  exact exists_marker_iff hs (by decide) (by decide) (goes_withSlug hs)

theorem lines_withSlug (hs : Spelled versionText s) (cs : List Char) :
    Text.lines (withSlug s cs) = (Text.lines cs).map (withSlug s) :=
  Text.lines_replaceChars (token_ne_nil hs) (plain_token hs) plain_slug slug_ne_nil cs

/-! ## signing -/

/-- Texts that can be signed and hold no signature yet: the slug stands behind the mark, and nowhere
else. -/
structure Signable (source : List Char) : Prop where
  once : Text.countChars slug source = 1
  placed : signingMark ++ ' ' :: slug <:+: source
  fresh : ¬ tokenStart <:+: source

theorem slug_not_mem_tail (c : Char) (h : slug.head? = some c) : c ∉ slug.tail := by
  have hhead : slug.head? = some '!' := by decide
  rw [← Option.some.inj (hhead.symm.trans h)]
  decide

theorem token_not_mem_tail (hs : Spelled versionText s) (c : Char) (h : s.token.head? = some c) :
    c ∉ s.token.tail := by
  have hhead : s.token.head? = some 'S' := by
    rw [token_eq hs]
    rfl
  rw [← Option.some.inj (hhead.symm.trans h)]
  exact not_mem_tail_token hs

theorem sign_eq (source : List Char) : sign source =
    if Text.countChars slug source ≠ 1 then .error .notOneSlug
    else .ok (Text.replaceChars slug (signatureOf source).token source) := rfl

theorem sign_append {front rest : List Char} (hfront : Text.countChars slug front = 0)
    (hrest : Text.countChars slug rest = 0) : sign (front ++ (slug ++ rest)) =
      .ok (front ++ ((signatureOf (front ++ (slug ++ rest))).token ++ rest)) := by
  have honce : Text.countChars slug (front ++ (slug ++ rest)) = 1 := by
    rw [Text.countChars_append_self slug_ne_nil slug_not_mem_tail, hfront, hrest]
  rw [sign_eq, if_neg (by rw [honce]; decide)]
  generalize (signatureOf (front ++ (slug ++ rest))).token = token
  rw [Text.replaceChars_only slug_ne_nil slug_not_mem_tail hfront hrest]

/-- A signature among other text is found. -/
theorem signatures_append_marked {v : List Char} (hs : Spelled v s) (front rest : List Char) :
    signatures (front ++ (marked v s ++ rest)) = signatures front ++ s :: signatures rest := by
  obtain ⟨body, hbody⟩ := exists_marked_eq v s
  rw [hbody, List.cons_append, signatures_append_cons (.inl rfl), ← List.cons_append, ← hbody,
    signatures_marked_append hs]

/-- A signature among text without one is the signature of the text. -/
theorem findSignature_append {v front rest : List Char} (hs : Spelled v s)
    (hfront : ¬ tokenStart <:+: front) (hrest : ¬ tokenStart <:+: rest) :
    findSignature (front ++ (marked v s ++ rest)) = .ok s := by
  rw [findSignature, signatures_append_marked hs, signatures_of_not_occurs hfront,
    signatures_of_not_occurs hrest, List.nil_append]

theorem not_token_occurs (hs : Spelled versionText s) (h : ¬ tokenStart <:+: cs) : ¬ s.token <:+: cs := by
  intro hoccurs
  rw [token_eq hs] at hoccurs
  exact h ((List.prefix_append tokenStart _).isInfix.trans hoccurs)

theorem withSlug_token (hs : Spelled versionText s) {front rest : List Char}
    (hfront : ¬ s.token <:+: front) (hrest : ¬ s.token <:+: rest) :
    withSlug s (front ++ (s.token ++ rest)) = front ++ (slug ++ rest) := by
  rw [withSlug, Text.replaceChars_only (token_ne_nil hs) (token_not_mem_tail hs)
    (Text.countChars_of_not_occurs (token_ne_nil hs) hfront)
    (Text.countChars_of_not_occurs (token_ne_nil hs) hrest)]

/-- A text that can be signed is given its signature, has no other, and is what it was with the slug in
the place of the signature. -/
theorem Signable.exists_signed (h : Signable source) : ∃ signed, sign source = .ok signed ∧
    findSignature signed = .ok (signatureOf source) ∧
    withSlug (signatureOf source) signed = source := by
  have hs := spelled_signatureOf source
  obtain ⟨before, rest, hsource⟩ := h.placed
  let front := before ++ signingMark ++ [' ']
  have hsplit : source = front ++ (slug ++ rest) := by rw [← hsource]; simp [front]
  have hcount : Text.countChars slug front = 0 ∧ Text.countChars slug rest = 0 := by
    have honce := h.once
    rw [hsplit, Text.countChars_append_self slug_ne_nil slug_not_mem_tail] at honce
    omega
  have hfresh {part : List Char} (hpart : part <:+: source) : ¬ tokenStart <:+: part :=
    fun hoccurs => h.fresh (hoccurs.trans hpart)
  have hfront : front <:+: source := hsplit ▸ List.infix_append' [] front (slug ++ rest)
  have hbefore : before <:+: source := ⟨[], signingMark ++ ' ' :: slug ++ rest, by rw [← hsource]; simp⟩
  have hrest : rest <:+: source := ⟨front ++ slug, [], by rw [List.append_nil, hsplit, List.append_assoc]⟩
  refine ⟨front ++ ((signatureOf source).token ++ rest), ?_, ?_, ?_⟩
  · rw [hsplit, sign_append hcount.1 hcount.2]
  · have hmarked : front ++ ((signatureOf source).token ++ rest) =
        before ++ (marked versionText (signatureOf source) ++ rest) := by
      rw [marked_eq hs]
      simp [front]
    rw [hmarked, findSignature_append hs (hfresh hbefore) (hfresh hrest)]
  · rw [withSlug_token hs (not_token_occurs hs (hfresh hfront)) (not_token_occurs hs (hfresh hrest)),
      ← hsplit]

end Lalr.Module
