import Lalr.Proofs.Module.Signing

/-!
# Lalr.Proofs.Module.Validation

Which edits a signature detects.  A text with the signature that some text was given is valid if both
have the same generated lines, up to how these end, and unless two digests collide only then
(`validate_iff`).  Edits of lines that are not generated, or of line endings, keep both the signature
and the generated lines, so they keep a text valid.
-/

namespace Lalr.Module

variable {source signed text content : List Char} {s : Signature} {l x : List Char}
  {ls ls' before after : List (List Char)} {ss : List Section} {n : Option (List Char)}

/-! ## what is compared -/

/-- Texts with the same generated lines, up to how these end. -/
def Agree (cs cs' : List Char) : Prop :=
  (generatedLines cs).map withoutEnding = (generatedLines cs').map withoutEnding

instance (cs cs' : List Char) : Decidable (Agree cs cs') :=
  inferInstanceAs (Decidable (_ = _))

/-- The bytes that are digested of a text. -/
def message (source : List Char) (version : Nat) : List UInt8 :=
  Text.Utf8.encode (digestedText source version)

/-- Messages that are the same if their digests are. -/
def NoCollision (m m' : List UInt8) : Prop := Sha256.hexDigest m = Sha256.hexDigest m' → m = m'

theorem encode_inj {cs cs' : List Char} (h : Text.Utf8.encode cs = Text.Utf8.encode cs') : cs = cs' :=
  String.ofList_injective (String.toByteArray_inj.1 (ByteArray.ext (Array.toList_inj.1 h)))

/-- Unless two digests collide, they are the same exactly for texts that agree. -/
theorem digest_eq_iff {cs cs' : List Char} {version : Nat}
    (h : NoCollision (message cs version) (message cs' version)) :
    digest cs version = digest cs' version ↔ Agree cs cs' :=
  ⟨fun hdigest => digestedText_inj (encode_inj (h hdigest)),
    fun hagree => congrArg (Sha256.hexDigest ∘ Text.Utf8.encode) (digestedText_congr version hagree)⟩

theorem validate_eq (h : findSignature text = .ok s) : validate text =
    .ok (decide (digest (withSlug s text) s.version = s.digest)) := by
  rw [validate, h]
  rfl

/-- A text with the signature of another is valid if it agrees with it, and unless digests collide only
then. -/
theorem validate_iff (h : findSignature text = .ok (signatureOf source))
    (hfree : NoCollision (message (withSlug (signatureOf source) text) formatVersion)
      (message source formatVersion)) :
    ∃ valid, validate text = .ok valid ∧
      (valid = true ↔ Agree (withSlug (signatureOf source) text) source) :=
  ⟨_, validate_eq h, decide_eq_true_iff.trans (digest_eq_iff hfree)⟩

theorem validate_of_agree (h : findSignature text = .ok (signatureOf source))
    (hagree : Agree (withSlug (signatureOf source) text) source) : validate text = .ok true := by
  have hdigest : digest (withSlug (signatureOf source) text) formatVersion = digest source formatVersion :=
    congrArg (Sha256.hexDigest ∘ Text.Utf8.encode) (digestedText_congr formatVersion hagree)
  rw [validate_eq h]
  exact congrArg Except.ok (decide_eq_true hdigest)

/-- A text with the signature of what it is without that has a good one. -/
theorem validate_of_withSlug (hfind : findSignature signed = .ok (signatureOf source))
    (hsource : withSlug (signatureOf source) signed = source) :
    validate signed = .ok true ∧ isCurrent signed = .ok true := by
  constructor
  · refine validate_of_agree hfind ?_
    rw [hsource]
    rfl
  · rw [isCurrent, hfind]
    rfl

/-! ## taking out a signature, and endings -/

theorem withSlug_withoutEnding (hs : Spelled versionText s) (l : List Char) :
    withoutEnding (withSlug s (withoutEnding l)) = withoutEnding (withSlug s l) := by
  refine apply_withoutEnding (g := withoutEnding ∘ withSlug s) (fun l c hc => ?_) l
  rw [Function.comp, Function.comp, withSlug, withSlug,
    Text.replaceChars_boundary (token_ne_nil hs) (plain_token hs) (isLineBoundary_of_isLineEnd hc),
    Text.replaceChars_nil (token_ne_nil hs), withoutEnding_snoc hc]

theorem generatedLines_withSlug (hs : Spelled versionText s) (cs : List Char) :
    generatedLines (withSlug s cs) = (generatedLines cs).map (withSlug s) := by
  rw [generatedLines_eq, generatedLines_eq, lines_withSlug hs,
    generatedFrom_map (opens_withSlug hs) (closes_withSlug hs)]

/-- Texts that agree still do with a signature taken out of both. -/
theorem Agree.withSlug (hs : Spelled versionText s) {cs cs' : List Char} (h : Agree cs cs') :
    Agree (withSlug s cs) (Module.withSlug s cs') := by
  have hmap (cs : List Char) : (generatedLines (Module.withSlug s cs)).map withoutEnding =
      ((generatedLines cs).map withoutEnding).map (withoutEnding ∘ Module.withSlug s) := by
    rw [generatedLines_withSlug hs, List.map_map, List.map_map]
    exact List.map_congr_left fun l _ => (withSlug_withoutEnding hs l).symm
  rw [Agree, hmap, hmap, h]

/-- A text that has the signature of a signed text, and agrees with it, is valid. -/
theorem validate_of_agree_signed (hsigned : findSignature signed = .ok (signatureOf source))
    (hsource : withSlug (signatureOf source) signed = source)
    (hsignatures : signatures text = signatures signed) (hagree : Agree text signed) :
    findSignature text = findSignature signed ∧ validate text = .ok true := by
  have hfind : findSignature text = findSignature signed := by
    rw [findSignature, findSignature, hsignatures]
  refine ⟨hfind, validate_of_agree (hfind.trans hsigned) ?_⟩
  have h := hagree.withSlug (spelled_signatureOf source)
  rwa [hsource] at h

/-! ## other line endings -/

/-- Texts of the same lines, up to how these end, agree and have the same signatures. -/
theorem agree_of_lines {cs cs' : List Char}
    (h : (Text.lines cs).map withoutEnding = (Text.lines cs').map withoutEnding) :
    signatures cs = signatures cs' ∧ Agree cs cs' := by
  refine ⟨by rw [signatures_eq_flatMap, signatures_eq_flatMap, h], ?_⟩
  rw [Agree, generatedLines_eq, generatedLines_eq, generatedFrom_withoutEnding, h,
    generatedFrom_withoutEnding]

/-- A text with a return in front of every newline. -/
def withReturns (cs : List Char) : List Char := Text.replaceChars ['\n'] ['\r', '\n'] cs

theorem withReturns_append (cs cs' : List Char) :
    withReturns (cs ++ cs') = withReturns cs ++ withReturns cs' := by
  simp only [withReturns, Text.replaceChars_singleton, List.flatMap_append]

theorem withReturns_of_not_mem {cs : List Char} (h : '\n' ∉ cs) : withReturns cs = cs := by
  rw [withReturns, Text.replaceChars_singleton]
  induction cs with
  | nil => rfl
  | cons c cs ih =>
      obtain ⟨hc, hcs⟩ : '\n' ≠ c ∧ '\n' ∉ cs := by simpa [not_or] using h
      rw [List.flatMap_cons, if_neg hc.symm, ih hcs, List.singleton_append]

theorem lines_withReturns (h : Text.WellCut ls) (hreturn : '\r' ∉ ls.flatten) :
    (Text.lines (withReturns ls.flatten)).map withoutEnding = ls.map withoutEnding := by
  induction h with
  | nil => rw [List.flatten_nil, withReturns_of_not_mem List.not_mem_nil]; rfl
  | last hplain hne =>
      rw [List.flatten_singleton, withReturns_of_not_mem (newline_not_mem_of_plain hplain),
        Text.lines_plain hplain hne]
  | @cons l ls hl _ _ ih =>
      rw [List.flatten_cons, List.mem_append, not_or] at hreturn
      obtain ⟨hlreturn, hrest⟩ := hreturn
      obtain ⟨body, ending, hbody, hending, rfl⟩ := hl
      obtain ⟨c, hc, rfl⟩ : ∃ c, Text.isLineBoundary c = true ∧ ending = [c] :=
        hending.resolve_left fun h => hlreturn (by simp [h])
      rw [List.flatten_cons, withReturns_append, withReturns_append,
        withReturns_of_not_mem (newline_not_mem_of_plain hbody), List.map_cons]
      by_cases hnewline : c = '\n'
      · subst hnewline
        have hcomplete : Text.Complete (body ++ ['\r', '\n']) := ⟨body, _, hbody, .inl rfl, rfl⟩
        have hsplit : body ++ ['\r', '\n'] = body ++ ['\r'] ++ ['\n'] := by simp
        have hends : withoutEnding (body ++ ['\r', '\n']) = withoutEnding (body ++ ['\n']) := by
          rw [hsplit, withoutEnding_snoc (by decide), withoutEnding_snoc (by decide),
            withoutEnding_snoc (by decide)]
        have hreturns : withReturns ['\n'] = ['\r', '\n'] := by
          rw [withReturns, Text.replaceChars_singleton]
          rfl
        rw [hreturns, Text.lines_cons hcomplete (by simp), List.map_cons, ih hrest, hends]
      · have hcomplete : Text.Complete (body ++ [c]) := ⟨body, _, hbody, .inr ⟨c, hc, rfl⟩, rfl⟩
        have hcr : c ≠ '\r' := fun h => hlreturn (by simp [h])
        rw [withReturns_of_not_mem (by simpa using Ne.symm hnewline),
          Text.lines_cons hcomplete (by simp [hcr]), List.map_cons, ih hrest]

/-! ## other manual text -/

/-- A manual section that is not the last one ends in front of a line that closes it. -/
theorem Sectioned.manual (h : Sectioned n ss) {before after : List Section} {next : Section}
    (hss : ss = before ++ ⟨some x, ls⟩ :: next :: after) :
    manualAfter n.isSome (allLines before) = true ∧ (∀ l ∈ ls, closes l = false) ∧
      ∃ l rest, allLines (next :: after) = l :: rest ∧ closes l = true := by
  induction h generalizing before with
  | last h => cases before <;> simp at hss
  | @opened ls' l y ss h hl hrest ih =>
      cases before with
      | nil => simp at hss
      | cons b before =>
          obtain ⟨rfl, htail⟩ := List.cons.inj hss
          obtain ⟨hmanual, hfound⟩ := ih htail
          refine ⟨?_, hfound⟩
          have hopens : opens l = true := Option.isSome_iff_exists.2 ⟨y, hl⟩
          have hnone : manualAfter false ls' = false := manualAfter_within h
          rw [allLines_cons, Option.isSome_none, manualAfter_append, manualAfter_append, hnone]
          simpa [manualAfter, hopens] using hmanual
  | @closed y l ls' ls'' ss h hl hrest ih =>
      cases before with
      | nil =>
          obtain ⟨hsection, htail⟩ := List.cons.inj hss
          obtain ⟨rfl, rfl⟩ : ⟨none, l :: ls''⟩ = next ∧ ss = after := List.cons.inj htail
          cases hsection
          exact ⟨rfl, h, l, _, rfl, hl⟩
      | cons b before =>
          obtain ⟨rfl, htail⟩ := List.cons.inj hss
          obtain ⟨hmanual, hfound⟩ := ih htail
          refine ⟨?_, hfound⟩
          have hinside : manualAfter true ls' = true := manualAfter_within h
          rw [allLines_cons, Option.isSome_some, manualAfter_append, hinside]
          cases before with
          | nil => cases hmanual
          | cons c before =>
              obtain ⟨rfl, -⟩ := List.cons.inj htail
              have hopens : opens l = false := by rw [opens, opens?_of_closes hl, Option.isSome_none]
              simpa [manualAfter, hl, hopens] using hmanual

/-- Complete lines in front of a text stay as they are, but a return at their end takes in a newline
that comes after it. -/
theorem lines_flatten_append (h : Text.WellCut (ls ++ ls')) (hcomplete : ∀ l ∈ ls, Text.Complete l)
    (rest : List Char) : ∃ rest', (rest = rest' ∨ rest = '\n' :: rest') ∧
      (Text.lines (ls.flatten ++ rest)).map withoutEnding =
        ls.map withoutEnding ++ (Text.lines rest').map withoutEnding := by
  induction ls with
  | nil => exact ⟨rest, .inl rfl, rfl⟩
  | cons l ls ih =>
      obtain ⟨hl, hls⟩ := List.forall_mem_cons.1 hcomplete
      have hcut : Text.WellCut (ls ++ ls') := (show Text.WellCut ([l] ++ (ls ++ ls')) from h).of_append
      obtain ⟨rest', hrest, hlines⟩ := ih hcut hls
      by_cases hmeet : l.getLast? = some '\r' ∧ (ls.flatten ++ rest).head? = some '\n'
      · obtain ⟨hlast, hhead⟩ := hmeet
        cases ls with
        | nil =>
            obtain ⟨rest', rfl⟩ := List.head?_eq_some_iff.1 hhead
            have hsplit : [l].flatten ++ '\n' :: rest' = (l ++ ['\n']) ++ rest' := by simp
            refine ⟨rest', .inr rfl, ?_⟩
            rw [hsplit, Text.lines_cons (hl.append_newline hlast) (by simp), List.map_cons,
              withoutEnding_snoc (by decide)]
            rfl
        | cons l' ls =>
            obtain ⟨c, l', rfl⟩ := List.exists_cons_of_ne_nil (hls l' List.mem_cons_self).ne_nil
            exact absurd hhead (h.head?_ne hlast)
      · refine ⟨rest', hrest, ?_⟩
        rw [List.flatten_cons, List.append_assoc, Text.lines_cons hl fun hlast hhead => hmeet ⟨hlast, hhead⟩,
          List.map_cons, hlines, List.map_cons, List.cons_append]

/-- Texts that end with a newline, if they are not empty. -/
def NewlineEnded (cs : List Char) : Prop := ∀ c, cs.getLast? = some c → c = '\n'

theorem NewlineEnded.ended {cs : List Char} (h : NewlineEnded cs) : Ended cs := by
  intro c hc
  rw [h c hc]
  decide

/-- A newline at the front of manual text may go to the line in front of it. -/
theorem content_of_newline {more rest : List Char} (hended : NewlineEnded content)
    (hopen : ∀ l ∈ Text.lines content, closes l = false) (hmore : more.head? ≠ some '\n')
    (h : content ++ more = '\n' :: rest) : ∃ content', rest = content' ++ more ∧ NewlineEnded content' ∧
      ∀ l ∈ Text.lines content', closes l = false := by
  cases content with
  | nil => simp [show more = '\n' :: rest from h] at hmore
  | cons c content =>
      obtain ⟨rfl, rfl⟩ : c = '\n' ∧ content ++ more = rest := List.cons.inj h
      rw [Text.lines_newline] at hopen
      refine ⟨content, rfl, fun c hc => hended c ?_, (List.forall_mem_cons.1 hopen).2⟩
      rw [← List.singleton_append, List.getLast?_append, hc, Option.some_or]

/-- Manual text that closes no section stands between the generated lines and adds none. -/
theorem generatedLines_content {rest : List (List Char)} (hcut : Text.WellCut (ls ++ (ls' ++ l :: rest)))
    (hmanual : manualAfter false ls = true) (hl : closes l = true) (hended : NewlineEnded content)
    (hopen : ∀ l ∈ Text.lines content, closes l = false) :
    (generatedLines (ls.flatten ++ (content ++ (l :: rest).flatten))).map withoutEnding =
      (generatedFrom false ls ++ generatedFrom true (l :: rest)).map withoutEnding := by
  have hafter : Text.WellCut (l :: rest) := hcut.of_append.of_append
  have hhead := head?_of_closes hafter hl
  obtain ⟨rest₁, hrest₁, hlines₁⟩ := lines_flatten_append hcut (hcut.complete (by simp))
    (content ++ (l :: rest).flatten)
  obtain ⟨content', rfl, hended', hopen'⟩ : ∃ content', rest₁ = content' ++ (l :: rest).flatten ∧
      NewlineEnded content' ∧ ∀ l ∈ Text.lines content', closes l = false := by
    rcases hrest₁ with h | h
    · exact ⟨content, h.symm, hended, hopen⟩
    · exact content_of_newline hended hopen hhead h
  have hcut' : Text.WellCut (Text.lines content' ++ []) := by
    rw [List.append_nil]
    exact Text.wellCut_lines content'
  have hcomplete' : ∀ l ∈ Text.lines content', Text.Complete l := by
    refine (Text.wellCut_lines content').complete_of_getLast? ?_
    rw [Text.flatten_lines]
    exact hended'.ended
  obtain ⟨rest₂, hrest₂, hlines₂⟩ := lines_flatten_append hcut' hcomplete' (l :: rest).flatten
  obtain rfl : (l :: rest).flatten = rest₂ :=
    hrest₂.resolve_right fun h => hhead (by rw [h, List.head?_cons])
  rw [Text.flatten_lines, Text.lines_flatten hafter] at hlines₂
  have hclosed : ∀ l ∈ (Text.lines content').map withoutEnding, closes l = false :=
    List.forall_mem_map.2 fun l hl => (closes_withoutEnding l).trans (hopen' l hl)
  rw [generatedLines_eq, generatedFrom_withoutEnding, hlines₁, hlines₂, generatedFrom_append,
    manualAfter_map opens_withoutEnding closes_withoutEnding, hmanual, generatedFrom_manual hclosed,
    ← generatedFrom_withoutEnding, ← generatedFrom_withoutEnding, List.map_append]

theorem signatures_of_findSignature (h : findSignature text = .ok s) : signatures text = [s] := by
  rw [findSignature] at h
  split at h
  · cases h
  · next found hfound => rw [hfound, Except.ok.inj h]
  · cases h

/-- Manual text without a signature keeps the signature of a text that has it elsewhere. -/
theorem signatures_content {rest : List (List Char)} (hcut : Text.WellCut (ls ++ (ls' ++ l :: rest)))
    (hone : signatures (ls ++ (ls' ++ l :: rest)).flatten = [s])
    (hplace : ∃ l' ∈ ls ++ l :: rest, signatures l' ≠ []) (hended : NewlineEnded content)
    (hnone : signatures content = []) :
    signatures (ls.flatten ++ (content ++ (l :: rest).flatten)) = [s] := by
  rw [signatures_flatten hcut, List.flatMap_append, List.flatMap_append] at hone
  have houtside : (ls ++ l :: rest).flatMap signatures ≠ [] := by
    obtain ⟨l', hl', hsignatures⟩ := hplace
    exact fun h => hsignatures (List.flatMap_eq_nil_iff.1 h l' hl')
  have hinside : ls'.flatMap signatures = [] := by
    rw [List.flatMap_append] at houtside
    have hlength := congrArg List.length hone
    have hpositive := List.length_pos_iff.2 houtside
    simp only [List.length_append, List.length_singleton] at hlength hpositive
    exact List.length_eq_zero_iff.1 (by omega)
  rw [hinside, List.nil_append] at hone
  rw [signatures_flatten_append (hcut.complete (by simp)), hended.ended.signatures_append, hnone,
    List.nil_append, signatures_flatten hcut.of_append.of_append, hone]

/-- Other text in a manual section keeps the signature and the generated lines. -/
theorem agree_of_content {before after : List Section} {next : Section}
    (hsections : sections signed = before ++ ⟨some x, ls⟩ :: next :: after)
    (hone : signatures signed = [s]) (hplace : ∃ l ∈ generatedLines signed, signatures l ≠ [])
    (hended : NewlineEnded content) (hopen : ∀ l ∈ Text.lines content, closes l = false)
    (hnone : signatures content = []) :
    let text := (allLines before).flatten ++ (content ++ (allLines (next :: after)).flatten)
    signatures text = signatures signed ∧ Agree text signed := by
  obtain ⟨hmanual, hinside, l, rest, hafter, hl⟩ := (sectioned_sections signed).manual hsections
  have hlines : Text.lines signed = allLines before ++ (ls ++ l :: rest) := by
    rw [← allLines_sections, hsections, ← hafter]
    simp [allLines]
  have hcut : Text.WellCut (allLines before ++ (ls ++ l :: rest)) := hlines ▸ Text.wellCut_lines signed
  have hgenerated : generatedLines signed =
      generatedFrom false (allLines before) ++ generatedFrom true (l :: rest) := by
    rw [generatedLines_eq, hlines, generatedFrom_append, ← Option.isSome_none, hmanual,
      generatedFrom_manual hinside]
  intro text
  have htext : text = (allLines before).flatten ++ (content ++ (l :: rest).flatten) := by
    rw [← hafter]
  constructor
  · rw [hone, htext]
    refine signatures_content hcut ?_ ?_ hended hnone
    · rw [← hlines, Text.flatten_lines, hone]
    · obtain ⟨l', hl', hsignatures⟩ := hplace
      rw [hgenerated] at hl'
      exact ⟨l', List.mem_append.2
        ((List.mem_append.1 hl').imp mem_of_mem_generatedFrom mem_of_mem_generatedFrom), hsignatures⟩
  · rw [Agree, htext, generatedLines_content hcut hmanual hl hended hopen, hgenerated]

/-! ## what is detected -/

/-- Signatures detect exactly the edits they should.  Unless digests collide, a text with the signature
of a signed one is valid if and only if, with the slug in the place of the signature, it has the generated
lines of what was signed, up to how they end.  So what was signed is valid; it stays valid with any manual
text in the place of another, if the signature is not part of that, and with other line endings. -/
theorem validate_signed (h : Signable source) : ∃ signed, sign source = .ok signed ∧
    findSignature signed = .ok (signatureOf source) ∧ validate signed = .ok true ∧
    (∀ text, findSignature text = findSignature signed →
      NoCollision (message (withSlug (signatureOf source) text) formatVersion)
          (message source formatVersion) →
        ∃ valid, validate text = .ok valid ∧
          (valid = true ↔ Agree (withSlug (signatureOf source) text) source)) ∧
    (∀ before x ls next after content,
      sections signed = before ++ ⟨some x, ls⟩ :: next :: after →
        (∃ l ∈ generatedLines signed, signatures l ≠ []) →
          NewlineEnded content → (∀ l ∈ Text.lines content, closes l = false) → signatures content = [] →
            validate ((allLines before).flatten ++ (content ++ (allLines (next :: after)).flatten)) =
              .ok true) ∧
    ('\r' ∉ signed → validate (withReturns signed) = .ok true) := by
  obtain ⟨signed, hsign, hfind, hsource⟩ := h.exists_signed
  refine ⟨signed, hsign, hfind, ?_, ?_, ?_, ?_⟩
  · exact (validate_of_agree_signed hfind hsource rfl rfl).2
  · exact fun text htext hfree => validate_iff (htext.trans hfind) hfree
  · intro before x ls next after content hsections hplace hended hopen hnone
    obtain ⟨hsignatures, hagree⟩ :=
      agree_of_content hsections (signatures_of_findSignature hfind) hplace hended hopen hnone
    exact (validate_of_agree_signed hfind hsource hsignatures hagree).2
  · intro hreturn
    have hlines := lines_withReturns (Text.wellCut_lines signed) (by rwa [Text.flatten_lines])
    rw [Text.flatten_lines] at hlines
    obtain ⟨hsignatures, hagree⟩ := agree_of_lines hlines
    exact (validate_of_agree_signed hfind hsource hsignatures hagree).2

/-- A line of a module up to its signature. -/
def sampleFront : List Char := "# @generated by lalrgen ".toList

/-- The lines of an empty manual section. -/
def sampleLines : List (List Char) :=
  ["# BEGIN MANUAL SECTION notes\n".toList, "# END MANUAL SECTION\n".toList]

/-- A module with a manual section, behind its signature. -/
def sampleRest : List Char := '\n' :: sampleLines.flatten

/-- The same module with manual text. -/
def sampleEdited : List Char :=
  '\n' :: ["# BEGIN MANUAL SECTION notes\n".toList, "mine\n".toList, "# END MANUAL SECTION\n".toList].flatten

/-- A text that can be signed. -/
def sample : List Char := sampleFront ++ (slug ++ sampleRest)

/-- The sample with a signature in the place of its slug, and a text behind it. -/
def sampleSigned (s : Signature) (rest : List Char) : List Char := sampleFront ++ (s.token ++ rest)

theorem signable_sample : Signable sample where
  once := by decide_cbv
  placed := ⟨"# ".toList, sampleRest, by decide⟩
  fresh := not_occurs_of_not_mem (by decide)

theorem sign_sample : sign sample = .ok (sampleSigned (signatureOf sample) sampleRest) := by
  rw [sampleSigned, sample]
  exact sign_append (by decide_cbv) (by decide_cbv)

theorem findSignature_sampleSigned (hs : Spelled versionText s) {rest : List Char}
    (h : ¬ tokenStart <:+: rest) : findSignature (sampleSigned s rest) = .ok s := by
  have hfront : sampleFront = "# ".toList ++ (signingMark ++ [' ']) := by decide
  have hmarked : sampleSigned s rest = "# ".toList ++ (marked versionText s ++ rest) := by
    rw [sampleSigned, marked_eq hs, hfront]
    simp
  rw [hmarked, findSignature_append hs (not_occurs_of_not_mem (by decide)) h]

theorem withSlug_sampleSigned (hs : Spelled versionText s) {rest : List Char} (h : ¬ tokenStart <:+: rest) :
    withSlug s (sampleSigned s rest) = sampleFront ++ (slug ++ rest) :=
  withSlug_token hs (not_token_occurs hs (not_occurs_of_not_mem (by decide))) (not_token_occurs hs h)

/-- The sample with a line behind it has another digest. -/
theorem digest_sample_ne :
    Sha256.hexDigest (message (sampleFront ++ (slug ++ (sampleRest ++ "more\n".toList))) formatVersion) ≠
      Sha256.hexDigest (message sample formatVersion) := by decide +kernel

/-- The lines behind the first line of the sample are cut into sections behind it. -/
theorem sections_sampleSigned (hs : Spelled versionText s) (hls : Text.lines ls.flatten = ls) :
    sections (sampleSigned s ('\n' :: ls.flatten)) = sectionsFrom none [sampleSigned s ['\n']] ls := by
  have hfront : Text.Plain sampleFront := by decide
  have hplain : Text.Plain (sampleFront ++ s.token) := Text.plain_append.2 ⟨hfront, plain_token hs⟩
  have hline : Text.Complete (sampleSigned s ['\n']) := by
    rw [sampleSigned, ← List.append_assoc]
    exact hplain.complete
  have hlast : (sampleSigned s ['\n']).getLast? ≠ some '\r' := by simp [sampleSigned]
  have hsplit : sampleSigned s ('\n' :: ls.flatten) = sampleSigned s ['\n'] ++ ls.flatten := by
    simp only [sampleSigned, List.append_assoc, List.singleton_append]
  have hopens : opens? (sampleSigned s ['\n']) = none := rfl
  have hwithin : Within none [sampleSigned s ['\n']] := List.forall_mem_singleton.2 hopens
  rw [sections, hsplit, Text.lines_cons hline fun h => absurd h hlast, hls, sectionsFrom_cons hwithin,
    List.nil_append]

theorem sections_sampleSigned_rest (hs : Spelled versionText s) :
    sections (sampleSigned s sampleRest) =
      [⟨none, [sampleSigned s ['\n'], "# BEGIN MANUAL SECTION notes\n".toList]⟩,
        ⟨some "notes".toList, []⟩, ⟨none, ["# END MANUAL SECTION\n".toList]⟩] := by
  rw [sampleRest, sections_sampleSigned hs (by decide), sampleLines, sectionsFrom_opens, sectionsFrom_closes]
  · rfl
  · decide
  · decide

/-- The sample is signed; text behind it makes it invalid, manual text and other line endings do not. -/
theorem validate_signed_sample : Signable sample ∧
    sign sample = .ok (sampleSigned (signatureOf sample) sampleRest) ∧
    validate (sampleSigned (signatureOf sample) (sampleRest ++ "more\n".toList)) = .ok false ∧
    validate (sampleSigned (signatureOf sample) sampleEdited) = .ok true ∧
    validate (withReturns (sampleSigned (signatureOf sample) sampleRest)) = .ok true := by
  have hs := spelled_signatureOf sample
  obtain ⟨signed, hsign, hfind, -, hedited, hmanual, hreturns⟩ := validate_signed signable_sample
  obtain rfl := Except.ok.inj (sign_sample.symm.trans hsign)
  have hdiffer := digest_sample_ne
  refine ⟨signable_sample, sign_sample, ?_, ?_, ?_⟩ <;> clear hsign <;>
    generalize signatureOf sample = s at *
  · have hfresh : ¬ tokenStart <:+: sampleRest ++ "more\n".toList := not_occurs_of_not_mem (by decide)
    have hslug := withSlug_sampleSigned hs hfresh
    have hfound := findSignature_sampleSigned hs hfresh
    obtain ⟨valid, hvalid, hagree⟩ := hedited _ (hfound.trans hfind.symm) (by
      rw [hslug]
      exact fun h => absurd h hdiffer)
    have hnot : ¬ Agree (sampleFront ++ (slug ++ (sampleRest ++ "more\n".toList))) sample := by
      decide
    rw [hslug] at hagree
    rw [hvalid, Bool.eq_false_iff.2 fun h => hnot (hagree.1 h)]
  · have hsections := sections_sampleSigned_rest hs
    have hplace : signatures (sampleSigned s ['\n']) ≠ [] := by
      rw [signatures_of_findSignature (findSignature_sampleSigned hs (not_occurs_of_not_mem (by decide)))]
      exact List.cons_ne_nil s []
    have hline : sampleSigned s ['\n'] ∈ generatedLines (sampleSigned s sampleRest) := by
      rw [generatedLines, hsections]
      simp
    have hlast : "mine\n".toList.getLast? = some '\n' := by decide
    have hvalid := hmanual [_] _ _ _ _ "mine\n".toList hsections ⟨_, hline, hplace⟩
      (fun c hc => Option.some.inj (hc.symm.trans hlast)) (by decide)
      (signatures_of_not_occurs (not_occurs_of_not_mem (by decide)))
    have hlines (as bs cs : List Char) : sampleSigned s ('\n' :: [as, bs, cs].flatten) =
        [sampleSigned s ['\n'], as].flatten ++ (bs ++ [cs].flatten) := by simp [sampleSigned]
    rw [sampleEdited, hlines]
    exact hvalid
  · have htoken : '\r' ∉ s.token := fun h => absurd (plain_token hs '\r' h) (by decide)
    have hfront : '\r' ∉ sampleFront := by decide
    have hrest : '\r' ∉ sampleRest := by decide
    exact hreturns (by simp [sampleSigned, htoken, hfront, hrest])

end Lalr.Module
