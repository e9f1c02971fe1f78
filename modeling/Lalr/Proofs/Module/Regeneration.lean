import Lalr.Proofs.Fallible
import Lalr.Proofs.Module.Merge
import Lalr.Proofs.Module.Validation

/-!
# Lalr.Proofs.Module.Regeneration

Writing a new module over an old one.  Manual lines of the old text go into the new one, and its signature
stays good as long as these lines fit: each has an ending, none holds a signature, and the line that opens
their section takes nothing of them in (`Mergeable`).  Then the merged text has the generated lines of the
new one, though its manual lines may be cut in other places (`sections_merge_refilled`), and merging
once more changes nothing (`merge_signed`).  A last line without an ending does not fit: the line that
closes its section is written behind it and closes nothing any more (`merge_unended`).
-/

namespace Lalr.Module

variable {existing generated x : List Char} {l : List Char} {ls : List (List Char)} {s : Signature}

/-! ## what fits -/

/-- Manual text that a new module can take over. -/
structure Mergeable (existing generated : List Char) : Prop where
  /-- The lines that are taken over have endings and hold no signature. -/
  taken : ∀ s ∈ sections existing, ∀ x ∈ (sections generated).filterMap Section.name, s.name = some x →
    ∀ l ∈ s.lines, Text.Complete l ∧ signatures l = []
  /-- The lines whose place they take hold no signature. -/
  replaced : ∀ s ∈ sections generated, ∀ x ∈ (sections existing).filterMap Section.name,
    s.name = some x → ∀ l ∈ s.lines, signatures l = []
  /-- The lines in front of them have endings that take no newline in. -/
  opened : ∀ l ∈ Text.lines generated, opens l = true → Text.Complete l ∧ l.getLast? ≠ some '\r'

/-- A section with the lines of the text that is put into it. -/
def refilled (existing : List Char) (s : Section) : Section where
  name := s.name
  lines := match s.name with
    | none => s.lines
    | some _ => Text.lines (merged existing s).lines.flatten

theorem flatten_allLines (ss : List Section) :
    (allLines ss).flatten = ss.flatMap fun s => s.lines.flatten := by
  induction ss with
  | nil => rfl
  | cons s ss ih => rw [allLines_cons, List.flatten_append, ih, List.flatMap_cons]

theorem flatten_refilled (existing : List Char) (s : Section) :
    (refilled existing s).lines.flatten = (merged existing s).lines.flatten := by
  obtain ⟨name, ls⟩ := s
  cases name with
  | none => rfl
  | some x => exact Text.flatten_lines _

theorem merge_eq_refilled (existing generated : List Char) :
    merge existing generated = (allLines ((sections generated).map (refilled existing))).flatten := by
  rw [merge_eq, flatten_allLines, flatten_allLines, List.flatMap_map, List.flatMap_map]
  simp only [flatten_refilled]

/-- A manual line that fits. -/
def Fits (l : List Char) : Prop := Text.Complete l ∧ closes l = false ∧ signatures l = []

theorem Fits.append_newline (h : Fits l) (hlast : l.getLast? = some '\r') : Fits (l ++ ['\n']) := by
  obtain ⟨hcomplete, hcloses, hsignatures⟩ := h
  have hsame : withoutEnding (l ++ ['\n']) = withoutEnding l := withoutEnding_snoc (by decide) l
  refine ⟨hcomplete.append_newline hlast, ?_, ?_⟩
  · rw [← closes_withoutEnding, hsame, closes_withoutEnding, hcloses]
  · rw [← signatures_withoutEnding, hsame, signatures_withoutEnding, hsignatures]

/-- A manual section keeps its lines, or has lines that fit in place of lines without a signature. -/
theorem Mergeable.refilled_cases (h : Mergeable existing generated)
    (hs : ⟨some x, ls⟩ ∈ sections generated) :
    refilled existing ⟨some x, ls⟩ = ⟨some x, ls⟩ ∨
      (∀ l ∈ ls, signatures l = []) ∧ ∀ l ∈ (refilled existing ⟨some x, ls⟩).lines, Fits l := by
  by_cases hnone : named x (sections existing) = []
  · have hsame : (merged existing ⟨some x, ls⟩).lines = ls := if_pos hnone
    have hcut : Text.WellCut (allLines (sections generated)) :=
      allLines_sections generated ▸ Text.wellCut_lines generated
    left
    simp only [refilled, hsame, Text.lines_flatten (wellCut_of_mem hcut hs)]
  · have hlines : (merged existing ⟨some x, ls⟩).lines = allLines (named x (sections existing)) :=
      if_neg hnone
    obtain ⟨s', hs'⟩ := List.exists_mem_of_ne_nil _ hnone
    obtain ⟨hmem', hname'⟩ := List.mem_filter.1 hs'
    have hx : x ∈ (sections generated).filterMap Section.name := List.mem_filterMap.2 ⟨_, hs, rfl⟩
    have hx' : x ∈ (sections existing).filterMap Section.name :=
      List.mem_filterMap.2 ⟨s', hmem', by simpa using hname'⟩
    refine .inr ⟨h.replaced _ hs x hx' rfl, ?_⟩
    have hall : ∀ l ∈ allLines (named x (sections existing)), Text.Complete l ∧ Fits l := by
      intro l hl
      obtain ⟨s, hs, hl⟩ := List.mem_flatMap.1 hl
      obtain ⟨hs, hname⟩ := List.mem_filter.1 hs
      have hname : s.name = some x := by simpa using hname
      obtain ⟨hcomplete, hsignatures⟩ := h.taken s hs x hx hname l hl
      exact ⟨hcomplete, hcomplete, (sectioned_sections existing).closes_eq_false hs hname l hl,
        hsignatures⟩
    have hrefilled : (refilled existing ⟨some x, ls⟩).lines =
        Text.lines (allLines (named x (sections existing))).flatten := by
      rw [← hlines]
      rfl
    rw [hrefilled]
    exact Text.forall_mem_lines_flatten (fun l _ hlast hl => hl.append_newline hlast) hall

/-! ## the sections of what is written -/

/-- The merged text has the sections of the generated one, with the lines of the text that is put into
them. -/
theorem sections_merge_refilled (h : Mergeable existing generated) :
    sections (merge existing generated) = (sections generated).map (refilled existing) := by
  have hsectioned := sectioned_sections generated
  have hlines := allLines_sections generated
  have hcut : Text.WellCut (allLines (sections generated)) := hlines ▸ Text.wellCut_lines generated
  rw [merge_eq_refilled]
  refine sections_flatten (hsectioned.map (fun _ => rfl) fun x ls hs =>
    ⟨(refilled existing ⟨some x, ls⟩).lines, rfl, ?_⟩)
    (hsectioned.wellCut_map hcut (fun _ => rfl) (fun x ls hs => ⟨Text.wellCut_lines _, ?_⟩)
      (fun l hl hopens => ?_) fun x l hx _ _ hl => ?_)
  · rcases h.refilled_cases hs with hsame | ⟨-, hfits⟩
    · rw [hsame]
      exact hsectioned.closes_eq_false hs rfl
    · exact fun l hl => (hfits l hl).2.1
  · rcases h.refilled_cases hs with hsame | ⟨-, hfits⟩
    · exact .inl (by rw [hsame])
    · exact .inr fun l hl => (hfits l hl).1
  · rw [hlines] at hl
    exact (h.opened l hl (Option.isSome_iff_ne_none.2 hopens)).2
  · have hmem : l ∈ Text.lines generated := hlines ▸ List.mem_of_getLast? hl
    exact (h.opened l hmem (Option.isSome_iff_exists.2 ⟨x, hx⟩)).1

/-- What is written has the generated lines of the new module. -/
theorem generatedLines_merge (h : Mergeable existing generated) :
    generatedLines (merge existing generated) = generatedLines generated := by
  have hkept : ∀ s ∈ (sections generated).filter (·.name.isNone), refilled existing s = s := by
    rintro ⟨_ | x, ls⟩ hs
    · rfl
    · cases (List.mem_filter.1 hs).2
  have hfilter : ((sections generated).map (refilled existing)).filter (·.name.isNone) =
      ((sections generated).filter (·.name.isNone)).map (refilled existing) := List.filter_map
  rw [generatedLines, generatedLines, sections_merge_refilled h, hfilter, List.map_congr_left hkept,
    List.map_id']

/-- A text has the signatures of the lines of its sections. -/
theorem signatures_eq_sections (source : List Char) :
    signatures source = (sections source).flatMap fun s => s.lines.flatMap signatures := by
  calc signatures source = signatures (Text.lines source).flatten := by rw [Text.flatten_lines]
    _ = (Text.lines source).flatMap signatures := signatures_flatten (Text.wellCut_lines source)
    _ = (allLines (sections source)).flatMap signatures := by rw [allLines_sections]
    _ = _ := List.flatMap_assoc ..

/-- What is written has the signatures of the new module. -/
theorem signatures_merge (h : Mergeable existing generated) :
    signatures (merge existing generated) = signatures generated := by
  rw [signatures_eq_sections, signatures_eq_sections generated, sections_merge_refilled h, List.flatMap_map]
  refine congrArg List.flatten (List.map_congr_left fun s hs => ?_)
  obtain ⟨name, ls⟩ := s
  cases name with
  | none => rfl
  | some x =>
      rcases h.refilled_cases hs with hsame | ⟨hnone, hfits⟩
      · rw [hsame]
      · rw [List.flatMap_eq_nil_iff.2 hnone, List.flatMap_eq_nil_iff.2 fun l hl => (hfits l hl).2.2]

/-! ## regenerating -/

/-- Signatures of a text are spelled in it. -/
theorem exists_spelled {cs : List Char} (h : s ∈ signatures cs) : ∃ v, Spelled v s := by
  induction cs using signatures_induction with
  | hnil =>
      rw [signatures_nil] at h
      cases h
  | hmarked v s' cs hv ih =>
      rw [signatures_marked_append hv] at h
      rcases List.mem_cons.1 h with rfl | h
      · exact ⟨v, hv⟩
      · exact ih h
  | hcons c cs hnone ih =>
      rw [signatures_cons hnone] at h
      exact ih h

/-- A signature of the current version is spelled with it. -/
theorem spelled_of_current {cs : List Char} (hfind : findSignature cs = .ok s)
    (hcurrent : isCurrent cs = .ok true) : Spelled versionText s := by
  have hmem : s ∈ signatures cs := by
    rw [signatures_of_findSignature hfind]
    exact List.mem_cons_self
  obtain ⟨v, hv⟩ := exists_spelled hmem
  have hversion : s.version = formatVersion := by
    rw [isCurrent, hfind] at hcurrent
    exact of_decide_eq_true (Except.ok.inj hcurrent)
  exact ⟨List.cons_ne_nil _ _, List.all_eq_true.1 (by decide), hversion, hv.length, hv.isHexDigit⟩

/-- Regenerating over any text whose manual lines fit, signed or not and however it was edited outside
them, gives a text with the signature of the new module, which is valid and current.  Regenerating once
more gives that text again, if no manual section occurs twice. -/
theorem merge_signed (hvalid : validate generated = .ok true) (hcurrent : isCurrent generated = .ok true)
    (h : Mergeable existing generated) :
    findSignature (merge existing generated) = findSignature generated ∧
    validate (merge existing generated) = .ok true ∧ isCurrent (merge existing generated) = .ok true ∧
    (((sections generated).filterMap Section.name).Nodup →
      merge (merge existing generated) generated = merge existing generated) := by
  obtain ⟨s, hfind, -⟩ := bind_eq_ok_iff.1 hcurrent
  have hs := spelled_of_current hfind hcurrent
  have hsame : findSignature (merge existing generated) = findSignature generated := by
    rw [findSignature, findSignature, signatures_merge h]
  refine ⟨hsame, ?_, ?_, fun hnodup => ?_⟩
  · have hagree : Agree (merge existing generated) generated :=
      congrArg (List.map withoutEnding) (generatedLines_merge h)
    have hdigest : digest (withSlug s (merge existing generated)) s.version =
        digest (withSlug s generated) s.version :=
      congrArg (Sha256.hexDigest ∘ Text.Utf8.encode) (digestedText_congr _ (hagree.withSlug hs))
    rw [validate_eq (hsame.trans hfind), hdigest, ← validate_eq hfind, hvalid]
  · rw [isCurrent, hsame]
    exact hcurrent
  · exact merge_eq_self (f := refilled existing) (fun _ => rfl) (fun _ => rfl) hnodup
      (sections_merge_refilled h)

/-- The sample's lines with manual text, after the line that closes the section and the last newline were
deleted. -/
def sampleOpen : List (List Char) := ["# BEGIN MANUAL SECTION notes\n".toList, "mine".toList]

/-- The same lines with the line that closes the section put behind them. -/
def sampleGlued : List (List Char) :=
  ["# BEGIN MANUAL SECTION notes\n".toList, "mine# END MANUAL SECTION\n".toList]

theorem sections_sampleSigned_edited (hs : Spelled versionText s) :
    sections (sampleSigned s sampleEdited) =
      [⟨none, [sampleSigned s ['\n'], "# BEGIN MANUAL SECTION notes\n".toList]⟩,
        ⟨some "notes".toList, ["mine\n".toList]⟩, ⟨none, ["# END MANUAL SECTION\n".toList]⟩] := by
  rw [sampleEdited, sections_sampleSigned hs (by decide), sectionsFrom_opens, sectionsFrom_cons,
    sectionsFrom_closes]
  · rfl
  · decide
  · exact List.forall_mem_singleton.2 (by decide)
  · decide

theorem sections_sampleSigned_open (hs : Spelled versionText s) :
    sections (sampleSigned s ('\n' :: sampleOpen.flatten)) =
      [⟨none, [sampleSigned s ['\n'], "# BEGIN MANUAL SECTION notes\n".toList]⟩,
        ⟨some "notes".toList, ["mine".toList]⟩] := by
  rw [sections_sampleSigned hs (by decide), sampleOpen, sectionsFrom_opens, sectionsFrom_cons]
  · rfl
  · exact List.forall_mem_singleton.2 (by decide)
  · decide

/-- The signed sample has a good signature. -/
theorem validate_sample : findSignature (sampleSigned (signatureOf sample) sampleRest) =
      .ok (signatureOf sample) ∧
    validate (sampleSigned (signatureOf sample) sampleRest) = .ok true ∧
    isCurrent (sampleSigned (signatureOf sample) sampleRest) = .ok true := by
  have hs := spelled_signatureOf sample
  have hfresh : ¬ tokenStart <:+: sampleRest := not_occurs_of_not_mem (by decide)
  have hfind := findSignature_sampleSigned hs hfresh
  exact ⟨hfind, validate_of_withSlug hfind (withSlug_sampleSigned hs hfresh)⟩

theorem mergeable_sample (hs : Spelled versionText s) :
    Mergeable (sampleSigned s sampleEdited) (sampleSigned s sampleRest) := by
  have hmarker : Text.Plain "# BEGIN MANUAL SECTION notes".toList := by decide
  have hplain : Text.Plain "mine".toList := by decide
  have hmine : signatures "mine\n".toList = [] := signatures_of_not_occurs (not_occurs_of_not_mem (by decide))
  have hopens : opens (sampleSigned s ['\n']) = false := rfl
  refine ⟨?_, ?_, ?_⟩
  · rw [sections_sampleSigned_edited hs]
    intro s' hs' x _ hx l hl
    simp only [List.mem_cons, List.not_mem_nil, or_false] at hs'
    rcases hs' with rfl | rfl | rfl
    · cases hx
    · obtain rfl := List.mem_singleton.1 hl
      exact ⟨hplain.complete, hmine⟩
    · cases hx
  · rw [sections_sampleSigned_rest hs]
    simp
  · have hlines : Text.lines (sampleSigned s sampleRest) = sampleSigned s ['\n'] :: sampleLines := by
      rw [← allLines_sections, sections_sampleSigned_rest hs]
      rfl
    have hend : opens "# END MANUAL SECTION\n".toList = false := by decide
    intro l hl hl'
    simp only [hlines, sampleLines, List.mem_cons, List.not_mem_nil, or_false] at hl
    rcases hl with rfl | rfl | rfl
    · rw [hopens] at hl'
      contradiction
    · exact ⟨hmarker.complete, by decide⟩
    · rw [hend] at hl'
      contradiction

/-- Regenerating the sample keeps manual text and a good signature. -/
theorem merge_signed_sample :
    validate (sampleSigned (signatureOf sample) sampleRest) = .ok true ∧
    isCurrent (sampleSigned (signatureOf sample) sampleRest) = .ok true ∧
    Mergeable (sampleSigned (signatureOf sample) sampleEdited)
      (sampleSigned (signatureOf sample) sampleRest) ∧
    let regenerated := merge (sampleSigned (signatureOf sample) sampleEdited)
      (sampleSigned (signatureOf sample) sampleRest)
    findSignature regenerated = .ok (signatureOf sample) ∧ validate regenerated = .ok true ∧
    isCurrent regenerated = .ok true ∧
    merge regenerated (sampleSigned (signatureOf sample) sampleRest) = regenerated := by
  have hs := spelled_signatureOf sample
  obtain ⟨hfind, hvalid, hcurrent⟩ := validate_sample
  have hmergeable := mergeable_sample hs
  obtain ⟨hsame, hgood, hnew, hstable⟩ := merge_signed hvalid hcurrent hmergeable
  refine ⟨hvalid, hcurrent, hmergeable, hsame.trans hfind, hgood, hnew, hstable ?_⟩
  rw [sections_sampleSigned_rest hs]
  decide

/-- A section that is not closed takes the end of the sample out of what is digested. -/
theorem digest_glued_ne :
    Sha256.hexDigest (message (sampleFront ++ (slug ++ '\n' :: sampleGlued.flatten)) formatVersion) ≠
      Sha256.hexDigest (message sample formatVersion) := by decide +kernel

/-- Behind a last line without an ending, what closes the section does not begin a line.  So the section
stays open, and what is written is not valid. -/
theorem merge_unended :
    let existing := sampleSigned (signatureOf sample) ('\n' :: sampleOpen.flatten)
    let generated := sampleSigned (signatureOf sample) sampleRest
    isSigned existing = true ∧ isCurrent existing = .ok true ∧ (∃ valid, validate existing = .ok valid) ∧
    validate generated = .ok true ∧ isCurrent generated = .ok true ∧
    merge existing generated = sampleSigned (signatureOf sample) ('\n' :: sampleGlued.flatten) ∧
    validate (merge existing generated) = .ok false := by
  intro existing generated
  have hs := spelled_signatureOf sample
  have hfind : findSignature existing = .ok (signatureOf sample) :=
    findSignature_sampleSigned hs (not_occurs_of_not_mem (by decide))
  have hmerge : merge existing generated =
      sampleSigned (signatureOf sample) ('\n' :: sampleGlued.flatten) := by
    have hlines : (allLines ((sections generated).map (merged existing))) =
        [sampleSigned (signatureOf sample) ['\n'], "# BEGIN MANUAL SECTION notes\n".toList, "mine".toList,
          "# END MANUAL SECTION\n".toList] := by
      rw [sections_sampleSigned_rest hs]
      simp [merged, named, existing, sections_sampleSigned_open hs, allLines]
    rw [merge_eq, hlines]
    simp [sampleSigned, sampleGlued]
  have hfresh : ¬ tokenStart <:+: '\n' :: sampleGlued.flatten := not_occurs_of_not_mem (by decide)
  refine ⟨?_, ?_, ⟨_, validate_eq hfind⟩, validate_sample.2.1, validate_sample.2.2, hmerge, ?_⟩
  · rw [isSigned, signatures_of_findSignature hfind]
    rfl
  · rw [isCurrent, hfind]
    rfl
  · rw [hmerge, validate_eq (findSignature_sampleSigned hs hfresh), withSlug_sampleSigned hs hfresh]
    exact congrArg Except.ok (decide_eq_false digest_glued_ne)

end Lalr.Module
