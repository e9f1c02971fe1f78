import Lalr.Proofs.Keyed
import Lalr.Proofs.Module.Section

/-!
# Lalr.Proofs.Module.Merge

Merging keeps exactly the manual text and exactly the generated text.  The merged text has the sections
of the generated one, with the lines of the existing one in the manual sections that both have
(`sections_merge`), and merging again changes nothing (`merge_merge`).

The sections are put together from lines of two texts.  They come back from the merged text because the
lines that are put in are complete (`Sectioned.complete`) and none of them closes a section; what must
be excluded is a marker line at the end of the generated text that has no ending.
-/

namespace Lalr.Module

variable {n : Option (List Char)} {x : List Char} {l : List Char} {ls : List (List Char)}
  {s : Section} {ss : List Section} {existing generated source : List Char}

/-! ## the sections of a merged text -/

/-- The sections of a name. -/
def named (x : List Char) (ss : List Section) : List Section := ss.filter (·.name = some x)

/-- A section with all the lines that the sections of its name have in an existing text, if it is manual
and the existing text has any. -/
def merged (existing : List Char) (s : Section) : Section where
  name := s.name
  lines := match s.name with
    | none => s.lines
    | some x =>
      if named x (sections existing) = [] then s.lines else allLines (named x (sections existing))

/-- Grouping the lines of manual sections appends those of a name, in order, to what is listed under it. -/
theorem get?_foldl_manual (ss : List Section) (m : Keyed (List Char) (List (List Char))) (x : List Char) :
    (ss.foldl (fun m s => match s.name with
        | none => m
        | some name => m.update name [] (· ++ s.lines)) m).get? x =
      if named x ss = [] then m.get? x else some ((m.get? x).getD [] ++ allLines (named x ss)) := by
  induction ss generalizing m with
  | nil => rfl
  | cons s ss ih =>
      rw [List.foldl_cons, ih]
      rcases hname : s.name with _ | y
      · simp [named, hname]
      · by_cases h : y = x
        · by_cases hss : named x ss = [] <;> simp_all [named, Keyed.get?_update, allLines]
        · simp [named, hname, h, Keyed.get?_update]

theorem get?_manualLines (source x : List Char) : (manualLines source).get? x =
    if named x (sections source) = [] then none else some (allLines (named x (sections source))) :=
  get?_foldl_manual (sections source) ∅ x

theorem mergedLines_manualLines (existing : List Char) (s : Section) :
    mergedLines (manualLines existing) s = (merged existing s).lines := by
  obtain ⟨name, ls⟩ := s
  cases name with
  | none => rfl
  | some x =>
      simp only [mergedLines, merged, get?_manualLines]
      split <;> rfl

theorem merge_eq (existing generated : List Char) :
    merge existing generated = (allLines ((sections generated).map (merged existing))).flatten := by
  rw [merge, allLines, List.flatMap_map]
  exact congrArg (fun f => ((sections generated).flatMap f).flatten)
    (funext (mergedLines_manualLines existing))

/-! ## the lines of a merged text -/

/-- In a text that does not end inside a manual section, the lines of manual sections are complete. -/
theorem Sectioned.complete (h : Sectioned n ss) (hcut : Text.WellCut (allLines ss))
    (hlast : ∀ s, ss.getLast? = some s → s.name = none) (hs : s ∈ ss) (hname : s.name = some x) :
    ∀ l ∈ s.lines, Text.Complete l := by
  induction h with
  | @last n ls h =>
      obtain rfl := List.mem_singleton.1 hs
      cases (hlast _ rfl).symm.trans hname
  | @opened ls l y ss h hl hrest ih =>
      obtain ⟨s', ss', rfl⟩ := hrest.exists_cons
      rcases List.mem_cons.1 hs with rfl | hs
      · cases hname
      · exact ih hcut.of_append (fun s h => hlast s h) hs
  | closed h hl _ ih =>
      rcases List.mem_cons.1 hs with rfl | hs
      · exact hcut.complete (by simp)
      · exact ih hcut.of_append (fun s h => hlast s h) hs

/-- A manual section keeps its lines, or has lines of the sections of its name. -/
theorem merged_cases (existing : List Char) (x : List Char) (ls : List (List Char)) :
    (merged existing ⟨some x, ls⟩).lines = ls ∨
      ∀ l ∈ (merged existing ⟨some x, ls⟩).lines,
        ∃ s ∈ sections existing, s.name = some x ∧ l ∈ s.lines := by
  by_cases h : named x (sections existing) = []
  · exact .inl (if_pos h)
  · have hlines : (merged existing ⟨some x, ls⟩).lines = allLines (named x (sections existing)) :=
      if_neg h
    rw [hlines]
    refine .inr fun l hl => ?_
    obtain ⟨s, hs, hl⟩ := List.mem_flatMap.1 hl
    obtain ⟨hs, hname⟩ := List.mem_filter.1 hs
    exact ⟨s, hs, by simpa using hname, hl⟩

theorem within_merged (existing : List Char) (h : ∀ l ∈ ls, closes l = false) :
    Within (some x) (merged existing ⟨some x, ls⟩).lines := by
  rcases merged_cases existing x ls with hsame | hlines
  · rwa [hsame]
  · intro l hl
    obtain ⟨s, hs, hname, hl⟩ := hlines l hl
    exact (sectioned_sections existing).closes_eq_false hs hname l hl

/-- With other lines in the manual sections, sections still end where marker lines say so. -/
theorem Sectioned.map_merged (h : Sectioned n ss) (existing : List Char) :
    Sectioned n (ss.map (merged existing)) :=
  h.map (fun _ => rfl) fun _ _ hs => ⟨_, rfl, within_merged existing (h.closes_eq_false hs rfl)⟩

/-- With other complete lines in the manual sections, the lines are still lines of their text. -/
theorem wellCut_map_merged (h : Sectioned n ss) (hcut : Text.WellCut (allLines ss))
    (hreturn : ∀ l ∈ allLines ss, '\r' ∉ l) (hexisting : '\r' ∉ existing)
    (hclosed : ∀ s, (sections existing).getLast? = some s → s.name = none)
    (hopen : ∀ x l, ss.getLast? = some ⟨some x, []⟩ → (merged existing ⟨some x, []⟩).lines ≠ [] →
      (allLines ss).getLast? = some l → Text.Complete l) :
    Text.WellCut (allLines (ss.map (merged existing))) := by
  have hcutExisting : Text.WellCut (allLines (sections existing)) :=
    allLines_sections existing ▸ Text.wellCut_lines existing
  refine h.wellCut_map hcut (fun _ => rfl) (fun x ls hs => ?_)
    (fun l hl _ hlast => hreturn l hl (List.mem_of_getLast? hlast)) fun x l _ => hopen x l
  rcases merged_cases existing x ls with hsame | hlines
  · rw [hsame]
    exact ⟨wellCut_of_mem hcut hs, .inl rfl⟩
  · have hall : ∀ l ∈ (merged existing ⟨some x, ls⟩).lines, Text.Complete l ∧ '\r' ∉ l := by
      intro l hl
      obtain ⟨s, hs, hname, hl⟩ := hlines l hl
      refine ⟨(sectioned_sections existing).complete hcutExisting hclosed hs hname l hl, fun hc => ?_⟩
      exact hexisting (Text.mem_of_mem_lines
        (allLines_sections existing ▸ List.mem_flatMap.2 ⟨s, hs, hl⟩) hc)
    have hwell := Text.WellCut.append (fun l hl => (hall l hl).1) (fun l hl => (hall l hl).2) .nil
    rw [List.append_nil] at hwell
    exact ⟨hwell, .inr fun l hl => (hall l hl).1⟩

/-! ## merging -/

/-- A section that is the only one of its name is the content of its name. -/
theorem named_eq_singleton (h : (ss.filterMap Section.name).Nodup) (hs : s ∈ ss)
    (hname : s.name = some x) : named x ss = [s] := by
  induction ss with
  | nil => cases hs
  | cons s' ss ih =>
      rcases List.mem_cons.1 hs with rfl | hs
      · have hnone : named x ss = [] := by
          refine List.filter_eq_nil_iff.2 fun s' hs' => ?_
          rw [List.filterMap_cons_some hname, List.nodup_cons] at h
          simpa using fun hname' => h.1 (List.mem_filterMap.2 ⟨s', hs', hname'⟩)
        rw [named, List.filter_cons_of_pos (by simpa using hname)]
        exact congrArg (s :: ·) hnone
      · have hne : s'.name ≠ some x := by
          intro hname'
          rw [List.filterMap_cons_some hname', List.nodup_cons] at h
          exact h.1 (List.mem_filterMap.2 ⟨s, hs, hname⟩)
        rw [named, List.filter_cons_of_neg (by simpa using hne)]
        exact ih (h.sublist ((List.sublist_cons_self s' ss).filterMap _)) hs

/-- Where an existing text has one section of each name, that section is what is put in. -/
theorem merged_eq_of_mem {s' : Section} (h : ((sections existing).filterMap Section.name).Nodup)
    (hs' : s' ∈ sections existing) (hname : s'.name = s.name) (hlines : s.name = none → s' = s) :
    merged existing s = s' := by
  obtain ⟨name, ls⟩ := s
  obtain ⟨name', ls'⟩ := s'
  obtain rfl : name' = name := hname
  cases name' with
  | none => exact (hlines rfl).symm
  | some x =>
      have hnamed := named_eq_singleton h hs' rfl
      simp [merged, hnamed, allLines]

/-- A text with the sections of a generated one, but for the lines of the manual ones, is what comes of
merging it with that, if no manual section occurs twice. -/
theorem merge_eq_self {f : Section → Section} (hname : ∀ s, (f s).name = s.name)
    (hnone : ∀ ls, f ⟨none, ls⟩ = ⟨none, ls⟩)
    (hnodup : ((sections generated).filterMap Section.name).Nodup)
    (hsections : sections source = (sections generated).map f) : merge source generated = source := by
  have hnames : (sections source).filterMap Section.name =
      (sections generated).filterMap Section.name := by
    rw [hsections, List.filterMap_map]
    exact congrArg (List.filterMap · (sections generated)) (funext hname)
  have hmerged : ∀ s ∈ sections generated, merged source s = f s := by
    intro s hs
    refine merged_eq_of_mem (hnames ▸ hnodup) (hsections ▸ List.mem_map_of_mem hs) (hname s) fun hs => ?_
    obtain ⟨name, ls⟩ := s
    obtain rfl : name = none := hs
    exact hnone ls
  rw [merge_eq, List.map_congr_left hmerged, ← hsections, allLines_sections, Text.flatten_lines]

/-- Merging a text with itself changes nothing. -/
theorem merge_self (h : ((sections generated).filterMap Section.name).Nodup) :
    merge generated generated = generated :=
  merge_eq_self (fun _ => rfl) (fun _ => rfl) h (List.map_id _).symm

/-- Merging once more changes nothing. -/
theorem merge_merge (h : ((sections generated).filterMap Section.name).Nodup)
    (hsections : sections (merge existing generated) = (sections generated).map (merged existing)) :
    merge (merge existing generated) generated = merge existing generated :=
  merge_eq_self (f := merged existing) (fun _ => rfl) (fun _ => rfl) h hsections

/-- Merging keeps exactly the manual text and exactly the generated text.  The merged text has the
sections of the generated one; a manual section has all lines of the sections of its name in the existing
text, in order, if that has any.  If no manual section occurs twice, merging again changes nothing, and
neither does merging a text with itself. -/
theorem sections_merge (hexisting : '\r' ∉ existing) (hgenerated : '\r' ∉ generated)
    (hclosed : ∀ s, (sections existing).getLast? = some s → s.name = none)
    (hopen : ∀ x, (sections generated).getLast? = some ⟨some x, []⟩ →
      (∃ s ∈ sections existing, s.name = some x ∧ s.lines ≠ []) →
        ∃ c, generated.getLast? = some c ∧ Text.isLineBoundary c = true) :
    sections (merge existing generated) = (sections generated).map (merged existing) ∧
      (((sections generated).filterMap Section.name).Nodup →
        merge (merge existing generated) generated = merge existing generated ∧
          merge generated generated = generated) := by
  suffices h : sections (merge existing generated) = (sections generated).map (merged existing) from
    ⟨h, fun hnodup => ⟨merge_merge hnodup h, merge_self hnodup⟩⟩
  rw [merge_eq]
  refine sections_flatten ((sectioned_sections generated).map_merged existing) ?_
  refine wellCut_map_merged (sectioned_sections generated) ?_ ?_ hexisting hclosed ?_ <;>
    rw [allLines_sections]
  · exact Text.wellCut_lines generated
  · exact fun l hl hc => hgenerated (Text.mem_of_mem_lines hl hc)
  · intro x l hlast hne hl
    obtain ⟨s, hs, hname, hlines⟩ : ∃ s ∈ sections existing, s.name = some x ∧ s.lines ≠ [] := by
      rcases merged_cases existing x [] with hsame | hlines
      · exact absurd hsame hne
      · obtain ⟨l, hl⟩ := List.exists_mem_of_ne_nil _ hne
        obtain ⟨s, hs, hname, hl⟩ := hlines l hl
        exact ⟨s, hs, hname, List.ne_nil_of_mem hl⟩
    obtain ⟨c, hc, hboundary⟩ := hopen x hlast ⟨s, hs, hname, hlines⟩
    refine (Text.wellCut_lines generated).complete_of_mem (List.mem_of_getLast? hl) ?_ hboundary
    rw [← hc, Text.getLast?_of_getLast?_lines hl]

/-- A module with one manual section. -/
def oldModule : List Char :=
  "old\n# BEGIN MANUAL SECTION notes\nmine\n# END MANUAL SECTION\n".toList

/-- A module with two manual sections, the second of which is still open. -/
def newModule : List Char :=
  "new\n# BEGIN MANUAL SECTION notes\n# END MANUAL SECTION\n# BEGIN MANUAL SECTION more".toList

/-- The manual text of the old module is all that the new one takes over. -/
theorem sections_merge_modules :
    merge oldModule newModule =
      ("new\n# BEGIN MANUAL SECTION notes\nmine\n# END MANUAL SECTION\n# BEGIN MANUAL SECTION more").toList ∧
    sections (merge oldModule newModule) = (sections newModule).map (merged oldModule) ∧
    merge (merge oldModule newModule) newModule = merge oldModule newModule := by
  have hopen : ∀ x, (sections newModule).getLast? = some ⟨some x, []⟩ →
      (∃ s ∈ sections oldModule, s.name = some x ∧ s.lines ≠ []) →
        ∃ c, newModule.getLast? = some c ∧ Text.isLineBoundary c = true := by
    have hlast : (sections newModule).getLast? = some ⟨some "more".toList, []⟩ := by decide
    have hnone : ∀ s ∈ sections oldModule, s.name ≠ some "more".toList := by decide
    rintro x hx ⟨s, hs, hname, -⟩
    rw [hlast] at hx
    cases hx
    exact absurd hname (hnone s hs)
  have hexisting : '\r' ∉ oldModule := by decide
  have hgenerated : '\r' ∉ newModule := by decide
  obtain ⟨hsections, hstable⟩ := sections_merge hexisting hgenerated (by decide) hopen
  exact ⟨by decide, hsections, (hstable (by decide)).1⟩

/-- A marker line without an ending takes in the first line that is put behind it. -/
theorem sections_merge_glued :
    '\r' ∉ oldModule ∧ '\r' ∉ "# BEGIN MANUAL SECTION notes".toList ∧
      (sections oldModule).getLast?.map Section.name = some none ∧
      (sections (merge oldModule "# BEGIN MANUAL SECTION notes".toList)).map Section.name =
        [none, some "notesmine".toList] ∧
      (sections "# BEGIN MANUAL SECTION notes".toList).map Section.name =
        [none, some "notes".toList] := by
  decide

end Lalr.Module
