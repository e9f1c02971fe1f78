import Lalr.Module.Section
import Lalr.Proofs.Text.Lines

/-!
# Lalr.Proofs.Module.Section

The sections of a text and the lines that they hold.  Cutting lines into sections gives a list of
sections in which the marker lines, and no others, stand where a section begins or ends
(`sectioned_sectionsFrom`), and every such list comes back from its lines (`sectionsFrom_eq`).
-/

namespace Lalr.Module

variable {n : Option (List Char)} {x : List Char} {l e : List Char} {found ls ls' : List (List Char)}
  {ss : List Section} {source : List Char}

/-! ## markers -/

theorem after?_append (m cs : List Char) : after? m (m ++ cs) = some cs := by
  induction m with
  | nil => rfl
  | cons c m ih => rw [List.cons_append, after?, if_pos rfl, ih]

theorem after?_eq_some_iff {m cs rest : List Char} : after? m cs = some rest ↔ cs = m ++ rest := by
  constructor
  · intro h
    fun_induction after? m cs with
    | case1 cs => exact Option.some.inj h
    | case2 c ms cs ih => rw [ih h, List.cons_append]
    | case3 => cases h
    | case4 => cases h
  · rintro rfl
    exact after?_append m rest

/-- A line that closes a section opens none. -/
theorem opens?_of_closes (h : closes l = true) : opens? l = none := by
  obtain ⟨rest, hrest⟩ := Option.isSome_iff_exists.1 h
  rw [opens?, after?_eq_some_iff.1 hrest]
  rfl

theorem newline_not_mem_of_plain (h : Text.Plain l) : '\n' ∉ l := fun hmem =>
  absurd (h '\n' hmem) (by decide)

theorem closes_newline : closes ['\n'] = false := by decide

/-- A line that closes a section does not begin with a newline. -/
theorem head?_of_closes (h : Text.WellCut (l :: ls)) (hl : closes l = true) :
    (l :: ls).flatten.head? ≠ some '\n' := by
  rw [List.flatten_cons]
  rcases Text.plain_or_complete h List.mem_cons_self with hplain | ⟨body, ending, hbody, hending, rfl⟩
  · obtain ⟨c, l, rfl⟩ := List.exists_cons_of_ne_nil (h.ne_nil List.mem_cons_self)
    rintro hhead
    obtain rfl : c = '\n' := Option.some.inj hhead
    exact newline_not_mem_of_plain hplain List.mem_cons_self
  · cases body with
    | cons c body =>
        rintro hhead
        obtain rfl : c = '\n' := Option.some.inj hhead
        exact newline_not_mem_of_plain hbody List.mem_cons_self
    | nil =>
        rcases hending with rfl | ⟨c, -, rfl⟩
        · simp
        · rintro hhead
          obtain rfl : c = '\n' := Option.some.inj hhead
          rw [List.nil_append, closes_newline] at hl
          contradiction

/-! ## lists of sections -/

/-- Lines that do not leave a section of a name or of none. -/
def Within : Option (List Char) → List (List Char) → Prop
  | none, ls => ∀ l ∈ ls, opens? l = none
  | some _, ls => ∀ l ∈ ls, closes l = false

/-- Lists of sections of which the first has a name or none: each section but the last ends where a
marker line says so, and no sooner. -/
inductive Sectioned : Option (List Char) → List Section → Prop
  | last {n : Option (List Char)} {ls : List (List Char)} (h : Within n ls) : Sectioned n [⟨n, ls⟩]
  | opened {ls : List (List Char)} {l x : List Char} {ss : List Section} (h : Within none ls)
    (hl : opens? l = some x) (hrest : Sectioned (some x) ss) : Sectioned none (⟨none, ls ++ [l]⟩ :: ss)
  | closed {x l : List Char} {ls ls' : List (List Char)} {ss : List Section} (h : Within (some x) ls)
    (hl : closes l = true) (hrest : Sectioned none (⟨none, l :: ls'⟩ :: ss)) :
    Sectioned (some x) (⟨some x, ls⟩ :: ⟨none, l :: ls'⟩ :: ss)

/-- The lines of a list of sections. -/
def allLines (ss : List Section) : List (List Char) := ss.flatMap Section.lines

@[simp] theorem allLines_cons (s : Section) (ss : List Section) :
    allLines (s :: ss) = s.lines ++ allLines ss := rfl

theorem within_nil (n : Option (List Char)) : Within n [] := by
  cases n <;> exact fun _ h => absurd h List.not_mem_nil

theorem within_cons : Within n (l :: ls) ↔ Within n [l] ∧ Within n ls := by
  cases n <;> simp [Within]

theorem within_append : Within n (ls ++ ls') ↔ Within n ls ∧ Within n ls' := by
  cases n <;> exact List.forall_mem_append

theorem within_closes (h : closes l = true) : Within none [l] :=
  List.forall_mem_singleton.2 (opens?_of_closes h)

theorem Sectioned.exists_cons (h : Sectioned n ss) : ∃ ls ss', ss = ⟨n, ls⟩ :: ss' := by
  cases h <;> exact ⟨_, _, rfl⟩

/-! ## cutting lines into sections -/

theorem sectionsFrom_opens (hl : opens? l = some x) (found rest : List (List Char)) :
    sectionsFrom none found (l :: rest) = ⟨none, found ++ [l]⟩ :: sectionsFrom (some x) [] rest := by
  simp only [sectionsFrom, hl]

theorem sectionsFrom_closes (hl : closes l = true) (found rest : List (List Char)) :
    sectionsFrom (some x) found (l :: rest) = ⟨some x, found⟩ :: sectionsFrom none [l] rest := by
  simp only [sectionsFrom, hl, if_true]

/-- A line within a section is found in it. -/
theorem sectionsFrom_cons (h : Within n [l]) (found rest : List (List Char)) :
    sectionsFrom n found (l :: rest) = sectionsFrom n (found ++ [l]) rest := by
  cases n with
  | none => simp only [sectionsFrom, h l (List.mem_singleton_self l)]
  | some x => simp [sectionsFrom, h l (List.mem_singleton_self l)]

theorem sectionsFrom_append (h : Within n ls) (found rest : List (List Char)) :
    sectionsFrom n found (ls ++ rest) = sectionsFrom n (found ++ ls) rest := by
  induction ls generalizing found with
  | nil => rw [List.nil_append, List.append_nil]
  | cons l ls ih =>
      obtain ⟨hl, hls⟩ := within_cons.1 h
      rw [List.cons_append, sectionsFrom_cons hl, ih hls, List.append_assoc, List.singleton_append]

/-- Sections come back from their lines. -/
theorem sectionsFrom_eq (h : Sectioned n ss) : sectionsFrom n [] (allLines ss) = ss := by
  induction h with
  | @last n ls h =>
      rw [allLines_cons, sectionsFrom_append h]
      cases n <;> rfl
  | @opened ls l x ss h hl _ ih =>
      rw [allLines_cons, List.append_assoc, sectionsFrom_append h, List.singleton_append,
        sectionsFrom_opens hl, ih, List.nil_append]
  | @closed x l ls ls' ss h hl _ ih =>
      rw [allLines_cons, List.cons_append, sectionsFrom_cons (within_closes hl), List.nil_append] at ih
      rw [allLines_cons, sectionsFrom_append h, allLines_cons, List.cons_append, sectionsFrom_closes hl,
        ih, List.nil_append]

/-- Cutting neither loses nor invents lines. -/
theorem allLines_sectionsFrom (n : Option (List Char)) (found ls : List (List Char)) :
    allLines (sectionsFrom n found ls) = found ++ ls := by
  fun_induction sectionsFrom n found ls <;> simp_all [allLines]

/-- The first section goes on from what has been found of it. -/
theorem exists_sectionsFrom_eq (n : Option (List Char)) (found ls : List (List Char)) :
    ∃ ls' ss, sectionsFrom n found ls = ⟨n, found ++ ls'⟩ :: ss := by
  fun_induction sectionsFrom n found ls with
  | case1 n found => exact ⟨[], [], by rw [List.append_nil]⟩
  | case2 found l rest x hl ih => exact ⟨[l], _, rfl⟩
  | case4 found l rest x hl ih => exact ⟨[], _, by rw [List.append_nil]⟩
  | case3 found l rest hl ih | case5 found l rest x hl ih =>
      obtain ⟨ls', ss, hss⟩ := ih
      exact ⟨l :: ls', ss, by rw [hss, List.append_assoc, List.singleton_append]⟩

/-- Cutting gives a list of sections that end where marker lines say so. -/
theorem sectioned_sectionsFrom (h : Within n found) (ls : List (List Char)) :
    Sectioned n (sectionsFrom n found ls) := by
  fun_induction sectionsFrom n found ls with
  | case1 n found => exact .last h
  | case2 found l rest x hl ih => exact .opened h hl (ih (within_nil _))
  | case3 found l rest hl ih => exact ih (within_append.2 ⟨h, List.forall_mem_singleton.2 hl⟩)
  | case4 found l rest x hl ih =>
      obtain ⟨ls', ss, hss⟩ := exists_sectionsFrom_eq none [l] rest
      replace ih := ih (within_closes hl)
      rw [hss] at ih ⊢
      exact .closed h hl ih
  | case5 found l rest x hl ih =>
      exact ih (within_append.2 ⟨h, List.forall_mem_singleton.2 (by simpa using hl)⟩)

theorem sectioned_sections (source : List Char) : Sectioned none (sections source) :=
  sectioned_sectionsFrom (within_nil none) _

theorem allLines_sections (source : List Char) : allLines (sections source) = Text.lines source :=
  allLines_sectionsFrom none [] _

/-- A text that is made of the lines of sections has these sections. -/
theorem sections_flatten (h : Sectioned none ss) (hcut : Text.WellCut (allLines ss)) :
    sections (allLines ss).flatten = ss := by
  rw [sections, Text.lines_flatten hcut, sectionsFrom_eq h]

/-- Manual sections hold no line that closes them. -/
theorem Sectioned.closes_eq_false (h : Sectioned n ss) {s : Section} (hs : s ∈ ss)
    (hname : s.name = some x) : ∀ l ∈ s.lines, closes l = false := by
  induction h with
  | @last n ls h =>
      obtain rfl := List.mem_singleton.1 hs
      obtain rfl : n = some x := hname
      exact h
  | opened h hl _ ih =>
      rcases List.mem_cons.1 hs with rfl | hs
      · cases hname
      · exact ih hs
  | closed h hl _ ih =>
      rcases List.mem_cons.1 hs with rfl | hs
      · exact h
      · exact ih hs

theorem wellCut_of_mem (hcut : Text.WellCut (allLines ss)) {s : Section} (hs : s ∈ ss) :
    Text.WellCut s.lines := by
  obtain ⟨before, after, rfl⟩ := List.append_of_mem hs
  rw [allLines, List.flatMap_append, List.flatMap_cons] at hcut
  exact hcut.of_append.of_append_left

/-! ## other lines in manual sections -/

variable {f : Section → Section}

/-- With other lines in the manual sections that close none, sections still end where marker lines say
so. -/
theorem Sectioned.map (h : Sectioned n ss) (hnone : ∀ ls, f ⟨none, ls⟩ = ⟨none, ls⟩)
    (hsome : ∀ x ls, ⟨some x, ls⟩ ∈ ss → ∃ ls', f ⟨some x, ls⟩ = ⟨some x, ls'⟩ ∧ Within (some x) ls') :
    Sectioned n (ss.map f) := by
  induction h with
  | @last n ls h =>
      cases n with
      | none =>
          rw [List.map_singleton, hnone]
          exact .last h
      | some x =>
          obtain ⟨ls', hf, hls'⟩ := hsome x ls List.mem_cons_self
          rw [List.map_singleton, hf]
          exact .last hls'
  | opened h hl _ ih =>
      rw [List.map_cons, hnone]
      exact .opened h hl (ih fun x ls hs => hsome x ls (List.mem_cons_of_mem _ hs))
  | @closed x l ls ls' ss h hl _ ih =>
      obtain ⟨ls'', hf, hls''⟩ := hsome x ls List.mem_cons_self
      replace ih := ih fun x ls hs => hsome x ls (List.mem_cons_of_mem _ hs)
      rw [List.map_cons, hnone] at ih
      rw [List.map_cons, hf, List.map_cons, hnone]
      exact .closed hls'' hl ih

/-- With other complete lines in the manual sections, the lines are still lines of their text.  No marker
line that opens a section may end in a return, which would take in a newline behind it, and none may lack
an ending if there are lines to follow it. -/
theorem Sectioned.wellCut_map (h : Sectioned n ss) (hcut : Text.WellCut (allLines ss))
    (hnone : ∀ ls, f ⟨none, ls⟩ = ⟨none, ls⟩)
    (hsome : ∀ x ls, ⟨some x, ls⟩ ∈ ss → Text.WellCut (f ⟨some x, ls⟩).lines ∧
      ((f ⟨some x, ls⟩).lines = ls ∨ ∀ l ∈ (f ⟨some x, ls⟩).lines, Text.Complete l))
    (hmeet : ∀ l ∈ allLines ss, opens? l ≠ none → l.getLast? ≠ some '\r')
    (hopen : ∀ x l, opens? l = some x → ss.getLast? = some ⟨some x, []⟩ → (f ⟨some x, []⟩).lines ≠ [] →
      (allLines ss).getLast? = some l → Text.Complete l) :
    Text.WellCut (allLines (ss.map f)) := by
  induction h with
  | @last n ls h =>
      cases n with
      | none =>
          rw [List.map_singleton, hnone]
          exact hcut
      | some x =>
          rw [List.map_singleton, allLines_cons]
          exact (List.append_nil _).symm ▸ (hsome x ls List.mem_cons_self).1
  | @opened ls l x ss h hl hrest ih =>
      replace ih := ih hcut.of_append (fun y ls' hs => hsome y ls' (List.mem_cons_of_mem _ hs))
        (fun l' hl' => hmeet l' (List.mem_append_right _ hl'))
        (fun y l' hy hlast hne hl' => hopen y l' hy (by rw [List.getLast?_cons, hlast]; rfl) hne
          (by rw [allLines_cons, List.getLast?_append, hl']; rfl))
      rw [List.map_cons, hnone, allLines_cons]
      by_cases hnil : allLines (ss.map f) = []
      · rw [hnil, List.append_nil]
        exact hcut.of_append_left
      · refine hcut.of_append_left.append_of_meet (fun l' hl' => ?_) (fun hlast => ?_) ih
        · by_cases hrestNil : allLines ss = []
          · -- The marker line is the last one, and what it opens has no lines yet.
            have hss : ss = [⟨some x, []⟩] := by
              cases hrest with
              | last h => simpa [allLines] using hrestNil
              | closed => simp at hrestNil
            subst hss
            rw [allLines_cons, hrestNil, List.append_nil] at hcut
            rcases List.mem_append.1 hl' with hl' | hl'
            · exact hcut.complete (by simp) l' hl'
            · obtain rfl := List.mem_singleton.1 hl'
              exact hopen x l' hl rfl (by simpa [allLines] using hnil) (by simp [allLines])
          · exact hcut.complete hrestNil l' hl'
        · -- The text in front ends like the marker line.
          have hne : l ≠ [] :=
            hcut.ne_nil (List.mem_append_left _ (List.mem_append_right _ List.mem_cons_self))
          rw [List.flatten_append, List.flatten_singleton, List.getLast?_append,
            List.getLast?_eq_some_getLast hne, Option.some_or] at hlast
          exact absurd ((List.getLast?_eq_some_getLast hne).trans hlast) (hmeet l (by simp) (by simp [hl]))
  | @closed x l ls ls' ss h hl hrest ih =>
      replace ih := ih hcut.of_append (fun y ls' hs => hsome y ls' (List.mem_cons_of_mem _ hs))
        (fun l' hl' => hmeet l' (List.mem_append_right _ hl'))
        (fun y l' hy hlast hne hl' => hopen y l' hy hlast hne
          (by rw [allLines_cons, List.getLast?_append, hl']; rfl))
      rw [List.map_cons, hnone, allLines_cons] at ih
      rw [List.map_cons, allLines_cons, List.map_cons, hnone, allLines_cons]
      obtain ⟨hwell, hlines⟩ := hsome x ls List.mem_cons_self
      refine hwell.append_of_meet ?_ (fun _ => head?_of_closes ih hl) ih
      rcases hlines with hlines | hlines
      · rw [hlines]
        exact hcut.complete (by simp)
      · exact hlines

end Lalr.Module
