import Lalr.Module.Signature
import Lalr.Proofs.Module.Section
import Lalr.Proofs.Text.Margin

/-!
# Lalr.Proofs.Module.Generated

The generated lines of a text: what stands outside manual sections, by one pass over its lines
(`generatedLines_eq`).  Whether a line opens or closes a section does not depend on how it ends
(`opens_withoutEnding`, `closes_withoutEnding`), so neither does which lines are generated.
-/

namespace Lalr.Module

variable {l : List Char} {ls ls' : List (List Char)} {f : List Char → List Char} {manual : Bool}

/-! ## one pass over the lines -/

/-- Whether a line opens a section. -/
def opens (l : List Char) : Bool := (opens? l).isSome

/-- Whether the line after some lines belongs to a manual section. -/
def manualAfter : Bool → List (List Char) → Bool
  | manual, [] => manual
  | true, l :: ls => manualAfter (!closes l) ls
  | false, l :: ls => manualAfter (opens l) ls

/-- The generated lines among some lines. -/
def generatedFrom : Bool → List (List Char) → List (List Char)
  | _, [] => []
  | true, l :: ls => if closes l then l :: generatedFrom false ls else generatedFrom true ls
  | false, l :: ls => l :: generatedFrom (opens l) ls

theorem manualAfter_append (manual : Bool) (ls ls' : List (List Char)) :
    manualAfter manual (ls ++ ls') = manualAfter (manualAfter manual ls) ls' := by
  fun_induction manualAfter manual ls <;> simp_all [manualAfter]

theorem manualAfter_within {n : Option (List Char)} (h : Within n ls) :
    manualAfter n.isSome ls = n.isSome := by
  induction ls with
  | nil => cases n <;> rfl
  | cons l ls ih =>
      obtain ⟨hl, hls⟩ := within_cons.1 h
      have hsame := ih hls
      cases n with
      | none => simpa [manualAfter, opens, hl l (List.mem_singleton_self l)] using hsame
      | some x => simpa [manualAfter, hl l (List.mem_singleton_self l)] using hsame

theorem generatedFrom_append (manual : Bool) (ls ls' : List (List Char)) :
    generatedFrom manual (ls ++ ls') =
      generatedFrom manual ls ++ generatedFrom (manualAfter manual ls) ls' := by
  induction ls generalizing manual with
  | nil => rfl
  | cons l ls ih =>
      cases manual with
      | true =>
          by_cases hl : closes l = true
          · simp [generatedFrom, manualAfter, hl, ih]
          · simp [generatedFrom, manualAfter, hl, ih]
      | false => simp [generatedFrom, manualAfter, ih]

/-- Lines that close no section add nothing inside one. -/
theorem generatedFrom_manual (h : ∀ l ∈ ls, closes l = false) (rest : List (List Char)) :
    generatedFrom true (ls ++ rest) = generatedFrom true rest := by
  induction ls with
  | nil => rfl
  | cons l ls ih =>
      obtain ⟨hl, hls⟩ := List.forall_mem_cons.1 h
      rw [List.cons_append, generatedFrom, if_neg (by simp [hl]), ih hls]

theorem generatedFrom_map (hopens : ∀ l, opens (f l) = opens l) (hcloses : ∀ l, closes (f l) = closes l)
    (manual : Bool) (ls : List (List Char)) :
    generatedFrom manual (ls.map f) = (generatedFrom manual ls).map f := by
  fun_induction generatedFrom manual ls <;> simp_all [generatedFrom]

theorem manualAfter_map (hopens : ∀ l, opens (f l) = opens l) (hcloses : ∀ l, closes (f l) = closes l)
    (manual : Bool) (ls : List (List Char)) : manualAfter manual (ls.map f) = manualAfter manual ls := by
  fun_induction manualAfter manual ls <;> simp_all [manualAfter]

theorem generated_sectionsFrom (n : Option (List Char)) (found ls : List (List Char)) :
    ((sectionsFrom n found ls).filter (·.name.isNone)).flatMap Section.lines =
      (if n.isNone then found else []) ++ generatedFrom n.isSome ls := by
  fun_induction sectionsFrom n found ls with
  | case1 n found => cases n <;> simp [generatedFrom]
  | case2 found l rest x hl ih | case3 found l rest hl ih | case4 found l rest x hl ih
  | case5 found l rest x hl ih => simp_all [generatedFrom, opens]

theorem generatedLines_eq (source : List Char) :
    generatedLines source = generatedFrom false (Text.lines source) :=
  generated_sectionsFrom none [] _

/-! ## the endings of lines -/

/-- A return or a newline. -/
def isLineEnd (c : Char) : Bool := c == '\r' || c == '\n'

/-- A line without the returns and newlines at its end. -/
def withoutEnding (l : List Char) : List Char := Text.dropEndWhile isLineEnd l

theorem normalLine_eq (l : List Char) : normalLine l = withoutEnding l ++ ['\n'] := rfl

/-- Nothing is dropped in front of a character that is kept. -/
theorem dropEndWhile_append {p : Char → Bool} {cs : List Char} {c : Char} (hlast : cs.getLast? = some c)
    (hc : p c = false) (rest : List Char) :
    Text.dropEndWhile p (cs ++ rest) = cs ++ Text.dropEndWhile p rest := by
  obtain ⟨cs, rfl⟩ := List.getLast?_eq_some_iff.1 hlast
  rw [Text.dropEndWhile, List.reverse_append, List.dropWhile_append]
  split
  · next h =>
      rw [List.isEmpty_iff] at h
      simp [Text.dropEndWhile, h, hc]
  · simp [Text.dropEndWhile]

/-! ## what markers look like -/

theorem dropWhile_isBlank_append {blanks : List Char} {m : Char} (h : ∀ c ∈ blanks, Text.isBlank c = true)
    (hm : Text.isBlank m = false) (rest : List Char) :
    (blanks ++ m :: rest).dropWhile Text.isBlank = m :: rest := by
  induction blanks with
  | nil => simp [hm]
  | cons c blanks ih =>
      obtain ⟨hc, hblanks⟩ := List.forall_mem_cons.1 h
      rw [List.cons_append, List.dropWhile_cons_of_pos hc, ih hblanks]

/-- A marker that does not begin with a blank stands behind blanks. -/
theorem after?_dropWhile_iff {m : Char} {ms rest : List Char} (hm : Text.isBlank m = false) :
    after? (m :: ms) (l.dropWhile Text.isBlank) = some rest ↔
      ∃ blanks, (∀ c ∈ blanks, Text.isBlank c = true) ∧ l = blanks ++ (m :: ms ++ rest) := by
  rw [after?_eq_some_iff]
  constructor
  · intro h
    refine ⟨l.takeWhile Text.isBlank, fun c hc => List.all_eq_true.1 List.all_takeWhile c hc, ?_⟩
    rw [← h, List.takeWhile_append_dropWhile]
  · rintro ⟨blanks, hblanks, rfl⟩
    rw [List.cons_append, dropWhile_isBlank_append hblanks hm]

theorem closes_iff : closes l = true ↔ ∃ blanks rest,
    (∀ c ∈ blanks, Text.isBlank c = true) ∧ l = blanks ++ (closingMarker ++ rest) := by
  rw [closes, Option.isSome_iff_exists, exists_comm]
  exact exists_congr fun rest => after?_dropWhile_iff (by decide)

/-- A text goes on with a character that is not blank. -/
def Goes (cs : List Char) : Prop := ∃ c, cs.head? = some c ∧ Text.isBlank c = false

theorem isEmpty_takeWhile_iff {cs : List Char} :
    (cs.takeWhile (!Text.isBlank ·)).isEmpty = false ↔ Goes cs := by
  cases cs with
  | nil => simp [Goes]
  | cons c cs => by_cases hc : Text.isBlank c = true <;> simp [Goes, hc]

theorem opens_iff : opens l = true ↔ ∃ blanks rest,
    (∀ c ∈ blanks, Text.isBlank c = true) ∧ l = blanks ++ (openingMarker ++ rest) ∧ Goes rest := by
  have hafter (rest : List Char) : after? openingMarker (l.dropWhile Text.isBlank) = some rest ↔
      ∃ blanks, (∀ c ∈ blanks, Text.isBlank c = true) ∧ l = blanks ++ (openingMarker ++ rest) :=
    after?_dropWhile_iff (by decide)
  have hopens : opens l = true ↔
      ∃ rest, after? openingMarker (l.dropWhile Text.isBlank) = some rest ∧ Goes rest := by
    rw [opens, opens?]
    cases after? openingMarker (l.dropWhile Text.isBlank) with
    | none => simp
    | some rest => simp [← isEmpty_takeWhile_iff]
  rw [hopens, exists_comm]
  refine exists_congr fun rest => ?_
  rw [hafter, exists_and_right.symm]
  exact exists_congr fun blanks => and_assoc

/-! ## markers and endings -/

theorem isBlank_of_isLineEnd {c : Char} (h : isLineEnd c = true) : Text.isBlank c = true := by
  rcases Bool.or_eq_true_iff.1 h with h | h <;> rw [eq_of_beq h] <;> decide

theorem isLineBoundary_of_isLineEnd {c : Char} (h : isLineEnd c = true) :
    Text.isLineBoundary c = true := by
  rcases Bool.or_eq_true_iff.1 h with h | h <;> rw [eq_of_beq h] <;> decide

theorem closes_withoutEnding (l : List Char) : closes (withoutEnding l) = closes l := by
  rw [Bool.eq_iff_iff, closes_iff, closes_iff]
  obtain ⟨ending, -, hl⟩ := Text.exists_dropEndWhile_eq isLineEnd l
  constructor
  · rintro ⟨blanks, rest, hblanks, h⟩
    refine ⟨blanks, rest ++ ending, hblanks, ?_⟩
    rw [← List.append_assoc closingMarker, ← List.append_assoc blanks, ← h]
    exact hl
  · rintro ⟨blanks, rest, hblanks, h⟩
    refine ⟨blanks, Text.dropEndWhile isLineEnd rest, hblanks, ?_⟩
    have hlast : (blanks ++ closingMarker).getLast? = some 'N' := by
      rw [List.getLast?_append]
      rfl
    rw [withoutEnding, h, ← List.append_assoc, dropEndWhile_append hlast (by decide), List.append_assoc]

theorem opens_withoutEnding (l : List Char) : opens (withoutEnding l) = opens l := by
  rw [Bool.eq_iff_iff, opens_iff, opens_iff]
  obtain ⟨ending, -, hl⟩ := Text.exists_dropEndWhile_eq isLineEnd l
  constructor
  · rintro ⟨blanks, rest, hblanks, h, c, hc, hblank⟩
    refine ⟨blanks, rest ++ ending, hblanks, ?_, c, ?_, hblank⟩
    · rw [← List.append_assoc openingMarker, ← List.append_assoc blanks, ← h]
      exact hl
    · rw [List.head?_append, hc, Option.some_or]
  · rintro ⟨blanks, rest, hblanks, h, c, hc, hblank⟩
    obtain ⟨rest, rfl⟩ := List.head?_eq_some_iff.1 hc
    have hkept : isLineEnd c = false := Bool.eq_false_iff.2 fun hend => by
      rw [isBlank_of_isLineEnd hend] at hblank
      contradiction
    refine ⟨blanks, c :: Text.dropEndWhile isLineEnd rest, hblanks, ?_, c, rfl,
      hblank⟩
    have hlast : (blanks ++ openingMarker ++ [c]).getLast? = some c := by simp
    have hsplit : blanks ++ (openingMarker ++ c :: rest) = blanks ++ openingMarker ++ [c] ++ rest := by
      simp
    rw [withoutEnding, h, hsplit, dropEndWhile_append hlast hkept]
    simp

/-- Which lines are generated does not depend on how lines end. -/
theorem generatedFrom_withoutEnding (manual : Bool) (ls : List (List Char)) :
    (generatedFrom manual ls).map withoutEnding = generatedFrom manual (ls.map withoutEnding) :=
  (generatedFrom_map opens_withoutEnding closes_withoutEnding manual ls).symm

/-! ## what is digested -/

/-- A piece without newlines comes back from a text in which a newline follows it. -/
theorem append_newline_inj {as as' bs bs' : List Char} (h : '\n' ∉ as) (h' : '\n' ∉ as')
    (heq : as ++ '\n' :: bs = as' ++ '\n' :: bs') : as = as' ∧ bs = bs' := by
  have hfront {as bs : List Char} (h : '\n' ∉ as) : (as ++ '\n' :: bs).takeWhile (· != '\n') = as := by
    rw [List.takeWhile_append_of_pos fun c hc => by simpa using ne_of_mem_of_not_mem hc h]
    simp
  have has : as = as' := by rw [← hfront h, heq, hfront h']
  subst has
  exact ⟨rfl, (List.cons.inj (List.append_cancel_left heq)).2⟩

/-- Lines come back from what is digested of them, up to their endings. -/
theorem flatMap_normalLine_inj (h : ∀ l ∈ ls, '\n' ∉ withoutEnding l)
    (h' : ∀ l ∈ ls', '\n' ∉ withoutEnding l) (heq : ls.flatMap normalLine = ls'.flatMap normalLine) :
    ls.map withoutEnding = ls'.map withoutEnding := by
  induction ls generalizing ls' with
  | nil =>
      cases ls' with
      | nil => rfl
      | cons l' ls' => simp [normalLine_eq] at heq
  | cons l ls ih =>
      cases ls' with
      | nil => simp [normalLine_eq] at heq
      | cons l' ls' =>
          obtain ⟨hl, hls⟩ := List.forall_mem_cons.1 h
          obtain ⟨hl', hls'⟩ := List.forall_mem_cons.1 h'
          rw [List.flatMap_cons, List.flatMap_cons, normalLine_eq, normalLine_eq, List.append_assoc,
            List.append_assoc] at heq
          obtain ⟨hfirst, hrest⟩ := append_newline_inj hl hl' heq
          rw [List.map_cons, List.map_cons, hfirst, ih hls hls' hrest]

theorem withoutEnding_snoc {c : Char} (hc : isLineEnd c = true) (l : List Char) :
    withoutEnding (l ++ [c]) = withoutEnding l := by
  rw [withoutEnding, withoutEnding, Text.dropEndWhile, List.reverse_append, List.reverse_singleton,
    List.singleton_append, List.dropWhile_cons_of_pos hc, Text.dropEndWhile]

/-- What does not depend on a return or newline at the end depends on no line ending. -/
theorem apply_withoutEnding {α : Type} {g : List Char → α}
    (h : ∀ l c, isLineEnd c = true → g (l ++ [c]) = g l) (l : List Char) : g (withoutEnding l) = g l := by
  have hkept : ∀ ending : List Char, (∀ c ∈ ending, isLineEnd c = true) → ∀ l, g (l ++ ending) = g l := by
    intro ending hending
    induction ending with
    | nil => exact fun l => by rw [List.append_nil]
    | cons c ending ih =>
        obtain ⟨hc, hrest⟩ := List.forall_mem_cons.1 hending
        intro l
        rw [← List.singleton_append, ← List.append_assoc, ih hrest, h l c hc]
  obtain ⟨ending, hending, hl⟩ := Text.exists_dropEndWhile_eq isLineEnd l
  calc g (withoutEnding l) = g (withoutEnding l ++ ending) := (hkept ending hending _).symm
    _ = g l := congrArg g hl.symm

theorem mem_of_mem_withoutEnding {c : Char} (h : c ∈ withoutEnding l) : c ∈ l := by
  obtain ⟨ending, -, hl⟩ := Text.exists_dropEndWhile_eq isLineEnd l
  rw [hl]
  exact List.mem_append_left ending h

/-- A line has no newline but at its end. -/
theorem newline_not_mem_withoutEnding {cs : List Char} (h : l ∈ Text.lines cs) :
    '\n' ∉ withoutEnding l := by
  have hplain {body : List Char} (hbody : Text.Plain body) : '\n' ∉ body := fun hmem =>
    absurd (hbody '\n' hmem) (by decide)
  rcases Text.plain_or_complete (Text.wellCut_lines cs) h with hl | ⟨body, ending, hbody, hending, rfl⟩
  · exact fun hmem => hplain hl (mem_of_mem_withoutEnding hmem)
  · rcases hending with rfl | ⟨c, hc, rfl⟩
    · have hsplit : body ++ ['\r', '\n'] = body ++ ['\r'] ++ ['\n'] := by simp
      rw [hsplit, withoutEnding_snoc (by decide), withoutEnding_snoc (by decide)]
      exact fun hmem => hplain hbody (mem_of_mem_withoutEnding hmem)
    · by_cases hnewline : c = '\n'
      · subst hnewline
        rw [withoutEnding_snoc (by decide)]
        exact fun hmem => hplain hbody (mem_of_mem_withoutEnding hmem)
      · intro hmem
        rcases List.mem_append.1 (mem_of_mem_withoutEnding hmem) with hmem | hmem
        · exact hplain hbody hmem
        · exact hnewline (List.mem_singleton.1 hmem).symm

theorem mem_of_mem_generatedFrom (h : l ∈ generatedFrom manual ls) : l ∈ ls := by
  fun_induction generatedFrom manual ls <;> grind

theorem digestedText_eq (source : List Char) (version : Nat) : digestedText source version =
    "lalrgen module v".toList ++ (toString version).toList ++
      '\n' :: (generatedLines source).flatMap normalLine := rfl

/-- Two texts have the same generated lines, up to their endings, if the same is digested of them. -/
theorem digestedText_inj {source source' : List Char} {version : Nat}
    (h : digestedText source version = digestedText source' version) :
    (generatedLines source).map withoutEnding = (generatedLines source').map withoutEnding := by
  have hline {source l : List Char} (hl : l ∈ generatedLines source) : '\n' ∉ withoutEnding l :=
    newline_not_mem_withoutEnding (mem_of_mem_generatedFrom (generatedLines_eq source ▸ hl))
  rw [digestedText_eq, digestedText_eq] at h
  exact flatMap_normalLine_inj (fun l => hline) (fun l => hline)
    (List.cons.inj (List.append_cancel_left h)).2

theorem digestedText_congr {source source' : List Char} (version : Nat)
    (h : (generatedLines source).map withoutEnding = (generatedLines source').map withoutEnding) :
    digestedText source version = digestedText source' version := by
  have hnormal (ls : List (List Char)) :
      ls.flatMap normalLine = (ls.map withoutEnding).flatMap (· ++ ['\n']) := by
    rw [List.flatMap_map]
    rfl
  rw [digestedText_eq, digestedText_eq, hnormal, hnormal, h]

end Lalr.Module
