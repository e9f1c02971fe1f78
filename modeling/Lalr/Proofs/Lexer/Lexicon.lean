import Lalr.Lexer.Basic
import Lalr.Proofs.Fallible
import Lalr.Proofs.Pattern.Pruning

/-!
# Lalr.Proofs.Lexer.Lexicon

What the patterns of a lexicon say about a text: whether some terminal matches it, whether some
match begins with it, and which terminal matches it first.  `Terminal.Matches` is the language of a
terminal as it is declared, and a lexicon of terminals says the same of a text as their languages
do.
-/

namespace Lalr

variable {ts : List Terminal} {t : Terminal} {u v : List Char} {lexicon : Lexicon}

/-- A terminal matches the texts that its pattern does. -/
def Terminal.Matches (t : Terminal) (u : List Char) : Prop :=
  ∃ p, Pattern.ofString t.pattern = .ok p ∧ p.Matches u

namespace Lexicon

/-! ## the patterns of a lexicon -/

theorem admits_start_iff (hu : u ≠ []) :
    lexicon.start.Admits u ↔ ∃ e ∈ lexicon.entries, e.2.Matches u := by
  rw [lexicon.start_eq, Pattern.Residue.admits_ofPruned_iff, Pattern.matches_anyOf_iff]
  simp only [hu, and_false, or_false, List.mem_map]
  exact ⟨fun ⟨_, ⟨e, he, rfl⟩, hmatch⟩ => ⟨e, he, hmatch⟩,
    fun ⟨e, he, hmatch⟩ => ⟨_, ⟨e, he, rfl⟩, hmatch⟩⟩

/-- After a text that some entry matches, the text may end. -/
theorem accepts_start_iff (hu : u ≠ []) :
    (lexicon.start.run u).accepts = true ↔ ∃ e ∈ lexicon.entries, e.2.Matches u := by
  rw [Pattern.Residue.accepts_iff, Pattern.Residue.admits_run_iff, List.append_nil, admits_start_iff hu]

/-- After a text that begins a match of some entry, the text may go on. -/
theorem alive_start_iff (hu : u ≠ []) :
    (lexicon.start.run u).alive = true ↔ ∃ e ∈ lexicon.entries, ∃ v, e.2.Matches (u ++ v) := by
  have hlive : lexicon.start.Live := lexicon.start_eq ▸ Pattern.Residue.live_ofPruned _
  have hne (v : List Char) : u ++ v ≠ [] := fun h => hu (List.append_eq_nil_iff.1 h).1
  simp only [(hlive.run u).alive_iff, Pattern.Residue.admits_run_iff, admits_start_iff (hne _)]
  exact ⟨fun ⟨v, e, he, hv⟩ => ⟨e, he, v, hv⟩, fun ⟨e, he, v, hv⟩ => ⟨v, e, he, hv⟩⟩

/-- A lexeme belongs to the first entry that matches it. -/
theorem classify?_eq_some_iff : lexicon.classify? u = some t ↔ ∃ before p after,
    lexicon.entries = before ++ (t, p) :: after ∧ p.Matches u ∧ ∀ e ∈ before, ¬ e.2.Matches u := by
  rw [classify?, Option.map_eq_some_iff]
  simp only [List.find?_eq_some_iff_append, Bool.not_eq_true', Bool.eq_false_iff, ne_eq,
    Pattern.fullMatch_iff]
  constructor
  · rintro ⟨⟨t', p⟩, ⟨hp, before, after, hentries, hbefore⟩, rfl⟩
    exact ⟨before, p, after, hentries, hp, hbefore⟩
  · rintro ⟨before, p, after, hentries, hp, hbefore⟩
    exact ⟨(t, p), ⟨hp, before, after, hentries, hbefore⟩, rfl⟩

theorem exists_classify? (h : ∃ e ∈ lexicon.entries, e.2.Matches u) :
    ∃ t, lexicon.classify? u = some t := by
  obtain ⟨e, he, hmatch⟩ := h
  rw [← Option.isSome_iff_exists, classify?, Option.isSome_map, List.find?_isSome]
  exact ⟨e, he, Pattern.fullMatch_iff.2 hmatch⟩

/-! ## the languages of terminals -/

/-- The entries of a lexicon are its terminals with their patterns. -/
theorem entries_of_ofTerminals (h : ofTerminals ts = .ok lexicon) :
    lexicon.entries.map Prod.fst = ts ∧
      ∀ e ∈ lexicon.entries, Pattern.ofString e.1.pattern = .ok e.2 := by
  obtain ⟨entries, hentries, hlexicon⟩ := bind_eq_ok_iff.1 h
  obtain rfl : ofEntries entries = lexicon := Except.ok.inj hlexicon
  have hread (t : Terminal) (e : Terminal × Pattern) (he : readEntry t = .ok e) :
      e.1 = t ∧ Pattern.ofString e.1.pattern = .ok e.2 := by
    obtain ⟨p, hp, he⟩ := bind_eq_ok_iff.1 he
    obtain rfl : (t, p) = e := Except.ok.inj he
    exact ⟨rfl, hp⟩
  refine ⟨map_of_mapM_eq_ok hentries fun t e he => (hread t e he).1, fun e he => ?_⟩
  obtain ⟨t, -, ht⟩ := (mem_of_mapM_eq_ok hentries).1 he
  exact (hread t e ht).2

theorem matches_iff_of_mem (h : ofTerminals ts = .ok lexicon) {e : Terminal × Pattern}
    (he : e ∈ lexicon.entries) : e.1.Matches u ↔ e.2.Matches u := by
  rw [Terminal.Matches, (entries_of_ofTerminals h).2 e he]
  exact ⟨fun ⟨p, hp, hu⟩ => Except.ok.inj hp ▸ hu, fun hu => ⟨e.2, rfl, hu⟩⟩

theorem exists_entry_iff (h : ofTerminals ts = .ok lexicon) :
    (∃ e ∈ lexicon.entries, e.2.Matches u) ↔ ∃ t ∈ ts, t.Matches u := by
  rw [← (entries_of_ofTerminals h).1]
  constructor
  · rintro ⟨e, he, hu⟩
    exact ⟨e.1, List.mem_map_of_mem he, (matches_iff_of_mem h he).2 hu⟩
  · rintro ⟨t, ht, hu⟩
    obtain ⟨e, he, rfl⟩ := List.mem_map.1 ht
    exact ⟨e, he, (matches_iff_of_mem h he).1 hu⟩

end Lexicon

/-- The first terminal in order of declaration that matches a text. -/
def FirstMatch (ts : List Terminal) (u : List Char) (t : Terminal) : Prop :=
  ∃ before after, ts = before ++ t :: after ∧ t.Matches u ∧ ∀ t' ∈ before, ¬ t'.Matches u

theorem Lexicon.firstMatch_of_classify? (h : ofTerminals ts = .ok lexicon)
    (hclassify : lexicon.classify? u = some t) : FirstMatch ts u t := by
  obtain ⟨before, p, after, hentries, hp, hbefore⟩ := classify?_eq_some_iff.1 hclassify
  refine ⟨before.map Prod.fst, after.map Prod.fst, ?_, ?_, ?_⟩
  · rw [← (entries_of_ofTerminals h).1, hentries]
    simp
  · exact (matches_iff_of_mem h (e := (t, p)) (by simp [hentries])).2 hp
  · intro t' ht'
    obtain ⟨e, he, rfl⟩ := List.mem_map.1 ht'
    exact fun hu => hbefore e he ((matches_iff_of_mem h (by simp [hentries, he])).1 hu)

/-! ## a small lexicon -/

/-- Numbers that may have a fraction, dots, and white space that is skipped: terminals to try results
on. -/
def decimalTerminals : List Terminal :=
  [⟨"NUM", "[0-9]+(\\.[0-9]+)?", false⟩, ⟨"DOT", "\\.", false⟩, ⟨"WS", "\\s+", true⟩]

end Lalr
