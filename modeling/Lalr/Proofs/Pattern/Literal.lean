import Lalr.Lexer.Basic
import Lalr.Pattern.Literal
import Lalr.Proofs.Lexer.Lexicon
import Lalr.Proofs.Pattern.Forms
import Lalr.Proofs.Pattern.Reading

/-!
# Lalr.Proofs.Pattern.Literal

The pattern of a literal terminal is read as the text it was made from, character by character
(`ofChars_escape`), whatever the text is.  The combined pattern of some terminals is read as the
alternation of their patterns (`exists_ofString_combined`), since each stands in a group of its own.
-/

namespace Lalr.Pattern

variable {c : Char} {cs s rest u : List Char} {p : Pattern} {ps : List Pattern} {level : Level}
  {ts : List Terminal}

/-! ## characters that stand for themselves -/

theorem isAlphanum_of_isBlank (h : Text.isBlank c = true) : c.isAlphanum = false := by
  simp only [Text.isBlank, Text.isWhiteSpace, Text.within, Text.whiteSpaceRanges, List.any_cons,
    List.any_nil, Bool.or_false, Bool.or_eq_true, Bool.and_eq_true, decide_eq_true_eq] at h
  rw [Bool.eq_false_iff]
  have hranges : c.isAlphanum = ((decide ('A'.val ≤ c.val ∧ c.val ≤ 'Z'.val) ||
      decide ('a'.val ≤ c.val) && decide (c.val ≤ 'z'.val)) ||
      decide ('0'.val ≤ c.val) && decide (c.val ≤ '9'.val)) := rfl
  intro halnum
  simp only [hranges, UInt32.le_iff_toNat_le, Bool.or_eq_true, Bool.and_eq_true,
    decide_eq_true_eq] at halnum
  change ((65 ≤ c.toNat ∧ c.toNat ≤ 90) ∨ 97 ≤ c.toNat ∧ c.toNat ≤ 122) ∨
    48 ≤ c.toNat ∧ c.toNat ≤ 57 at halnum
  omega

/-- The characters that are written with a backslash are neither letters nor digits. -/
theorem isAlphanum_of_escaped (h : (specialChars.contains c || Text.isBlank c) = true) :
    c.isAlphanum = false := by
  rcases Bool.or_eq_true_iff.1 h with h | h
  · have hall : ∀ d ∈ specialChars, d.isAlphanum = false := by decide
    exact hall c (List.contains_iff_mem.1 h)
  · exact isAlphanum_of_isBlank h

/-- After a backslash, a character that is neither a letter nor a digit stands for itself. -/
theorem readEscape_of_not_alphanum (h : c.isAlphanum = false) :
    readEscape false c rest = .ok (.single c.toNat, rest) := by
  have hne (d : Char) (hd : d.isAlphanum = true) : c ≠ d := by
    rintro rfl
    simp [hd] at h
  have hclass : classEscape? c = none := by
    simp [classEscape?, hne 'd' rfl, hne 'D' rfl, hne 's' rfl, hne 'S' rfl, hne 'w' rfl, hne 'W' rfl]
  have hcontrol : controlEscape? c = none := by
    simp [controlEscape?, hne 'a' rfl, hne 'f' rfl, hne 'n' rfl, hne 'r' rfl, hne 't' rfl, hne 'v' rfl]
  have hhex : hexEscape? c = none := by
    simp [hexEscape?, hne 'x' rfl, hne 'u' rfl, hne 'U' rfl]
  simp [readEscape, hclass, hcontrol, hhex, h]

/-- A character that has no meaning in patterns stands for itself. -/
theorem readSign_of_plain (h : specialChars.contains c = false) :
    readSign c rest = .ok (.atom (.single c.toNat), rest) := by
  have hne (d : Char) (hd : specialChars.contains d = true) : c ≠ d := by
    rintro rfl
    exact absurd hd (by rw [h]; decide)
  have hplain : plainSign? c = none := by
    simp [plainSign?, hne ')' (by decide), hne '|' (by decide), hne '.' (by decide)]
  have hquantifier : quantifier? c = none := by
    simp [quantifier?, hne '*' (by decide), hne '+' (by decide), hne '?' (by decide)]
  simp [readSign, hplain, hquantifier, hne '\\' (by decide), hne '[' (by decide), hne '(' (by decide),
    hne '\x7b' (by decide), hne '^' (by decide), hne '$' (by decide)]

theorem readSigns_cons {sign : Sign} (h : readSign c s = .ok (sign, rest)) :
    readSigns (c :: s) = (readSigns rest).map (sign :: ·) := by
  rw [readSigns]
  split
  · next heq => simp [h] at heq
  · next heq =>
      obtain ⟨rfl, rfl⟩ := Prod.mk.inj (Except.ok.inj (h.symm.trans heq))
      cases readSigns rest <;> rfl

/-- A character is read back from what it is written as. -/
theorem readSigns_escapeChar (c : Char) (s : List Char) :
    readSigns (escapeChar c ++ s) = (readSigns s).map (.atom (.single c.toNat) :: ·) := by
  unfold escapeChar
  split
  · next hescaped =>
      refine readSigns_cons ?_
      have hread : readEscape false c s = .ok (.single c.toNat, s) :=
        readEscape_of_not_alphanum (isAlphanum_of_escaped hescaped)
      change readEscapeSign (c :: s) = _
      rw [readEscapeSign, hread]
      rfl
  · next hplain =>
      simp only [Bool.or_eq_true, not_or, Bool.not_eq_true] at hplain
      exact readSigns_cons (readSign_of_plain hplain.1)

/-- An escaped text is cut into its characters. -/
theorem readSigns_escape (cs : List Char) :
    readSigns (escape cs) = .ok (cs.map fun c => .atom (.single c.toNat)) := by
  induction cs with
  | nil => simp [escape, readSigns]
  | cons c cs ih =>
      have hcons : escape (c :: cs) = escapeChar c ++ escape cs := by simp [escape]
      rw [hcons, readSigns_escapeChar, ih]
      rfl

/-! ## the pattern of a text -/

/-- Characters fold into a sequence behind what the alternative has already. -/
theorem fold_characters (hlevel : level.branches = none) (cs : List Char) :
    fold [] level (cs.map fun c => .atom (.single c.toNat)) =
      .ok (cs.foldl (fun p c => p.followedBy (single c)) level.branch) := by
  induction cs generalizing level with
  | nil =>
      have hclose : level.close = level.branch := by rw [Level.close, hlevel]
      exact congrArg Except.ok hclose
  | cons c cs ih =>
      have hpush : (level.push (single c)).branches = none := hlevel
      exact ih hpush

theorem foldl_followedBy (hp : p ≠ .empty) (cs : List Char) :
    cs.foldl (fun p c => p.followedBy (single c)) p = cs.foldl (fun p c => .seq p (single c)) p := by
  induction cs generalizing p with
  | nil => rfl
  | cons c cs ih =>
      have hsingle : single c ≠ .empty := by simp [single]
      rw [List.foldl_cons, List.foldl_cons, followedBy, if_neg hp, if_neg hsingle, ih (by simp)]

/-- The pattern that is written for a text reads as that text. -/
theorem ofChars_escape (cs : List Char) : ofChars (escape cs) = .ok (verbatim cs) := by
  refine bind_eq_ok_iff.2 ⟨_, readSigns_escape cs, ?_⟩
  rw [fold_characters rfl]
  cases cs with
  | nil => rfl
  | cons c cs =>
      have hfirst : followedBy Level.start.branch (single c) = single c := rfl
      rw [List.foldl_cons, hfirst, foldl_followedBy (by simp [single]), verbatim]

/-! ## patterns in groups, with bars between -/

/-- A group that ends after one more item matches what its alternatives do, or the item. -/
theorem matches_close_push_iff {branches : Option Pattern} :
    ((Level.mk branches .empty none).push p).close.Matches u ↔
      (∃ b ∈ branches, b.Matches u) ∨ p.Matches u := by
  have hbranch : ((Level.mk branches .empty none).push p).branch = p := by
    simp [Level.push, Level.branch, followedBy]
  cases branches with
  | none =>
      have hclose : ((Level.mk none .empty none).push p).close = p := hbranch
      simp [hclose]
  | some b =>
      have hclose : ((Level.mk (some b) .empty none).push p).close = .alt b p :=
        congrArg (Pattern.alt b) hbranch
      rw [hclose, matches_alt_iff]
      simp

/-- Written patterns, each in a group, with bars between. -/
def grouped (ss : List (List Char)) : List Char :=
  List.intercalate ['|'] (ss.map fun s => "(?:".toList ++ s ++ [')'])

theorem grouped_singleton (s : List Char) : grouped [s] = "(?:".toList ++ s ++ [')'] :=
  List.intercalate_singleton

theorem grouped_cons_cons (s s' : List Char) (ss : List (List Char)) :
    grouped (s :: s' :: ss) = "(?:".toList ++ s ++ ')' :: '|' :: grouped (s' :: ss) := by
  simp [grouped, List.intercalate_cons_cons]

/-- A pattern in a group, before a text that can be read. -/
theorem readSigns_group {signs signs' : List Sign} (hs : readSigns s = .ok signs)
    (hrest : readSigns rest = .ok signs') :
    readSigns ("(?:".toList ++ s ++ ')' :: rest) = .ok (.opening :: (signs ++ .closing :: signs')) := by
  have hopening : readSign '(' ('?' :: ':' :: (s ++ ')' :: rest)) = .ok (.opening, s ++ ')' :: rest) :=
    rfl
  have hread := readSigns_cons hopening
  rw [readSigns_append hs hrest] at hread
  rw [List.append_assoc]
  exact hread

/-- Patterns in groups, with bars between, match what one of them does, or what the alternatives
before them do. -/
theorem exists_fold_groups {ss : List (List Char)} (hread : ∀ s ∈ ss, ∃ p, ofChars s = .ok p)
    (hne : ss ≠ []) (branches : Option Pattern) :
    ∃ signs q, readSigns (grouped ss) = .ok signs ∧ fold [] ⟨branches, .empty, none⟩ signs = .ok q ∧
      ∀ u, q.Matches u ↔ (∃ b ∈ branches, b.Matches u) ∨
        ∃ s ∈ ss, ∃ p, ofChars s = .ok p ∧ p.Matches u := by
  induction ss generalizing branches with
  | nil => exact absurd rfl hne
  | cons s ss ih =>
      obtain ⟨⟨p, hp⟩, hread⟩ := List.forall_mem_cons.1 hread
      obtain ⟨signs, hsigns, hfold⟩ := bind_eq_ok_iff.1 hp
      have hgroup (more : List Sign) :
          fold [] ⟨branches, .empty, none⟩ (.opening :: (signs ++ .closing :: more)) =
            fold [] ((Level.mk branches .empty none).push p) more :=
        fold_append hfold
      cases ss with
      | nil =>
          have hend : readSigns [] = .ok [] := by rw [readSigns]
          rw [grouped_singleton]
          refine ⟨_, _, readSigns_group hsigns hend, hgroup [], fun u => ?_⟩
          rw [matches_close_push_iff]
          simp [hp]
      | cons s' ss =>
          obtain ⟨signs', q, hsigns', hfold', hq⟩ := ih hread (by simp)
            (some ((Level.mk branches .empty none).push p).close)
          have hbar : readSigns ('|' :: grouped (s' :: ss)) = .ok (.bar :: signs') := by
            rw [readSigns_cons rfl, hsigns']
            rfl
          rw [grouped_cons_cons]
          refine ⟨_, q, readSigns_group hsigns hbar, (hgroup _).trans hfold', fun u => ?_⟩
          rw [hq]
          simp [matches_close_push_iff, hp, or_assoc]

/-- The combined pattern of some terminals can be read if their patterns can, and it matches what one
of the terminals does. -/
theorem exists_ofString_combined (hread : ∀ t ∈ ts, ∃ p, ofString t.pattern = .ok p) (hne : ts ≠ []) :
    ∃ q, ofString (Lexicon.combined ts) = .ok q ∧ ∀ u, q.Matches u ↔ ∃ t ∈ ts, t.Matches u := by
  have hreads : ∀ s ∈ ts.map fun t => t.pattern.toList, ∃ p, ofChars s = .ok p := by
    intro s hs
    obtain ⟨t, ht, rfl⟩ := List.mem_map.1 hs
    exact hread t ht
  obtain ⟨signs, q, hsigns, hfold, hq⟩ := exists_fold_groups hreads (by simpa using hne) none
  refine ⟨q, ?_, fun u => ?_⟩
  · have hchars : (Lexicon.combined ts).toList = grouped (ts.map fun t => t.pattern.toList) := by
      simp [Lexicon.combined, grouped, String.toList_intercalate, Function.comp_def]
    rw [ofString, hchars]
    exact bind_eq_ok_iff.2 ⟨signs, hsigns, hfold⟩
  · rw [hq]
    simp [Terminal.Matches, ofString]

/-- A lexicon goes by the combined pattern of its terminals: after some text it may stop where the
pattern matches, and it may go on where a match begins. -/
theorem run_start_eq_combined {lexicon : Lexicon} {q : Pattern} (h : Lexicon.ofTerminals ts = .ok lexicon)
    (hq : ∀ u, q.Matches u ↔ ∃ t ∈ ts, t.Matches u) (hu : u ≠ []) :
    (lexicon.start.run u).accepts = q.fullMatch u ∧
      (lexicon.start.run u).alive = q.partialMatch u := by
  refine ⟨Bool.eq_iff_iff.2 ?_, Bool.eq_iff_iff.2 ?_⟩
  · rw [Lexicon.accepts_start_iff hu, Lexicon.exists_entry_iff h, fullMatch_iff, hq]
  · rw [Lexicon.alive_start_iff hu, partialMatch_iff]
    simp only [hq, ← Lexicon.exists_entry_iff h]
    constructor
    · rintro ⟨e, he, v, hv⟩
      exact ⟨v, e, he, hv⟩
    · rintro ⟨v, e, he, hv⟩
      exact ⟨e, he, v, hv⟩

/-! ## literal terminals -/

theorem ofString_literal (name : Symbol) (text : String) (skip : Bool) :
    ofString (Terminal.literal name text skip).pattern = .ok (verbatim text.toList) := by
  rw [ofString, Terminal.literal, String.toList_ofList, ofChars_escape]

theorem matches_literal_iff {name : Symbol} {text : String} {skip : Bool} :
    (Terminal.literal name text skip).Matches u ↔ u = text.toList := by
  rw [Terminal.Matches, ofString_literal]
  simp [matches_verbatim_iff]

/-- What the combined pattern of some terminals matches in full and in part. -/
theorem exists_combined (hread : ∀ t ∈ ts, ∃ p, ofString t.pattern = .ok p) (hne : ts ≠ []) :
    ∃ q lexicon, ofString (Lexicon.combined ts) = .ok q ∧ Lexicon.ofTerminals ts = .ok lexicon ∧
      (∀ u, (q.fullMatch u ↔ ∃ t ∈ ts, t.Matches u) ∧
        (q.partialMatch u ↔ ∃ t ∈ ts, ∃ v, t.Matches (u ++ v))) ∧
      ∀ u ≠ [], (lexicon.start.run u).accepts = q.fullMatch u ∧
        (lexicon.start.run u).alive = q.partialMatch u := by
  obtain ⟨q, hq, hmatches⟩ := exists_ofString_combined hread hne
  have hentries : ∀ t ∈ ts, ∃ e, Lexicon.readEntry t = .ok e := by
    intro t ht
    obtain ⟨p, hp⟩ := hread t ht
    exact ⟨(t, p), bind_eq_ok_iff.2 ⟨p, hp, rfl⟩⟩
  obtain ⟨entries, hentries⟩ := exists_mapM_eq_ok hentries
  have hlexicon : Lexicon.ofTerminals ts = .ok (.ofEntries entries) :=
    bind_eq_ok_iff.2 ⟨entries, hentries, rfl⟩
  refine ⟨q, _, hq, hlexicon, fun u => ⟨?_, ?_⟩, fun u hu => run_start_eq_combined hlexicon hmatches hu⟩
  · rw [fullMatch_iff, hmatches]
  · rw [partialMatch_iff]
    simp only [hmatches]
    constructor
    · rintro ⟨v, t, ht, hv⟩
      exact ⟨t, ht, v, hv⟩
    · rintro ⟨t, ht, v, hv⟩
      exact ⟨v, t, ht, hv⟩

/-- The pattern of a literal terminal matches the text it was made from and nothing else, by itself
and as one of the alternatives of a combined pattern. -/
theorem literal_matches_text_only {before after : List Terminal}
    (hothers : ∀ t ∈ before ++ after, ∃ p, ofString t.pattern = .ok p) (name : Symbol) (text : String)
    (skip : Bool) :
    (∃ p, ofString (Terminal.literal name text skip).pattern = .ok p ∧
      ∀ u, (p.fullMatch u ↔ u = text.toList) ∧ (p.partialMatch u ↔ u <+: text.toList)) ∧
    (∃ q lexicon, ofString (Lexicon.combined (before ++ .literal name text skip :: after)) = .ok q ∧
      Lexicon.ofTerminals (before ++ .literal name text skip :: after) = .ok lexicon ∧
      (∀ u, (q.fullMatch u ↔ u = text.toList ∨ ∃ t ∈ before ++ after, t.Matches u) ∧
        (q.partialMatch u ↔
          u <+: text.toList ∨ ∃ t ∈ before ++ after, ∃ v, t.Matches (u ++ v))) ∧
      ∀ u ≠ [], (lexicon.start.run u).accepts = q.fullMatch u ∧
        (lexicon.start.run u).alive = q.partialMatch u) ∧
    ∀ literals : List (Symbol × String × Bool), literals ≠ [] →
      ∃ q, ofString (Lexicon.combined (literals.map fun l => .literal l.1 l.2.1 l.2.2)) = .ok q ∧
        ∀ u, (q.fullMatch u ↔ ∃ l ∈ literals, u = l.2.1.toList) ∧
          (q.partialMatch u ↔ ∃ l ∈ literals, u <+: l.2.1.toList) := by
  have hliteral (name : Symbol) (text : String) (skip : Bool) :
      ∃ p, ofString (Terminal.literal name text skip).pattern = .ok p :=
    ⟨_, ofString_literal name text skip⟩
  refine ⟨⟨_, ofString_literal name text skip, fun u => ⟨?_, ?_⟩⟩, ?_, fun literals hne => ?_⟩
  · rw [fullMatch_iff, matches_verbatim_iff]
  · simp only [partialMatch_iff, matches_verbatim_iff]
    rfl
  · have hread : ∀ t ∈ before ++ .literal name text skip :: after, ∃ p, ofString t.pattern = .ok p := by
      intro t ht
      rcases List.mem_append.1 ht with ht | ht
      · exact hothers t (List.mem_append_left _ ht)
      · rcases List.mem_cons.1 ht with rfl | ht
        · exact hliteral name text skip
        · exact hothers t (List.mem_append_right _ ht)
    obtain ⟨q, lexicon, hq, hlexicon, hmatches, hrun⟩ := exists_combined hread (by simp)
    refine ⟨q, lexicon, hq, hlexicon, fun u => ?_, hrun⟩
    rw [(hmatches u).1, (hmatches u).2]
    simp only [List.mem_append, List.mem_cons, or_and_right, exists_or, exists_eq_left,
      matches_literal_iff, or_left_comm]
    exact ⟨trivial, Iff.rfl⟩
  · have hread : ∀ t ∈ literals.map fun l => Terminal.literal l.1 l.2.1 l.2.2,
        ∃ p, ofString t.pattern = .ok p := by
      intro t ht
      obtain ⟨l, -, rfl⟩ := List.mem_map.1 ht
      exact hliteral l.1 l.2.1 l.2.2
    obtain ⟨q, -, hq, -, hmatches, -⟩ := exists_combined hread (by simpa using hne)
    refine ⟨q, hq, fun u => ?_⟩
    rw [(hmatches u).1, (hmatches u).2]
    simp only [List.mem_map, exists_exists_and_eq_and, matches_literal_iff]
    exact ⟨trivial, Iff.rfl⟩

/-- A text of special characters, blanks and digits behind backslashes, between a terminal with
alternatives and one with a group. -/
theorem literal_matches_text_only_special :
    let numbers : Terminal := ⟨"NUM", "[0-9]+|0x[0-9a-f]+", false⟩
    let words : Terminal := ⟨"WORD", "(a|b)*\\d", false⟩
    let literal : Terminal := .literal "ODD" "\\1 (?:a|b)\n\x7b2\x7d]-#é" false
    (∀ t ∈ [numbers] ++ [words], ∃ p, ofString t.pattern = .ok p) ∧
    ∃ q lexicon, ofString (Lexicon.combined [numbers, literal, words]) = .ok q ∧
      Lexicon.ofTerminals [numbers, literal, words] = .ok lexicon ∧
      (∀ u, (q.fullMatch u ↔ u = "\\1 (?:a|b)\n\x7b2\x7d]-#é".toList ∨
          ∃ t ∈ [numbers] ++ [words], t.Matches u) ∧
        (q.partialMatch u ↔ u <+: "\\1 (?:a|b)\n\x7b2\x7d]-#é".toList ∨
          ∃ t ∈ [numbers] ++ [words], ∃ v, t.Matches (u ++ v))) ∧
      ∀ u ≠ [], (lexicon.start.run u).accepts = q.fullMatch u ∧
        (lexicon.start.run u).alive = q.partialMatch u := by
  intro numbers words literal
  have hothers : ∀ t ∈ [numbers] ++ [words], ∃ p, ofString t.pattern = .ok p := by
    intro t ht
    have hread : (ofString numbers.pattern).isOk = true ∧ (ofString words.pattern).isOk = true :=
      ⟨by decide +kernel, by decide +kernel⟩
    have hok : (ofString t.pattern).isOk = true := by
      rcases List.mem_cons.1 ht with rfl | ht
      · exact hread.1
      · exact List.mem_singleton.1 ht ▸ hread.2
    cases h : ofString t.pattern with
    | error e => simp [h, Except.isOk, Except.toBool] at hok
    | ok p => exact ⟨p, rfl⟩
  exact ⟨hothers, (literal_matches_text_only hothers "ODD" _ false).2.1⟩

end Lalr.Pattern
