import Lalr.Proofs.Lexer.Course

/-!
# Lalr.Proofs.Lexer.Munch

Maximal munch.  At every place that the lexer comes to before the end of its source, it takes the
longest lexeme that stands there and gives it to the first terminal that matches it, and it fails if
no lexeme stands there (`munchesAt_of_reaches`).  The text of the failure is what it had to see to
know: the shortest beginning of the rest that is the beginning of no match.  It has at least one
character, also where no terminal matches anything (`unexpected_of_void`).
-/

namespace Lalr

variable {ts : List Terminal} {text u v : List Char} {n k : Nat} {ended : ScanEnd} {lexicon : Lexicon}

/-! ## lexemes -/

/-- A text that can be a lexeme: it is not empty, and some terminal matches it. -/
def IsLexeme (ts : List Terminal) (u : List Char) : Prop := u ≠ [] ∧ ∃ t ∈ ts, t.Matches u

/-- The longest lexeme at the beginning of a text. -/
structure LongestLexeme (ts : List Terminal) (text u : List Char) : Prop where
  isLexeme : IsLexeme ts u
  begins : u <+: text
  longest : ∀ v, IsLexeme ts v → v <+: text → v.length ≤ u.length

/-- Some terminal matches the text or a longer one that begins with it. -/
def BeginsMatch (ts : List Terminal) (u : List Char) : Prop := ∃ t ∈ ts, ∃ v, t.Matches (u ++ v)

theorem BeginsMatch.of_prefix (h : BeginsMatch ts v) (hu : u <+: v) : BeginsMatch ts u := by
  obtain ⟨t, ht, w, hw⟩ := h
  obtain ⟨x, rfl⟩ := hu
  exact ⟨t, ht, x ++ w, by rwa [← List.append_assoc]⟩

theorem IsLexeme.beginsMatch (h : IsLexeme ts u) : BeginsMatch ts u := by
  obtain ⟨-, t, ht, hu⟩ := h
  exact ⟨t, ht, [], by rwa [List.append_nil]⟩

/-- A beginning of a text, of at least `least` characters, that begins no match. -/
structure Stuck (ts : List Terminal) (least : Nat) (text u : List Char) : Prop where
  least_le : least ≤ u.length
  begins : u <+: text
  not_beginsMatch : ¬ BeginsMatch ts u

/-- The shortest beginning of a text, of at least `least` characters, that begins no match, or all of the
text if there is none. -/
def FaultText (ts : List Terminal) (least : Nat) (text u : List Char) : Prop :=
  (Stuck ts least text u ∧ ∀ v, Stuck ts least text v → u.length ≤ v.length) ∨
    u = text ∧ ∀ v, ¬ Stuck ts least text v

namespace Lexicon

theorem accepts_iff_exists (h : ofTerminals ts = .ok lexicon) (hu : u ≠ []) :
    (lexicon.start.run u).accepts = true ↔ ∃ t ∈ ts, t.Matches u :=
  (accepts_start_iff hu).trans (exists_entry_iff h)

theorem alive_iff_beginsMatch (h : ofTerminals ts = .ok lexicon) (hu : u ≠ []) :
    (lexicon.start.run u).alive = true ↔ BeginsMatch ts u := by
  have hentry (v : List Char) := exists_entry_iff (u := u ++ v) h
  rw [alive_start_iff hu]
  constructor
  · rintro ⟨e, he, v, hv⟩
    obtain ⟨t, ht, hmatch⟩ := (hentry v).1 ⟨e, he, hv⟩
    exact ⟨t, ht, v, hmatch⟩
  · rintro ⟨t, ht, v, hv⟩
    obtain ⟨e, he, hmatch⟩ := (hentry v).2 ⟨t, ht, hv⟩
    exact ⟨e, he, v, hmatch⟩

end Lexicon

/-! ## what a scan says about lexemes -/

namespace Scanned

theorem isLexeme (h : Lexicon.ofTerminals ts = .ok lexicon) (hs : Scanned lexicon.start text n k)
    (hk : k ≠ 0) : IsLexeme ts (text.take k) :=
  ⟨hs.take_ne_nil hk, (Lexicon.accepts_iff_exists h (hs.take_ne_nil hk)).1 (hs.accepts hk)⟩

/-- What begins no match lies beyond what was scanned. -/
theorem beginsMatch_of_length_le (h : Lexicon.ofTerminals ts = .ok lexicon)
    (hs : Scanned lexicon.start text n k) (hu : u <+: text) (hne : u ≠ []) (hle : u.length ≤ n) :
    BeginsMatch ts u := by
  rw [← Lexicon.alive_iff_beginsMatch h hne, List.prefix_iff_eq_take.1 hu]
  exact hs.alive _ (List.length_pos_iff.2 hne) hle

/-- What begins a match lies within what was scanned. -/
theorem length_le_of_beginsMatch (h : Lexicon.ofTerminals ts = .ok lexicon)
    (hends : EndsAt lexicon.start text n ended) (hu : u <+: text) (hmatch : BeginsMatch ts u) :
    u.length ≤ n := by
  cases ended with
  | blocked c =>
      obtain ⟨hc, hdead⟩ := hends
      have hlt : n < text.length := (List.getElem?_eq_some_iff.1 hc).1
      have hlen : (text.take (n + 1)).length = n + 1 := by
        rw [List.length_take]
        omega
      by_contra hgt
      have hbegins : text.take (n + 1) <+: u :=
        List.prefix_of_prefix_length_le (List.take_prefix _ _) hu (by omega)
      have hne : text.take (n + 1) ≠ [] := List.length_pos_iff.1 (by omega)
      have halive := (Lexicon.alive_iff_beginsMatch h hne).2 (hmatch.of_prefix hbegins)
      rw [hdead] at halive
      contradiction
  | finished => exact Nat.le_trans hu.length_le (Nat.le_of_eq hends.symm)
  | failed reason => cases hends

/-- No lexeme at the beginning of the text is longer than the match that the scan remembers. -/
theorem length_le_of_isLexeme (h : Lexicon.ofTerminals ts = .ok lexicon)
    (hs : Scanned lexicon.start text n k) (hends : EndsAt lexicon.start text n ended)
    (hu : IsLexeme ts u) (hbegins : u <+: text) : u.length ≤ k := by
  have hle := length_le_of_beginsMatch h hends hbegins hu.beginsMatch
  have haccepts := (Lexicon.accepts_iff_exists h hu.1).2 hu.2
  by_contra hgt
  rw [List.prefix_iff_eq_take.1 hbegins, hs.last _ (Nat.lt_of_not_le hgt) hle] at haccepts
  contradiction

theorem longestLexeme (h : Lexicon.ofTerminals ts = .ok lexicon)
    (hs : Scanned lexicon.start text n k) (hends : EndsAt lexicon.start text n ended) (hk : k ≠ 0) :
    LongestLexeme ts text (text.take k) where
  isLexeme := hs.isLexeme h hk
  begins := List.take_prefix _ _
  longest v hv hbegins := by
    rw [List.length_take, Nat.min_eq_left (Nat.le_trans hs.longest_le hs.le)]
    exact hs.length_le_of_isLexeme h hends hv hbegins

/-- If the scan remembers no match, it knows the text of the failure. -/
theorem faultText (h : Lexicon.ofTerminals ts = .ok lexicon) (hs : Scanned lexicon.start text n k)
    (hends : EndsAt lexicon.start text n ended) (hne : text ≠ []) (l : Lexer) :
    ∃ u, FaultText ts 1 text u ∧
      l.withoutMatch (text.take n) ended = .error ⟨.unexpected u, l.position⟩ := by
  have hstuck (v : List Char) (hv : Stuck ts 1 text v) : n < v.length := by
    by_contra hle
    exact hv.not_beginsMatch (hs.beginsMatch_of_length_le h hv.begins
      (List.length_pos_iff.1 hv.least_le) (Nat.le_of_not_lt hle))
  cases ended with
  | blocked c =>
      obtain ⟨hc, -⟩ := id hends
      obtain ⟨hlt, rfl⟩ := List.getElem?_eq_some_iff.1 hc
      have hlen : (text.take (n + 1)).length = n + 1 := by
        rw [List.length_take]
        omega
      refine ⟨text.take (n + 1), .inl ⟨⟨by omega, List.take_prefix _ _, fun hmatch => ?_⟩,
        fun v hv => by rw [hlen]; exact hstuck v hv⟩, ?_⟩
      · have := length_le_of_beginsMatch h hends (List.take_prefix _ _) hmatch
        omega
      · rw [Lexer.withoutMatch, List.take_append_getElem]
  | finished =>
      obtain rfl : n = text.length := hends
      refine ⟨text, .inr ⟨rfl, fun v hv => ?_⟩, ?_⟩
      · have := hstuck v hv
        have := hv.begins.length_le
        omega
      · simp [Lexer.withoutMatch, List.isEmpty_iff, hne]
  | failed reason => cases hends

end Scanned

/-! ## steps -/

namespace Lexer

variable {l : Lexer}

/-- Before the end, either a lexeme stands ahead and the longest is taken, or none does and the step
fails. -/
theorem step_gathered_of_ne_nil (h : Lexicon.ofTerminals ts = .ok l.lexicon) (hne : l.remaining ≠ []) :
    (∃ t u, LongestLexeme ts l.remaining u ∧ FirstMatch ts u t ∧
      l.gathered.step.1 = .ok (some (t, u))) ∨
    (∀ v, IsLexeme ts v → ¬ v <+: l.remaining) ∧ ∃ u, FaultText ts 1 l.remaining u ∧
      l.gathered.step.1 = .error ⟨.unexpected u, l.position⟩ := by
  obtain ⟨n, k, ended, hs, hends, ⟨rfl, hstep⟩ | ⟨hk, t, ht, hstep⟩⟩ := l.exists_step_gathered
  · obtain ⟨u, hu, hfault⟩ := hs.faultText h hends hne l
    refine .inr ⟨fun v hv hbegins => ?_, u, hu, by rw [hstep, hfault]⟩
    have := hs.length_le_of_isLexeme h hends hv hbegins
    exact hv.1 (List.length_eq_zero_iff.1 (Nat.le_zero.1 this))
  · exact .inl ⟨t, _, hs.longestLexeme h hends hk, Lexicon.firstMatch_of_classify? h ht, by rw [hstep]⟩

end Lexer

/-! ## maximal munch -/

/-- How a lexer goes on at a place before the end, where `rest` stands ahead. -/
structure MunchesAt (ts : List Terminal) (rest : List Char) (l : Lexer) : Prop where
  /-- If a lexeme stands ahead, the longest is taken for the first terminal that matches it; the next
  token is made of it, unless the terminal is skipped. -/
  taken : (∃ v, IsLexeme ts v ∧ v <+: rest) → ∃ t u l', LongestLexeme ts rest u ∧ FirstMatch ts u t ∧
    l.step = (.ok (some (t, u)), l') ∧ l'.position = l.position.after u ∧
      l.next = if t.skip then l'.next else (.ok ⟨t.name, String.ofList u, l.position⟩, l')
  /-- If none does, the next token cannot be had, and the failure shows what had to be seen. -/
  fault : (∀ v, IsLexeme ts v → ¬ v <+: rest) → ∃ u l', FaultText ts 1 rest u ∧
    l.next = (.error ⟨.unexpected u, l.position⟩, l')
  error_iff : (∃ e, l.step.1 = .error e) ↔ ∀ v, IsLexeme ts v → ¬ v <+: rest
  classified : ∀ u p, l.next.1 ≠ .error ⟨.unclassified u, p⟩

theorem Lexer.next_ne_unclassified (l : Lexer) (u : List Char) (p : Position) :
    l.next.1 ≠ .error ⟨.unclassified u, p⟩ := by
  intro h
  obtain ⟨m, -, ⟨e, hstep, herror⟩ | ⟨-, hend⟩ | ⟨t, lexeme, -, -, hend⟩⟩ := l.exists_skips
  · rw [h] at herror
    cases herror
    rcases fault_of_step_error (by rw [hstep]) with ⟨reason, h⟩ | ⟨u, h⟩ <;> cases h
  · rw [h] at hend
    cases hend
  · rw [h] at hend
    cases hend

theorem Lexer.munchesAt {l : Lexer} (h : Lexicon.ofTerminals ts = .ok l.lexicon)
    (hfailures : l.unread.failures = []) (hne : l.remaining ≠ []) : MunchesAt ts l.remaining l := by
  have houtcome := (step_of_failures hfailures).1
  have hcases := step_gathered_of_ne_nil h hne
  rw [← houtcome] at hcases
  constructor
  case taken =>
    rintro ⟨v, hv, hbegins⟩
    obtain ⟨t, u, hu, ht, hstep⟩ := hcases.resolve_right fun hno => hno.1 v hv hbegins
    have hstep' : l.step = (.ok (some (t, u)), l.step.2) := Prod.ext hstep rfl
    refine ⟨t, u, l.step.2, hu, ht, hstep', (takes_of_step hstep').position, ?_⟩
    split
    · next hskip => exact next_of_skip hstep' hskip
    · next hskip => exact next_of_token hstep' (Bool.eq_false_iff.2 hskip)
  case fault =>
    intro hnone
    obtain ⟨-, u, hu, hstep⟩ := hcases.resolve_left fun ⟨t, u, hu, _⟩ => hnone u hu.isLexeme hu.begins
    exact ⟨u, l.step.2, hu, next_of_error (Prod.ext hstep rfl)⟩
  case error_iff =>
    constructor
    · rintro ⟨e, he⟩
      exact (hcases.resolve_left fun ⟨t, u, _, _, hstep⟩ => by simp [he] at hstep).1
    · intro hnone
      obtain ⟨-, u, -, hstep⟩ :=
        hcases.resolve_left fun ⟨t, u, hu, _⟩ => hnone u hu.isLexeme hu.begins
      exact ⟨_, hstep⟩
  case classified => exact l.next_ne_unclassified

/-- At every place that it comes to before the end of a text, a lexer takes the longest lexeme for the
first terminal that matches it, and fails if there is none. -/
theorem munchesAt_of_reaches (h : Lexicon.ofTerminals ts = .ok lexicon) (s : String) {l : Lexer}
    (hl : (Lexer.start lexicon (.ofString s)).Reaches l) (hend : l.position.offset < s.length) :
    MunchesAt ts (s.toList.drop l.position.offset) l := by
  have hstands := hl.stands (Lexer.Stands.start lexicon (.ofString s))
  rw [Source.ofString, Source.text_map_char] at hstands
  have hlexicon : l.lexicon = lexicon := hl.lexicon
  have hne : l.remaining ≠ [] := by
    rw [hstands.remaining_eq, ← List.length_pos_iff, List.length_drop, String.length_toList]
    omega
  rw [← hstands.remaining_eq]
  exact Lexer.munchesAt (hlexicon ▸ h) (hl.failures (Source.failures_map_char _)) hne

/-- A dot after a number could begin a fraction.  If none follows, the lexer goes back to the number and
stands before the dot. -/
theorem munchesAt_decimal : ∃ lexicon, Lexicon.ofTerminals decimalTerminals = .ok lexicon ∧
    (Lexer.start lexicon (.ofString "1.x")).step.2.position.offset = 1 ∧
      MunchesAt decimalTerminals ['.', 'x'] (Lexer.start lexicon (.ofString "1.x")).step.2 := by
  have heval : (Lexicon.ofTerminals decimalTerminals).toOption.map (fun lexicon =>
      (Lexer.start lexicon (.ofString "1.x")).step.2.position.offset) = some 1 := by
    with_unfolding_all decide
  obtain ⟨lexicon, h, hoffset⟩ := exists_ok_of_map_toOption heval
  have hmunches := munchesAt_of_reaches h "1.x" (Lexer.Reaches.refl.step) (by rw [hoffset]; decide)
  rw [hoffset] at hmunches
  exact ⟨lexicon, h, hoffset, hmunches⟩

/-- A terminal that matches nothing. -/
def voidTerminal : Terminal := ⟨"A", "[^\\s\\S]", false⟩

theorem not_beginsMatch_void (u : List Char) : ¬ BeginsMatch [voidTerminal] u := by
  have hread : (Pattern.ofString voidTerminal.pattern).toOption =
      some (.chars ⟨true, [.space true, .space false]⟩) := by with_unfolding_all decide
  rintro ⟨t, ht, v, p, hp, hmatch⟩
  obtain rfl := List.mem_singleton.1 ht
  rw [hp] at hread
  obtain rfl := Option.some.inj hread
  obtain ⟨c, hc, -⟩ := Pattern.matches_chars_iff.1 hmatch
  cases hspace : Text.isWhiteSpace c <;>
    simp [Pattern.CharClass.contains, Pattern.ClassItem.contains, hspace] at hc

/-- Where no terminal matches anything, already the empty text is the beginning of no match; yet a
failure shows a character. -/
theorem unexpected_of_void : ∃ lexicon, Lexicon.ofTerminals [voidTerminal] = .ok lexicon ∧
    (Lexer.start lexicon (.ofString "x")).next.1 = .error ⟨.unexpected ['x'], .start⟩ ∧
      ¬ FaultText [voidTerminal] 0 ['x'] ['x'] := by
  have heval : (Lexicon.ofTerminals [voidTerminal]).toOption.map (fun _ => ()) = some () := by
    with_unfolding_all decide
  obtain ⟨lexicon, h, -⟩ := exists_ok_of_map_toOption heval
  have hremaining : (Lexer.start lexicon (.ofString "x")).remaining = ['x'] :=
    Source.text_map_char "x".toList
  have hmunches : MunchesAt [voidTerminal] ['x'] (.start lexicon (.ofString "x")) :=
    hremaining ▸ Lexer.munchesAt h (Source.failures_map_char _) (by simp [hremaining])
  have hstuck (least : Nat) (u : List Char) (hle : least ≤ u.length) (hu : u <+: ['x']) :
      Stuck [voidTerminal] least ['x'] u := ⟨hle, hu, not_beginsMatch_void u⟩
  obtain ⟨u, l', hfault, hnext⟩ :=
    hmunches.fault fun v hv _ => not_beginsMatch_void v hv.beginsMatch
  have hx := hstuck 1 ['x'] (Nat.le_refl _) (List.prefix_refl _)
  obtain rfl : u = ['x'] := by
    rcases hfault with ⟨hu, hshortest⟩ | ⟨hu, -⟩
    · exact hu.begins.eq_of_length (Nat.le_antisymm hu.begins.length_le hu.least_le)
    · exact hu
  have hempty := hstuck 0 [] (Nat.le_refl _) List.nil_prefix
  refine ⟨lexicon, h, by rw [hnext]; rfl, ?_⟩
  rintro (⟨-, hshortest⟩ | ⟨-, hnone⟩)
  · exact absurd (hshortest [] hempty) (by decide)
  · exact hnone [] hempty

end Lalr
