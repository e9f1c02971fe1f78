import Lalr.Proofs.Lexer.Munch
import Lalr.Proofs.Lexer.Yield

/-!
# Lalr.Proofs.Lexer.Munched

Texts as the lexemes that maximal munch takes off them.  A lexer over such a text comes to its end, and
its tokens are the lexemes that are not skipped (`exists_yields_of_munched`).
-/

namespace Lalr

variable {ts : List Terminal} {t t' : Terminal} {text u v : List Char} {es : List (Terminal × List Char)}

/-- A text as lexemes, each the longest that stands ahead, with the first terminal that matches it. -/
inductive Munched (ts : List Terminal) : List Char → List (Terminal × List Char) → Prop
  | nil : Munched ts [] []
  | cons {t : Terminal} {u rest : List Char} {es : List (Terminal × List Char)}
    (hu : LongestLexeme ts (u ++ rest) u) (ht : FirstMatch ts u t) (hrest : Munched ts rest es) :
    Munched ts (u ++ rest) ((t, u) :: es)

/-- There is one longest lexeme. -/
theorem LongestLexeme.unique (h : LongestLexeme ts text u) (h' : LongestLexeme ts text v) : u = v := by
  have hlength : u.length = v.length :=
    Nat.le_antisymm (h'.longest u h.isLexeme h.begins) (h.longest v h'.isLexeme h'.begins)
  rw [List.prefix_iff_eq_take.1 h.begins, List.prefix_iff_eq_take.1 h'.begins, hlength]

/-- And one terminal that matches it first. -/
theorem FirstMatch.unique (h : FirstMatch ts u t) (h' : FirstMatch ts u t') : t = t' := by
  obtain ⟨before, after, rfl, ht, hbefore⟩ := h
  obtain ⟨before', after', heq, ht', hbefore'⟩ := h'
  rcases List.append_eq_append_iff.1 heq with ⟨mid, rfl, hmid⟩ | ⟨mid, rfl, hmid⟩
  · cases mid with
    | nil => exact (List.cons.inj hmid).1
    | cons s mid =>
        obtain rfl := (List.cons.inj hmid).1
        exact absurd ht (hbefore' t (by simp))
  · cases mid with
    | nil => exact (List.cons.inj hmid).1.symm
    | cons s mid =>
        obtain rfl := (List.cons.inj hmid).1
        exact absurd ht' (hbefore t' (by simp))

namespace Lexer

variable {l l' : Lexer} {tokens : List Token} {last : Except LexError Position}

theorem Yields.congr (h : l'.Yields tokens last) (hnext : l.next = l'.next) : l.Yields tokens last := by
  cases h with
  | ends h => exact .ends (hnext.trans h)
  | fails h => exact .fails (hnext.trans h)
  | token h hname hrest => exact .token (hnext.trans h) hname hrest

/-- Where nothing remains, a step finds the end. -/
theorem step_of_remaining_nil (h : l.remaining = []) (hfailures : l.unread.failures = []) :
    l.step.1 = .ok none := by
  rw [(step_of_failures hfailures).1]
  obtain ⟨n, k, ended, hscanned, hends, ⟨-, hstep⟩ | ⟨hk, -⟩⟩ := l.exists_step_gathered
  · rw [hstep, h, List.take_nil]
    cases ended with
    | blocked c =>
        rw [h] at hends
        exact absurd hends.1 (by simp)
    | finished => rfl
    | failed reason => cases hends
  · rw [h] at hscanned
    exact absurd List.take_nil (hscanned.take_ne_nil hk)

/-- What a lexer yields of a text that munches: the lexemes that are not skipped, and the end. -/
theorem exists_yields_of_munched (h : Lexicon.ofTerminals ts = .ok l.lexicon)
    (hnames : ∀ t ∈ ts, t.name ≠ endMarker) (hfailures : l.unread.failures = [])
    (hm : Munched ts l.remaining es) : ∃ tokens p, l.Yields tokens (.ok p) ∧
      tokens.map (fun t => (t.name, t.text)) =
        (es.filter (!·.1.skip)).map fun e => (e.1.name, String.ofList e.2) := by
  generalize hremaining : l.remaining = text at hm
  induction hm generalizing l with
  | nil =>
      have hstep : l.step = (.ok none, l.step.2) := Prod.ext (step_of_remaining_nil hremaining hfailures) rfl
      exact ⟨[], _, .ends (next_of_end hstep), rfl⟩
  | @cons t u rest es hu ht _ ih =>
      have hne : l.remaining ≠ [] := by
        rw [hremaining]
        exact fun hnil => hu.isLexeme.1 (List.append_eq_nil_iff.1 hnil).1
      have hmunches := Lexer.munchesAt h hfailures hne
      rw [hremaining] at hmunches
      obtain ⟨t', u', l', hu', ht', hstep, -, hnext⟩ := hmunches.taken ⟨u, hu.isLexeme, hu.begins⟩
      obtain rfl := hu.unique hu'
      obtain rfl := ht.unique ht'
      have htakes := takes_of_step hstep
      have hfailures' : l'.unread.failures = [] := by
        have hkept := (step_of_failures hfailures).2.2
        rwa [hstep] at hkept
      have hremaining' : l'.remaining = rest :=
        (List.append_cancel_left (hremaining.symm.trans htakes.remaining)).symm
      obtain ⟨tokens, p, hyields, htokens⟩ := ih (htakes.lexicon ▸ h) hfailures' hremaining'
      by_cases hskip : t.skip = true
      · rw [if_pos hskip] at hnext
        exact ⟨tokens, p, hyields.congr hnext, by simpa [hskip] using htokens⟩
      · rw [if_neg hskip] at hnext
        have hname : t.name ≠ endMarker := by
          obtain ⟨before, after, hts, -⟩ := ht
          exact hnames t (by simp [hts])
        exact ⟨_, p, .token hnext hname hyields, by simp [hskip, htokens]⟩

end Lexer

end Lalr
