import Lalr.Proofs.Lexer.Conservation

/-!
# Lalr.Proofs.Lexer.Yield

What a lexer yields in all: tokens, and then the end or an error.  `Yields` follows the calls one after
the other, so that whoever asks for the tokens one by one can be compared with the list of them
(`Yields.tokens_eq`).
-/

namespace Lalr.Lexer

variable {l l' : Lexer} {t : Token} {ts : List Token} {last : Except LexError Position}

/-- The tokens that a lexer yields one call after the other, and what the call after them comes to: the
place of the end, or an error. -/
inductive Yields : Lexer → List Token → Except LexError Position → Prop
  | ends {l l' : Lexer} {p : Position} (h : l.next = (.ok (.ending p), l')) : Yields l [] (.ok p)
  | fails {l l' : Lexer} {e : LexError} (h : l.next = (.error e, l')) : Yields l [] (.error e)
  | token {l l' : Lexer} {t : Token} {ts : List Token} {last : Except LexError Position}
    (h : l.next = (.ok t, l')) (hname : t.name ≠ endMarker) (hrest : Yields l' ts last) :
    Yields l (t :: ts) last

theorem length_remaining_le (l : Lexer) : l.remaining.length ≤ l.size := by
  rw [remaining, List.length_append]
  exact Nat.add_le_add_left l.unread.length_text_le _

namespace Yields

/-- Every token takes something off the text. -/
theorem length_le (h : l.Yields ts last) : ts.length ≤ l.remaining.length := by
  induction h with
  | ends | fails => exact Nat.zero_le _
  | token h hname _ ih => exact Nat.lt_of_le_of_lt ih (length_remaining_lt h hname)

theorem ne_end (h : l.Yields ts last) : ∀ t ∈ ts, t.name ≠ endMarker := by
  induction h with
  | ends | fails => exact fun _ ht => absurd ht List.not_mem_nil
  | token _ hname _ ih => exact List.forall_mem_cons.2 ⟨hname, ih⟩

theorem tokensFrom_eq (h : l.Yields ts last) {fuel : Nat} (hfuel : ts.length < fuel) :
    tokensFrom fuel l = ts.map .ok ++ [last.map .ending] := by
  induction h generalizing fuel with
  | ends h =>
      obtain ⟨fuel, rfl⟩ := Nat.exists_eq_add_one_of_ne_zero (Nat.ne_of_gt hfuel)
      rw [tokensFrom, h]
      exact if_pos rfl
  | fails h =>
      obtain ⟨fuel, rfl⟩ := Nat.exists_eq_add_one_of_ne_zero (Nat.ne_of_gt hfuel)
      rw [tokensFrom, h]
      rfl
  | token h hname _ ih =>
      obtain ⟨fuel, rfl⟩ := Nat.exists_eq_add_one_of_ne_zero (Nat.ne_zero_of_lt hfuel)
      rw [tokensFrom, h]
      simp only [hname, if_false, ih (Nat.lt_of_succ_lt_succ hfuel)]
      rfl

/-- All tokens of a lexer are the tokens that it yields, and the end or the error behind them. -/
theorem tokens_eq (h : l.Yields ts last) : l.tokens = ts.map .ok ++ [last.map .ending] :=
  h.tokensFrom_eq (Nat.lt_succ_of_le (Nat.le_trans h.length_le (length_remaining_le l)))

end Yields

/-- A token ends the stream, or has the name of a terminal that is not skipped. -/
theorem name_of_next (h : l.next = (.ok t, l')) : (∃ p, t = .ending p) ∨
    ∃ e ∈ l.lexicon.entries, e.1.skip = false ∧ e.1.name = t.name := by
  obtain ⟨m, hskips, ⟨e, -, hnext⟩ | ⟨-, hnext⟩ | ⟨terminal, lexeme, hstep, hskip, hnext⟩⟩ :=
    l.exists_skips
  · rw [h] at hnext
    cases hnext
  · rw [h] at hnext
    exact .inl ⟨_, Except.ok.inj hnext⟩
  · rw [h] at hnext
    obtain rfl := Except.ok.inj hnext
    obtain ⟨before, p, after, hentries, -⟩ :=
      Lexicon.classify?_eq_some_iff.1 (takes_of_step hstep).classified
    rw [hskips.reaches.lexicon] at hentries
    exact .inr ⟨(terminal, p), by simp [hentries], hskip, rfl⟩

/-- A lexer none of whose terminals is named like the end yields some tokens and then an end or an
error. -/
theorem exists_yields (l : Lexer) (hl : ∀ e ∈ l.lexicon.entries, e.1.name ≠ endMarker) :
    ∃ ts last, l.Yields ts last ∧
      ∀ t ∈ ts, ∃ e ∈ l.lexicon.entries, e.1.skip = false ∧ e.1.name = t.name := by
  induction hn : l.remaining.length using Nat.strongRecOn generalizing l with
  | ind n ih =>
      obtain ⟨outcome, l', hnext⟩ : ∃ outcome l', l.next = (outcome, l') := ⟨_, _, rfl⟩
      cases outcome with
      | error e => exact ⟨[], _, .fails hnext, by simp⟩
      | ok t =>
          rcases name_of_next hnext with ⟨p, rfl⟩ | ⟨e, he, hskip, hname⟩
          · exact ⟨[], _, .ends hnext, by simp⟩
          · have hend : t.name ≠ endMarker := hname ▸ hl e he
            have hlexicon : l'.lexicon = l.lexicon := by
              rw [← l.reaches_next.lexicon, hnext]
            have hlt : l'.remaining.length < n := hn ▸ length_remaining_lt hnext hend
            obtain ⟨ts, last, hrest, hnames⟩ := ih _ hlt l' (hlexicon ▸ hl) rfl
            exact ⟨t :: ts, last, .token hnext hend hrest,
              List.forall_mem_cons.2 ⟨⟨e, he, hskip, hname⟩, hlexicon ▸ hnames⟩⟩

end Lalr.Lexer
