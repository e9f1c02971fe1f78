import Lalr.Proofs.Lexer.Lexicon
import Lalr.Proofs.Lexer.Position
import Lalr.Proofs.Lexer.Scan

/-!
# Lalr.Proofs.Lexer.Gathered

What a lexer does depends on its place and on the text that remains.  `Lexer.gathered` is the lexer
with that text all pending and nothing left to read; it never meets a failure.  Every call of a
lexer gives what the same call of the gathered lexer gives, or else a failed read stops it at a
place from where the next call goes on to just that (`next_gathered`).
-/

namespace Lalr.Lexer

variable {l l' : Lexer} {k : Nat} {t : Terminal} {lexeme : List Char}

/-- The text that has not been consumed. -/
def remaining (l : Lexer) : List Char := l.pending ++ l.unread.text

/-- The lexer with all that remains read ahead. -/
def gathered (l : Lexer) : Lexer := { l with pending := l.remaining, unread := [] }

theorem gathered_eq_iff : l'.gathered = l.gathered ↔
    l'.lexicon = l.lexicon ∧ l'.position = l.position ∧ l'.remaining = l.remaining := by
  simp [gathered]

/-- The gathered lexer that has taken some characters off its text. -/
def past (l : Lexer) (k : Nat) : Lexer :=
  { l with
    position := l.position.after (l.remaining.take k)
    pending := l.remaining.drop k
    unread := [] }

/-! ## steps -/

theorem ofScan_failed {s : Scan} {reason : String} (h : s.ended = .failed reason) :
    l.ofScan s = (.error ⟨.unreadable reason, l.position⟩, l.retain s) := by
  rw [ofScan, h]

theorem ofScan_of_ne_failed {s : Scan} (h : ∀ reason, s.ended ≠ .failed reason) :
    l.ofScan s = if s.longest = 0 then (l.withoutMatch s.text s.ended, l.retain s)
      else (l.withMatch (s.pending.take s.longest), l.consume s) := by
  rw [ofScan]
  split
  · next reason hfailed => exact absurd hfailed (h reason)
  · rfl

/-- What a scan of the gathered lexer finds. -/
theorem exists_scanned_gathered (l : Lexer) : ∃ n,
    l.gathered.scanHere.text = l.remaining.take n ∧ l.gathered.scanHere.pending = l.remaining ∧
      l.gathered.scanHere.unread = [] ∧
      Scanned l.lexicon.start l.remaining n l.gathered.scanHere.longest ∧
      EndsAt l.lexicon.start l.remaining n l.gathered.scanHere.ended := by
  have htext : l.remaining = ([] : List Char).reverse ++ l.remaining := rfl
  exact scan_text htext rfl rfl (.initial _ _)

theorem withMatch_of_classify? {u : List Char} (h : l.lexicon.classify? u = some t) :
    l.withMatch u = .ok (some (t, u)) := by
  rw [withMatch, h]

/-- What a step of the gathered lexer does.  If the scan has found a match, some terminal has that
match. -/
theorem exists_step_gathered (l : Lexer) : ∃ n k ended,
    Scanned l.lexicon.start l.remaining n k ∧ EndsAt l.lexicon.start l.remaining n ended ∧
      (k = 0 ∧ l.gathered.step = (l.withoutMatch (l.remaining.take n) ended, l.gathered) ∨
        k ≠ 0 ∧ ∃ t, l.lexicon.classify? (l.remaining.take k) = some t ∧
          l.gathered.step = (.ok (some (t, l.remaining.take k)), l.past k)) := by
  obtain ⟨n, htext, hpending, hunread, hscanned, hends⟩ := l.exists_scanned_gathered
  refine ⟨n, _, _, hscanned, hends, ?_⟩
  rw [step, ofScan_of_ne_failed hends.ne_failed, htext, retain, consume, hpending, hunread]
  split
  · next hk => exact .inl ⟨hk, rfl⟩
  · next hk =>
      have hentry := (Lexicon.accepts_start_iff (hscanned.take_ne_nil hk)).1 (hscanned.accepts hk)
      obtain ⟨t, ht⟩ := Lexicon.exists_classify? hentry
      rw [withMatch_of_classify? (l := l.gathered) ht]
      exact .inr ⟨hk, t, ht, rfl⟩

/-- A step that no failed read stops is one of the gathered lexer, and one that a failed read stops
leaves the text as it was. -/
theorem step_gathered (l : Lexer) :
    (∃ reason, l.step.1 = .error ⟨.unreadable reason, l.position⟩ ∧
      l.step.2.gathered = l.gathered ∧ l.unread.failures = reason :: l.step.2.unread.failures) ∨
    l.step.1 = l.gathered.step.1 ∧ l.step.2.gathered = l.gathered.step.2 ∧
      l.step.2.unread.failures = l.unread.failures := by
  have hkept : l.scanHere.pending ++ l.scanHere.unread.text = l.remaining :=
    scan_conserves l.lexicon.start [] 0 0 l.pending l.unread
  have hanswers : l.scanHere.Answers l.gathered.scanHere l.unread :=
    scan_gathered l.lexicon.start [] 0 0 l.pending l.unread
  have hretain : (l.retain l.scanHere).gathered = l.gathered := gathered_eq_iff.2 ⟨rfl, rfl, hkept⟩
  rcases hanswers with ⟨reason, hended, hfailures⟩ | ⟨htext, hlongest, hended, hfailures⟩
  · rw [step, ofScan_failed hended]
    exact .inl ⟨reason, rfl, hretain, hfailures⟩
  · obtain ⟨n, -, hpending, hunread, -, hends⟩ := l.exists_scanned_gathered
    have hle : l.scanHere.longest ≤ l.scanHere.pending.length :=
      scan_longest_le l.lexicon.start [] 0 0 l.pending l.unread rfl (Nat.le_refl _)
    have htake : l.remaining.take l.scanHere.longest = l.scanHere.pending.take l.scanHere.longest := by
      rw [← hkept, List.take_append_of_le_length hle]
    have hdrop : l.remaining.drop l.scanHere.longest =
        l.scanHere.pending.drop l.scanHere.longest ++ l.scanHere.unread.text := by
      rw [← hkept, List.drop_append_of_le_length hle]
    rw [step, step, ofScan_of_ne_failed (hended ▸ hends.ne_failed), ofScan_of_ne_failed hends.ne_failed,
      ← hlongest, ← htext, ← hended, hpending, htake]
    refine .inr ?_
    split
    · refine ⟨rfl, ?_, hfailures⟩
      rw [hretain, retain, hpending, hunread]
      rfl
    · refine ⟨rfl, ?_, hfailures⟩
      rw [consume, consume, hpending, hunread, ← hlongest, htake, hdrop]
      rfl

/-- A lexeme is taken off the front of the text. -/
structure Takes (l : Lexer) (t : Terminal) (lexeme : List Char) (l' : Lexer) : Prop where
  ne_nil : lexeme ≠ []
  classified : l.lexicon.classify? lexeme = some t
  remaining : l.remaining = lexeme ++ l'.remaining
  position : l'.position = l.position.after lexeme
  lexicon : l'.lexicon = l.lexicon

theorem takes_of_step (h : l.step = (.ok (some (t, lexeme)), l')) : l.Takes t lexeme l' := by
  have hcases := l.step_gathered
  rw [h] at hcases
  rcases hcases with ⟨reason, herror, -⟩ | ⟨houtcome, hgathered, -⟩
  · cases herror
  · obtain ⟨n, k, ended, hscanned, -, ⟨-, hstep⟩ | ⟨hk, t', ht', hstep⟩⟩ := l.exists_step_gathered
    · rw [hstep] at houtcome
      exact absurd houtcome.symm (l.withoutMatch_ne_some _ _ _)
    · rw [hstep] at houtcome hgathered
      cases houtcome
      obtain ⟨hlexicon, hposition, hremaining⟩ : l'.lexicon = l.lexicon ∧
          l'.position = l.position.after (l.remaining.take k) ∧ l'.remaining = l.remaining.drop k := by
        simpa [Lexer.gathered, past] using hgathered
      have hrest : l.remaining = l.remaining.take k ++ l'.remaining := by
        rw [hremaining, List.take_append_drop]
      exact ⟨hscanned.take_ne_nil hk, ht', hrest, hposition, hlexicon⟩

/-- A step that gives no lexeme changes neither the place nor the text. -/
theorem gathered_of_step (h : ∀ e, l.step.1 ≠ .ok (some e)) : l.step.2.gathered = l.gathered := by
  rcases l.step_gathered with ⟨reason, -, hgathered, -⟩ | ⟨houtcome, hgathered, -⟩
  · exact hgathered
  · obtain ⟨n, k, ended, -, -, ⟨-, hstep⟩ | ⟨-, t, -, hstep⟩⟩ := l.exists_step_gathered
    · rw [hgathered, hstep]
    · rw [hstep] at houtcome
      exact absurd houtcome (h _)

/-! ## calls -/

theorem next_of_error {e : LexError} (h : l.step = (.error e, l')) : l.next = (.error e, l') := by
  rw [next]
  split <;> simp_all

theorem next_of_end (h : l.step = (.ok none, l')) : l.next = (.ok (.ending l.position), l') := by
  rw [next]
  split <;> simp_all

theorem next_of_skip (h : l.step = (.ok (some (t, lexeme)), l')) (hskip : t.skip = true) :
    l.next = l'.next := by
  rw [next]
  split <;> simp_all

theorem next_of_token (h : l.step = (.ok (some (t, lexeme)), l')) (hskip : t.skip = false) :
    l.next = (.ok ⟨t.name, String.ofList lexeme, l.position⟩, l') := by
  rw [next]
  split <;> simp_all

/-- A call that no failed read stops is one of the gathered lexer.  One that a failed read stops leaves a
lexer whose next call is, but for further failures, the call that was stopped. -/
theorem next_gathered (l : Lexer) :
    (∃ reason, l.next.1 = .error ⟨.unreadable reason, l.next.2.position⟩ ∧
      l.next.2.gathered.next = l.gathered.next ∧
      l.unread.failures = reason :: l.next.2.unread.failures) ∨
    l.next.1 = l.gathered.next.1 ∧ l.next.2.gathered = l.gathered.next.2 ∧
      l.next.2.unread.failures = l.unread.failures := by
  obtain ⟨outcome, l', hstep⟩ : ∃ outcome l', l.step = (outcome, l') := ⟨_, _, rfl⟩
  have hcases := l.step_gathered
  rw [hstep] at hcases
  rcases hcases with ⟨reason, rfl, hgathered, hfailures⟩ | ⟨houtcome, hgathered, hfailures⟩
  · have hposition : l'.position = l.position := (gathered_eq_iff.1 hgathered).2.1
    rw [next_of_error hstep]
    exact .inl ⟨reason, by rw [hposition], by rw [hgathered], hfailures⟩
  · have hwhole : l.gathered.step = (outcome, l'.gathered) :=
      Prod.ext houtcome.symm hgathered.symm
    match outcome with
    | .error e =>
        rw [next_of_error hstep, next_of_error hwhole]
        exact .inr ⟨rfl, rfl, hfailures⟩
    | .ok none =>
        rw [next_of_end hstep, next_of_end hwhole]
        exact .inr ⟨rfl, rfl, hfailures⟩
    | .ok (some (t, lexeme)) =>
        cases hskip : t.skip with
        | true =>
            rw [next_of_skip hstep hskip, next_of_skip hwhole hskip, ← hfailures]
            exact next_gathered l'
        | false =>
            rw [next_of_token hstep hskip, next_of_token hwhole hskip]
            exact .inr ⟨rfl, rfl, hfailures⟩
termination_by l.size
decreasing_by exact size_step_lt hstep

/-- Passing over skipped lexemes. -/
inductive Skips : Lexer → Lexer → Prop
  | refl (l : Lexer) : Skips l l
  | step {l l' m : Lexer} {t : Terminal} {lexeme : List Char}
    (h : l.step = (.ok (some (t, lexeme)), l')) (hskip : t.skip = true) (hrest : Skips l' m) :
    Skips l m

/-- All that a call can come to: after some skipped lexemes it fails, or it is at the end, or it returns
a lexeme. -/
theorem exists_skips (l : Lexer) : ∃ m, l.Skips m ∧
    ((∃ e, m.step = (.error e, l.next.2) ∧ l.next.1 = .error e) ∨
      (m.step = (.ok none, l.next.2) ∧ l.next.1 = .ok (.ending m.position)) ∨
      ∃ t lexeme, m.step = (.ok (some (t, lexeme)), l.next.2) ∧ t.skip = false ∧
        l.next.1 = .ok ⟨t.name, String.ofList lexeme, m.position⟩) := by
  obtain ⟨outcome, l', hstep⟩ : ∃ outcome l', l.step = (outcome, l') := ⟨_, _, rfl⟩
  match outcome with
  | .error e =>
      rw [next_of_error hstep]
      exact ⟨l, .refl l, .inl ⟨e, hstep, rfl⟩⟩
  | .ok none =>
      rw [next_of_end hstep]
      exact ⟨l, .refl l, .inr (.inl ⟨hstep, rfl⟩)⟩
  | .ok (some (t, lexeme)) =>
      cases hskip : t.skip with
      | true =>
          rw [next_of_skip hstep hskip]
          obtain ⟨m, hskips, hend⟩ := exists_skips l'
          exact ⟨m, .step hstep hskip hskips, hend⟩
      | false =>
          rw [next_of_token hstep hskip]
          exact ⟨l, .refl l, .inr (.inr ⟨t, lexeme, hstep, hskip, rfl⟩)⟩
termination_by l.size
decreasing_by exact size_step_lt hstep

end Lalr.Lexer
