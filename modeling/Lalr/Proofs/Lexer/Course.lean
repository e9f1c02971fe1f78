import Lalr.Proofs.Lexer.Gathered

/-!
# Lalr.Proofs.Lexer.Course

How a lexer goes through its source.  Every step leaves it standing in the same text (`Stands`), and
a step that fails for another reason than a read, or finds the end, is repeated by every later call
without any reading (`next_of_next_error`, `next_of_next_end`).  `after n l` is the lexer after `n`
calls.
-/

namespace Lalr.Lexer

variable {l l' m : Lexer} {n : Nat} {t : Terminal} {input lexeme u : List Char} {e : LexError}

/-! ## where a lexer stands -/

/-- A lexer stands in a text if what lies before its place and what remains make up the text. -/
def Stands (input : List Char) (l : Lexer) : Prop :=
  ∃ before, before ++ l.remaining = input ∧ l.position = .of before

namespace Stands

theorem start (lexicon : Lexicon) (source : Source) : Stands source.text (.start lexicon source) :=
  ⟨[], rfl, rfl⟩

theorem congr (h : Stands input l) (hl : l'.gathered = l.gathered) : Stands input l' := by
  obtain ⟨-, hposition, hremaining⟩ := gathered_eq_iff.1 hl
  rwa [Stands, hposition, hremaining]

theorem takes (h : Stands input l) (hl : l.Takes t lexeme l') : Stands input l' := by
  obtain ⟨before, rfl, hposition⟩ := h
  refine ⟨before ++ lexeme, by rw [hl.remaining, List.append_assoc], ?_⟩
  rw [hl.position, hposition, Position.after_of]

theorem step (h : Stands input l) : Stands input l.step.2 := by
  by_cases hlexeme : ∃ e, l.step.1 = .ok (some e)
  · obtain ⟨⟨t, lexeme⟩, hstep⟩ := hlexeme
    exact h.takes (takes_of_step (Prod.ext hstep rfl))
  · exact h.congr (gathered_of_step fun e he => hlexeme ⟨e, he⟩)

theorem remaining_eq (h : Stands input l) : l.remaining = input.drop l.position.offset := by
  obtain ⟨before, rfl, hposition⟩ := h
  simp [hposition]

theorem position_eq (h : Stands input l) : l.position = .of (input.take l.position.offset) := by
  obtain ⟨before, rfl, hposition⟩ := h
  rw [hposition, Position.offset_of, List.take_left]

/-- Before the place, pending and still to be read: that is the whole text. -/
theorem take_append (h : Stands input l) :
    input.take l.position.offset ++ (l.pending ++ l.unread.text) = input := by
  rw [← remaining, h.remaining_eq, List.take_append_drop]

end Stands

theorem lexicon_step (l : Lexer) : l.step.2.lexicon = l.lexicon := by
  unfold step ofScan
  split
  · rfl
  · split <;> rfl

/-- Without failures in the source, steps and calls are those of the gathered lexer. -/
theorem step_of_failures (h : l.unread.failures = []) :
    l.step.1 = l.gathered.step.1 ∧ l.step.2.gathered = l.gathered.step.2 ∧
      l.step.2.unread.failures = [] := by
  rcases l.step_gathered with ⟨reason, -, -, hfailures⟩ | ⟨houtcome, hgathered, hfailures⟩
  · rw [h] at hfailures
    cases hfailures
  · exact ⟨houtcome, hgathered, hfailures.trans h⟩

theorem next_of_failures (h : l.unread.failures = []) :
    l.next.1 = l.gathered.next.1 ∧ l.next.2.gathered = l.gathered.next.2 ∧
      l.next.2.unread.failures = [] := by
  rcases l.next_gathered with ⟨reason, -, -, hfailures⟩ | ⟨houtcome, hgathered, hfailures⟩
  · rw [h] at hfailures
    cases hfailures
  · exact ⟨houtcome, hgathered, hfailures.trans h⟩

/-- The lexers that a lexer comes to by steps, whatever they give. -/
inductive Reaches (l : Lexer) : Lexer → Prop
  | refl : Reaches l l
  | step {m : Lexer} (h : Reaches l m) : Reaches l m.step.2

namespace Reaches

theorem trans (h : l.Reaches m) (h' : m.Reaches l') : l.Reaches l' := by
  induction h' with
  | refl => exact h
  | step _ ih => exact ih.step

theorem stands (h : l.Reaches m) (hl : Stands input l) : Stands input m := by
  induction h with
  | refl => exact hl
  | step _ ih => exact ih.step

theorem lexicon (h : l.Reaches m) : m.lexicon = l.lexicon := by
  induction h with
  | refl => rfl
  | step _ ih => exact (lexicon_step _).trans ih

/-- A lexer whose source has no failures comes to none that has. -/
theorem failures (h : l.Reaches m) (hl : l.unread.failures = []) : m.unread.failures = [] := by
  induction h with
  | refl => exact hl
  | step _ ih => exact (step_of_failures ih).2.2

end Reaches

theorem reaches_step (h : l.step.2 = l') : l.Reaches l' := h ▸ .step .refl

theorem Skips.reaches (h : l.Skips m) : l.Reaches m := by
  induction h with
  | refl => exact .refl
  | step hstep _ _ ih => exact (reaches_step (by rw [hstep])).trans ih

/-- A call is some steps. -/
theorem reaches_next (l : Lexer) : l.Reaches l.next.2 := by
  obtain ⟨m, hskips, hend⟩ := l.exists_skips
  refine hskips.reaches.trans (reaches_step ?_)
  rcases hend with ⟨e, h, -⟩ | ⟨h, -⟩ | ⟨t, lexeme, h, -⟩ <;> rw [h]

/-! ## calls one after the other -/

/-- The lexer after some calls. -/
def after : Nat → Lexer → Lexer
  | 0, l => l
  | n + 1, l => after n l.next.2

theorem after_add (n k : Nat) (l : Lexer) : after (n + k) l = after k (after n l) := by
  induction n generalizing l with
  | zero => rw [Nat.zero_add, after]
  | succ n ih => rw [Nat.succ_add, after, after, ih]

theorem after_succ (n : Nat) (l : Lexer) : after (n + 1) l = (after n l).next.2 := after_add n 1 l

theorem reaches_after (n : Nat) (l : Lexer) : l.Reaches (after n l) := by
  induction n with
  | zero => exact .refl
  | succ n ih => exact after_succ n l ▸ ih.trans (reaches_next _)

theorem calls_cons (n : Nat) (l : Lexer) :
    calls (n + 1) l = (l.next.1, l.next.2.position) :: calls n l.next.2 := rfl

/-- One more call adds its outcome. -/
theorem calls_succ (n : Nat) (l : Lexer) : calls (n + 1) l =
    calls n l ++ [((after n l).next.1, (after (n + 1) l).position)] := by
  induction n generalizing l with
  | zero => rfl
  | succ n ih => exact congrArg ((l.next.1, l.next.2.position) :: ·) (ih l.next.2)

@[simp] theorem length_calls (n : Nat) (l : Lexer) : (calls n l).length = n := by
  induction n generalizing l with
  | zero => rfl
  | succ n ih => rw [calls_cons, List.length_cons, ih]

/-- More calls begin with the same outcomes. -/
theorem calls_prefix (n k : Nat) (l : Lexer) : calls n l <+: calls (n + k) l := by
  induction k with
  | zero => exact List.prefix_refl _
  | succ k ih => exact ih.trans (calls_succ (n + k) l ▸ List.prefix_append _ _)

/-- What leaves the lexer as it was is what every later call comes to. -/
theorem next_after_of_next {o : Except LexError Token} (h : l.next = (o, l)) (n : Nat) :
    (after n l).next = (o, l) := by
  induction n with
  | zero => exact h
  | succ n ih => rwa [after, h]

/-! ## what is repeated -/

/-- Where no read fails, a step fails because no lexeme stands ahead. -/
theorem fault_of_step_gathered (h : l.gathered.step.1 = .error e) : ∃ u, e.fault = .unexpected u := by
  obtain ⟨n, k, ended, hs, hends, ⟨-, hstep⟩ | ⟨-, t, -, hstep⟩⟩ := l.exists_step_gathered
  · rw [hstep] at h
    cases ended with
    | blocked c =>
        cases h
        exact ⟨_, rfl⟩
    | finished =>
        simp only [withoutMatch] at h
        split at h <;> cases h
        exact ⟨_, rfl⟩
    | failed reason => cases hends
  · rw [hstep] at h
    cases h

/-- A step fails because of a read or because no lexeme stands ahead. -/
theorem fault_of_step_error (h : l.step.1 = .error e) :
    (∃ reason, e.fault = .unreadable reason) ∨ ∃ u, e.fault = .unexpected u := by
  rcases l.step_gathered with ⟨reason, hfailed, -⟩ | ⟨houtcome, -⟩
  · rw [h] at hfailed
    cases hfailed
    exact .inl ⟨reason, rfl⟩
  · exact .inr (fault_of_step_gathered (houtcome.symm.trans h))

/-- A step finds the end only where nothing remains. -/
theorem remaining_of_step_end (h : l.step.1 = .ok none) : l.remaining = [] := by
  rcases l.step_gathered with ⟨reason, hfailed, -⟩ | ⟨houtcome, -⟩
  · rw [h] at hfailed
    cases hfailed
  · obtain ⟨n, k, ended, hs, hends, ⟨-, hstep⟩ | ⟨-, t, -, hstep⟩⟩ := l.exists_step_gathered
    · rw [h, hstep] at houtcome
      cases ended with
      | blocked c => cases houtcome
      | finished =>
          obtain rfl : n = l.remaining.length := hends
          by_contra hne
          simp [withoutMatch, List.isEmpty_iff, hne] at houtcome
      | failed reason => cases hends
    · rw [h, hstep] at houtcome
      cases houtcome

/-- A step without a lexeme that no failed read stopped comes to the same again. -/
theorem step_step (hlexeme : ∀ e, l.step.1 ≠ .ok (some e))
    (hread : ∀ e, l.step.1 = .error e → ∀ reason, e.fault ≠ .unreadable reason) :
    l.step.2.step = l.step := by
  have hended (reason : String) : l.scanHere.ended ≠ .failed reason := by
    intro hfailed
    refine hread ⟨.unreadable reason, l.position⟩ ?_ reason rfl
    rw [step, ofScan_failed hfailed]
  have hlongest : l.scanHere.longest = 0 := by
    by_contra hk
    have hstep : l.step.1 = l.withMatch (l.scanHere.pending.take l.scanHere.longest) := by
      rw [step, ofScan_of_ne_failed hended, if_neg hk]
    rw [withMatch] at hstep
    split at hstep
    · rcases fault_of_step_error hstep with ⟨reason, h⟩ | ⟨u, h⟩ <;> cases h
    · exact hlexeme _ hstep
  have hstep : l.step = (l.withoutMatch l.scanHere.text l.scanHere.ended, l.retain l.scanHere) := by
    rw [step, ofScan_of_ne_failed hended, if_pos hlongest]
  -- The second scan goes over what the first one has left pending.
  have hscan : (l.retain l.scanHere).scanHere = l.scanHere := by
    obtain ⟨rest, hpending, hscan⟩ := scan_again l.lexicon.start [] 0 0 l.pending l.unread hended
    obtain rfl : l.scanHere.pending = rest := hpending
    exact hscan
  rw [hstep, step, hscan, ofScan_of_ne_failed hended, if_pos hlongest]
  rfl

/-- After a failure that is not that of a read, every call fails in the same way and reads nothing. -/
theorem next_of_next_error (h : l.next = (.error e, l'))
    (he : ∀ reason, e.fault ≠ .unreadable reason) : l'.next = (.error e, l') := by
  obtain ⟨m, -, ⟨e', hstep, herror⟩ | ⟨-, hend⟩ | ⟨t, lexeme, -, -, hend⟩⟩ := l.exists_skips
  · rw [h] at hstep herror
    cases herror
    have hagain : m.step.2.step = m.step := step_step (by simp [hstep]) (by simpa [hstep] using he)
    rw [hstep] at hagain
    exact next_of_error hagain
  · rw [h] at hend
    cases hend
  · rw [h] at hend
    cases hend

/-- After the end, every call comes to the end again and reads nothing. -/
theorem next_of_next_end {p : Position} (h : l.next = (.ok (.ending p), l')) :
    l'.next = (.ok (.ending p), l') := by
  obtain ⟨m, -, ⟨e', -, hend⟩ | ⟨hstep, hend⟩ | ⟨t, lexeme, hstep, -, hend⟩⟩ := l.exists_skips
  · rw [h] at hend
    cases hend
  · rw [h] at hstep hend
    cases hend
    have hagain : m.step.2.step = m.step := step_step (by simp [hstep]) (by simp [hstep])
    have hposition : m.step.2.position = m.position :=
      (gathered_eq_iff.1 (gathered_of_step (by simp [hstep]))).2.1
    rw [hstep] at hagain hposition
    exact hposition ▸ next_of_end hagain
  · rw [h] at hend
    have hnil : String.ofList lexeme = "" := congrArg Token.text (Except.ok.inj hend).symm
    exact absurd (by simpa using hnil) (takes_of_step hstep).ne_nil

end Lalr.Lexer
