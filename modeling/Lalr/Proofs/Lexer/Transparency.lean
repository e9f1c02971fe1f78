import Lalr.Proofs.Lexer.Course

/-!
# Lalr.Proofs.Lexer.Transparency

A failed read is told once and changes nothing else.  A lexer whose source fails now and then gives,
but for these failures, just what it would give on the source without them (`transparent_start`).
While a failure stands between it and its next token, the lexer may have passed over some lexemes
already; so the two lexers need not stand at the same place, but their next calls agree (`Agrees`).
-/

namespace Lalr

/-- Why a read failed, if that is the outcome. -/
def readFailure? : Except LexError Token → Option String
  | .error ⟨.unreadable reason, _⟩ => some reason
  | _ => none

theorem readFailure?_eq_some_iff {o : Except LexError Token} {reason : String} :
    readFailure? o = some reason ↔ ∃ p, o = .error ⟨.unreadable reason, p⟩ := by
  constructor
  · intro h
    match o with
    | .error ⟨.unreadable _, p⟩ => exact ⟨p, by rw [Option.some.inj h]⟩
    | .error ⟨.unexpected _, _⟩ => cases h
    | .error ⟨.unclassified _, _⟩ => cases h
    | .ok _ => cases h
  · rintro ⟨p, rfl⟩
    rfl

namespace Lexer

variable {l c m : Lexer} {n : Nat}

/-- The outcomes of some calls, each with the place of the lexer after it, without the failed reads. -/
def answers (n : Nat) (l : Lexer) : List (Except LexError Token × Position) :=
  (calls n l).filter fun o => (readFailure? o.1).isNone

/-- The reasons of the failed reads among the outcomes of some calls. -/
def readFailures (n : Nat) (l : Lexer) : List String := (calls n l).filterMap (readFailure? ·.1)

theorem length_answers (n : Nat) (l : Lexer) : (answers n l).length + (readFailures n l).length = n := by
  have hsplit (os : List (Except LexError Token × Position)) :
      (os.filter fun o => (readFailure? o.1).isNone).length + (os.filterMap (readFailure? ·.1)).length =
        os.length := by
    induction os with
    | nil => rfl
    | cons o os ih => cases h : readFailure? o.1 <;> simp [h] <;> omega
  rw [answers, readFailures, hsplit, length_calls]

/-! ## one call -/

/-- Where reads do not fail, a call fails only because no lexeme stands ahead. -/
theorem readFailure?_next (h : l.unread.failures = []) : readFailure? l.next.1 = none := by
  obtain ⟨m, hskips, ⟨e, hstep, hnext⟩ | ⟨-, hnext⟩ | ⟨t, lexeme, -, -, hnext⟩⟩ := l.exists_skips
  · have houtcome := (step_of_failures (hskips.reaches.failures h)).1
    rw [hstep] at houtcome
    obtain ⟨u, hu⟩ := fault_of_step_gathered houtcome.symm
    obtain ⟨fault, p⟩ := e
    obtain rfl : fault = .unexpected u := hu
    rw [hnext]
    rfl
  · rw [hnext]
    rfl
  · rw [hnext]
    rfl

/-- Two lexers agree if, but for failures of the one, their next calls come to the same. -/
structure Agrees (l c : Lexer) : Prop where
  failures : c.unread.failures = []
  next : l.gathered.next = c.gathered.next

/-- A failed read keeps the agreement.  Every other call has the outcome of the lexer without failures,
and leaves both at the same place. -/
theorem Agrees.next_cases (h : Agrees l c) :
    (∃ reason, readFailure? l.next.1 = some reason ∧ Agrees l.next.2 c) ∨
      readFailure? l.next.1 = none ∧ l.next.1 = c.next.1 ∧ l.next.2.position = c.next.2.position ∧
        Agrees l.next.2 c.next.2 := by
  obtain ⟨hc, hcgathered, hcfailures⟩ := next_of_failures h.failures
  rcases l.next_gathered with ⟨reason, hfailed, hnext, -⟩ | ⟨houtcome, hgathered, -⟩
  · exact .inl ⟨reason, readFailure?_eq_some_iff.2 ⟨_, hfailed⟩, h.failures, hnext.trans h.next⟩
  · have hsame : l.next.1 = c.next.1 := by rw [houtcome, h.next, hc]
    have hplace : l.next.2.gathered = c.next.2.gathered := by rw [hgathered, h.next, hcgathered]
    have hagrees : Agrees l.next.2 c.next.2 := ⟨hcfailures, by rw [hplace]⟩
    exact .inr ⟨hsame ▸ readFailure?_next h.failures, hsame, (gathered_eq_iff.1 hplace).2.1, hagrees⟩

/-- A call reports the failure that it meets, and meets no more than one. -/
theorem failures_next (l : Lexer) :
    (readFailure? l.next.1).toList ++ l.next.2.unread.failures = l.unread.failures := by
  rcases l.next_gathered with ⟨reason, hfailed, -, hfailures⟩ | ⟨houtcome, -, hfailures⟩
  · rw [hfailed, hfailures]
    rfl
  · rw [houtcome, readFailure?_next (l := l.gathered) rfl, hfailures]
    rfl

/-! ## all calls -/

theorem Agrees.answers_eq (h : Agrees l c) (n : Nat) :
    answers n l = calls (answers n l).length c := by
  induction n generalizing l c with
  | zero => rfl
  | succ n ih =>
      rcases h.next_cases with ⟨reason, hfailed, hagrees⟩ | ⟨hanswer, hsame, hposition, hagrees⟩
      · have hanswers : Lexer.answers (n + 1) l = Lexer.answers n l.next.2 := by
          simp [Lexer.answers, calls_cons, hfailed]
        rw [hanswers]
        exact ih hagrees
      · have hanswers : Lexer.answers (n + 1) l =
            (c.next.1, c.next.2.position) :: Lexer.answers n l.next.2 := by
          simp [Lexer.answers, calls_cons, hanswer, ← hsame, hposition]
        rw [hanswers, List.length_cons, calls_cons, ← ih hagrees]

/-- The failures of the source are reported in order, and those that are not are still ahead. -/
theorem readFailures_append (n : Nat) (l : Lexer) :
    readFailures n l ++ (after n l).unread.failures = l.unread.failures := by
  induction n generalizing l with
  | zero => rfl
  | succ n ih =>
      have hcalls : readFailures (n + 1) l =
          (readFailure? l.next.1).toList ++ readFailures n l.next.2 := by
        cases h : readFailure? l.next.1 <;> simp [readFailures, calls_cons, h]
      rw [hcalls, after, List.append_assoc, ih, failures_next]

/-- Failures put off what is asked for by one call each. -/
theorem Agrees.calls_prefix (h : Agrees l c) (n : Nat) :
    calls n c <+: Lexer.answers (n + l.unread.failures.length) l := by
  have hlength := length_answers (n + l.unread.failures.length) l
  have hfailures := congrArg List.length (readFailures_append (n + l.unread.failures.length) l)
  rw [List.length_append] at hfailures
  obtain ⟨k, hk⟩ : ∃ k, (Lexer.answers (n + l.unread.failures.length) l).length = n + k :=
    ⟨_, (Nat.add_sub_of_le (by omega)).symm⟩
  rw [h.answers_eq, hk]
  exact Lexer.calls_prefix n k c

/-! ## places -/

/-- Wherever a lexer stands before a lexeme, the lexer without failures comes to stand as well. -/
theorem Reaches.exists_gathered_eq (h : l.Reaches m) (hc : c.unread.failures = [])
    (hl : c.gathered = l.gathered) : ∃ c', c.Reaches c' ∧ c'.gathered = m.gathered := by
  induction h with
  | refl => exact ⟨c, .refl, hl⟩
  | @step m _ ih =>
      obtain ⟨c', hreaches, hgathered⟩ := ih
      rcases m.step_gathered with ⟨reason, -, hkept, -⟩ | ⟨-, hstep, -⟩
      · exact ⟨c', hreaches, hgathered.trans hkept.symm⟩
      · refine ⟨c'.step.2, hreaches.step, ?_⟩
        rw [hstep, ← hgathered]
        exact (step_of_failures (hreaches.failures hc)).2.1

/-- A failed read stops a call before a lexeme: the failure has the place of this lexeme, and the lexer
stays there with all of its text ahead. -/
theorem exists_skips_of_unreadable {reason : String} {p : Position}
    (h : l.next.1 = .error ⟨.unreadable reason, p⟩) : ∃ m, l.Skips m ∧ m.position = p ∧
      m.step = (.error ⟨.unreadable reason, p⟩, l.next.2) ∧ l.next.2.gathered = m.gathered := by
  obtain ⟨m, hskips, ⟨e, hstep, hnext⟩ | ⟨-, hnext⟩ | ⟨t, lexeme, -, -, hnext⟩⟩ := l.exists_skips
  · rw [h] at hnext
    obtain rfl := Except.error.inj hnext
    have hkept := gathered_of_step (l := m) (by simp [hstep])
    rcases m.step_gathered with ⟨reason', hfailed, -⟩ | ⟨houtcome, -⟩
    · rw [hstep] at hfailed hkept
      cases hfailed
      exact ⟨m, hskips, rfl, hstep, hkept⟩
    · rw [hstep] at houtcome
      obtain ⟨u, hu⟩ := fault_of_step_gathered houtcome.symm
      cases hu
  · rw [h] at hnext
    cases hnext
  · rw [h] at hnext
    cases hnext

/-- So it is after any number of calls, and the lexer without failures comes to stand there as well. -/
theorem exists_place_of_unreadable (hc : c.unread.failures = []) (hl : c.gathered = l.gathered)
    {reason : String} {p : Position} (h : (after n l).next.1 = .error ⟨.unreadable reason, p⟩) :
    ∃ m c', (after n l).Skips m ∧ m.position = p ∧
      m.step = (.error ⟨.unreadable reason, p⟩, after (n + 1) l) ∧
        (after (n + 1) l).gathered = m.gathered ∧ c.Reaches c' ∧ c'.gathered = m.gathered := by
  obtain ⟨m, hskips, hposition, hstep, hkept⟩ := exists_skips_of_unreadable h
  obtain ⟨c', hreaches, hplace⟩ :=
    ((reaches_after n l).trans hskips.reaches).exists_gathered_eq hc hl
  rw [← after_succ] at hstep hkept
  exact ⟨m, c', hskips, hposition, hstep, hkept, hreaches, hplace⟩

/-! ## transparency -/

/-- What failures of the source of `l` change, where `clean` is the lexer on the source without them. -/
structure Transparent (input : List Char) (l clean : Lexer) : Prop where
  /-- But for the failed reads, the outcomes are those of the lexer without failures. -/
  answers : ∀ n, answers n l = calls (answers n l).length clean
  /-- All outcomes come, each failure putting them off by one call. -/
  answered : ∀ n, calls n clean <+: Lexer.answers (n + l.unread.failures.length) l
  /-- Every failure that a read meets is reported, once and in order. -/
  reported : ∀ n, readFailures n l ++ (after n l).unread.failures = l.unread.failures
  /-- A failure is at the start of the lexeme that was being read, where the lexer without failures comes
  to stand too, and the text there is as it was before the read. -/
  place : ∀ n reason p, (after n l).next.1 = .error ⟨.unreadable reason, p⟩ →
    ∃ m c, (after n l).Skips m ∧ m.position = p ∧
      m.step = (.error ⟨.unreadable reason, p⟩, after (n + 1) l) ∧
        (after (n + 1) l).gathered = m.gathered ∧ clean.Reaches c ∧ c.gathered = m.gathered
  /-- Nothing is lost or read twice. -/
  whole : ∀ n, input.take (after n l).position.offset ++
    ((after n l).pending ++ (after n l).unread.text) = input
  /-- A failure that is not that of a read is repeated, and nothing more is read. -/
  error_stays : ∀ n e, (after n l).next.1 = .error e → (∀ reason, e.fault ≠ .unreadable reason) →
    ∀ k, (after (n + 1 + k) l).next = (.error e, after (n + 1) l)
  /-- The end is repeated, and nothing more is read. -/
  end_stays : ∀ n p, (after n l).next.1 = .ok (.ending p) →
    ∀ k, (after (n + 1 + k) l).next = (.ok (.ending p), after (n + 1) l)

/-- Failed reads are transparent, whatever the source and wherever it fails. -/
theorem transparent_start (lexicon : Lexicon) (source : Source) :
    Transparent source.text (start lexicon source) (start lexicon source.withoutFailures) := by
  have hclean : (start lexicon source.withoutFailures).unread.failures = [] :=
    source.failures_withoutFailures
  have hgathered : (start lexicon source.withoutFailures).gathered = (start lexicon source).gathered :=
    gathered_eq_iff.2 ⟨rfl, rfl, source.text_withoutFailures⟩
  have hagrees : Agrees (start lexicon source) (start lexicon source.withoutFailures) :=
    ⟨hclean, by rw [hgathered]⟩
  have hstands : Stands source.text (start lexicon source) := .start lexicon source
  constructor
  case answers => exact hagrees.answers_eq
  case answered => exact hagrees.calls_prefix
  case reported => exact fun n => readFailures_append n _
  case place => exact fun n reason p h => exists_place_of_unreadable hclean hgathered h
  case whole => exact fun n => ((reaches_after n _).stands hstands).take_append
  case error_stays =>
    intro n e h he k
    rw [after_add, after_succ]
    exact next_after_of_next (next_of_next_error (Prod.ext h rfl) he) k
  case end_stays =>
    intro n p h k
    rw [after_add, after_succ]
    exact next_after_of_next (next_of_next_end (Prod.ext h rfl)) k

/-- A read fails inside the second number, after the space before it has been skipped. -/
example : (Lexicon.ofTerminals decimalTerminals).toOption.map (fun lexicon =>
    (calls 3 (start lexicon [.char '1', .char ' ', .char '2', .failure "busy", .char '3'])).map
      fun o => (o.1.toOption.map Token.text, o.2.offset)) =
    some [(some "1", 1), (none, 2), (some "23", 4)] := by
  with_unfolding_all decide

end Lexer

end Lalr
