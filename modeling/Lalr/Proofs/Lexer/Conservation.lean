import Lalr.Proofs.Lexer.Course

/-!
# Lalr.Proofs.Lexer.Conservation

Lexing loses and invents nothing.  What lies before the place of a lexer is the texts of lexemes,
one after the other; those that are not skipped are the tokens that were returned, and what lies
behind it is pending or still to be read.  `accounted_calls` says so of a lexer after any number of
calls, whether they failed or not, and that going over all tokens comes to an end.

A call consumes some lexemes (`exists_consumes_next`), and what calls consume one after the other
appends (`Consumes.append`).
-/

namespace Lalr

variable {ts : List Terminal} {lexicon : Lexicon} {input : List Char} {p : Position} {t : Token}

/-! ## lexemes one after the other -/

/-- The text of a lexeme and the terminal that it was given to. -/
abbrev Lexeme := Terminal × List Char

namespace Lexeme

variable {es es' : List Lexeme}

/-- The texts of lexemes that stand one after the other. -/
def textOf (es : List Lexeme) : List Char := (es.map Prod.snd).flatten

@[simp] theorem textOf_nil : textOf [] = [] := rfl

@[simp] theorem textOf_cons (e : Lexeme) (es : List Lexeme) : textOf (e :: es) = e.2 ++ textOf es := rfl

@[simp] theorem textOf_append (es es' : List Lexeme) : textOf (es ++ es') = textOf es ++ textOf es' := by
  simp [textOf]

/-- The tokens of lexemes that stand one after the other from a place on.  Skipped ones have none. -/
def placed (p : Position) : List Lexeme → List Token
  | [] => []
  | (t, u) :: es =>
    if t.skip then placed (p.after u) es else ⟨t.name, String.ofList u, p⟩ :: placed (p.after u) es

theorem placed_append (p : Position) (es es' : List Lexeme) :
    placed p (es ++ es') = placed p es ++ placed (p.after (textOf es)) es' := by
  induction es generalizing p with
  | nil => rfl
  | cons e es ih =>
      rw [List.cons_append, placed, placed, ih, textOf_cons, Position.after_append]
      split <;> rfl

theorem placed_of_skip (h : ∀ e ∈ es, e.1.skip = true) : placed p es = [] := by
  induction es generalizing p with
  | nil => rfl
  | cons e es ih =>
      rw [placed, if_pos (h e List.mem_cons_self)]
      exact ih fun e he => h e (List.mem_cons_of_mem _ he)

/-- The token that an outcome returns for a lexeme.  The ending token stands for none: it has no text. -/
def token? : Except LexError Token → Option Token
  | .ok t => if t.text = "" then none else some t
  | .error _ => none

end Lexeme

namespace Lexer

open Lexeme (textOf placed)

variable {l l' l'' m : Lexer} {es es' : List Lexeme} {lexeme : List Char} {terminal : Terminal}

/-! ## what is consumed -/

/-- Some lexemes are taken off the front of the text. -/
structure Consumes (l : Lexer) (es : List Lexeme) (l' : Lexer) : Prop where
  lexemes : ∀ e ∈ es, e.2 ≠ [] ∧ l.lexicon.classify? e.2 = some e.1
  remaining : l.remaining = textOf es ++ l'.remaining
  position : l'.position = l.position.after (textOf es)
  lexicon : l'.lexicon = l.lexicon

theorem consumes_of_gathered (h : l'.gathered = l.gathered) : l.Consumes [] l' := by
  obtain ⟨hlexicon, hposition, hremaining⟩ := gathered_eq_iff.1 h
  exact ⟨by simp, hremaining.symm, hposition, hlexicon⟩

/-- A step without a lexeme consumes nothing. -/
theorem consumes_of_step {o : Except LexError (Option Lexeme)} (h : l.step = (o, l'))
    (ho : ∀ e, o ≠ .ok (some e)) : l.Consumes [] l' := by
  have hkept := gathered_of_step (l := l) (by rwa [h])
  rw [h] at hkept
  exact consumes_of_gathered hkept

theorem Takes.consumes (h : l.Takes terminal lexeme l') : l.Consumes [(terminal, lexeme)] l' where
  lexemes e he := by
    obtain rfl := List.mem_singleton.1 he
    exact ⟨h.ne_nil, h.classified⟩
  remaining := by simpa using h.remaining
  position := by simpa using h.position
  lexicon := h.lexicon

theorem Consumes.append (h : l.Consumes es l') (h' : l'.Consumes es' l'') :
    l.Consumes (es ++ es') l'' where
  lexemes e he := (List.mem_append.1 he).elim (h.lexemes e) (h.lexicon ▸ h'.lexemes e)
  remaining := by rw [h.remaining, h'.remaining, Lexeme.textOf_append, List.append_assoc]
  position := by rw [h'.position, h.position, Lexeme.textOf_append, Position.after_append]
  lexicon := h'.lexicon.trans h.lexicon

theorem Skips.exists_consumes (h : l.Skips m) : ∃ es, l.Consumes es m ∧ ∀ e ∈ es, e.1.skip = true := by
  induction h with
  | refl l => exact ⟨[], consumes_of_gathered rfl, by simp⟩
  | step hstep hskip _ ih =>
      obtain ⟨es, hes, hskips⟩ := ih
      exact ⟨_ :: es, (takes_of_step hstep).consumes.append hes, List.forall_mem_cons.2 ⟨hskip, hskips⟩⟩

/-- A call consumes some lexemes, and its token is that of the last if it has one. -/
theorem exists_consumes_next (l : Lexer) :
    ∃ es, l.Consumes es l.next.2 ∧ placed l.position es = (Lexeme.token? l.next.1).toList := by
  obtain ⟨m, hskips, hend⟩ := l.exists_skips
  obtain ⟨es, hes, hskip⟩ := hskips.exists_consumes
  rcases hend with ⟨e, hstep, hnext⟩ | ⟨hstep, hnext⟩ | ⟨t, lexeme, hstep, ht, hnext⟩
  · refine ⟨es, by simpa using hes.append (consumes_of_step hstep (by simp)), ?_⟩
    rw [Lexeme.placed_of_skip hskip, hnext]
    rfl
  · refine ⟨es, by simpa using hes.append (consumes_of_step hstep (by simp)), ?_⟩
    rw [Lexeme.placed_of_skip hskip, hnext]
    rfl
  · have htakes := takes_of_step hstep
    refine ⟨_, hes.append htakes.consumes, ?_⟩
    rw [Lexeme.placed_append, Lexeme.placed_of_skip hskip, hnext, ← hes.position]
    simp [placed, Lexeme.token?, ht, htakes.ne_nil]

/-- Some calls consume lexemes, and return the tokens of those that are not skipped. -/
theorem exists_consumes_after (n : Nat) (l : Lexer) : ∃ es, l.Consumes es (after n l) ∧
    placed l.position es = ((calls n l).map Prod.fst).filterMap Lexeme.token? := by
  induction n with
  | zero => exact ⟨[], consumes_of_gathered rfl, rfl⟩
  | succ n ih =>
      obtain ⟨es, hes, hplaced⟩ := ih
      obtain ⟨es', hes', hplaced'⟩ := (after n l).exists_consumes_next
      refine ⟨es ++ es', after_succ n l ▸ hes.append hes', ?_⟩
      rw [Lexeme.placed_append, hplaced, ← hes.position, hplaced', calls_succ, List.map_append,
        List.filterMap_append]
      cases h : Lexeme.token? (after n l).next.1 <;> simp [h]

/-! ## where tokens stand -/

/-- A token stands in a text where it says.  If it has no text, it stands at the end. -/
structure TokenAt (input : List Char) (t : Token) : Prop where
  position : t.position = .of (input.take t.position.offset)
  text : t.text.toList <+: input.drop t.position.offset
  ending : t.text = "" → t = .ending (.of input)

theorem tokenAt_of_next (hl : Stands input l) (h : l.next.1 = .ok t) : TokenAt input t := by
  obtain ⟨m, hskips, hend⟩ := l.exists_skips
  rcases hend with ⟨e, -, hnext⟩ | ⟨hstep, hnext⟩ | ⟨terminal, lexeme, hstep, -, hnext⟩
  · rw [h] at hnext
    cases hnext
  · have hm : Stands input m := hskips.reaches.stands hl
    have hnil : m.remaining = [] := remaining_of_step_end (by rw [hstep])
    rw [h] at hnext
    obtain rfl := Except.ok.inj hnext
    refine ⟨hm.position_eq, List.nil_prefix, fun _ => ?_⟩
    obtain ⟨before, hinput, hposition⟩ := hm
    rw [hnil, List.append_nil] at hinput
    rw [hposition, hinput]
  · have hm : Stands input m := hskips.reaches.stands hl
    have htakes := takes_of_step hstep
    rw [h] at hnext
    obtain rfl := Except.ok.inj hnext
    refine ⟨hm.position_eq, ?_, fun hempty => absurd hempty (by simpa using htakes.ne_nil)⟩
    rw [← hm.remaining_eq, htakes.remaining, String.toList_ofList]
    exact List.prefix_append _ _

/-- The outcomes of calls are those of lexers that are reached. -/
theorem exists_after_of_mem_calls {n : Nat} {o : Except LexError Token}
    (h : o ∈ (calls n l).map Prod.fst) : ∃ m, l.Reaches m ∧ m.next.1 = o := by
  induction n with
  | zero => cases h
  | succ n ih =>
      rw [calls_succ, List.map_append, List.mem_append] at h
      rcases h with h | h
      · exact ih h
      · exact ⟨_, reaches_after n l, (List.mem_singleton.1 h).symm⟩

/-! ## calls and iteration -/

/-- What is known of a text when a lexer that began with it has given some outcomes. -/
structure Accounted (ts : List Terminal) (input : List Char) (outcomes : List (Except LexError Token))
    (l : Lexer) : Prop where
  /-- Nothing is lost. -/
  whole : input.take l.position.offset ++ (l.pending ++ l.unread.text) = input
  /-- What was consumed is lexemes, each given to the first terminal that matches it, and the tokens that
  were returned are those of the lexemes that are not skipped. -/
  lexemes : ∃ es : List Lexeme, input.take l.position.offset = textOf es ∧
    (∀ e ∈ es, e.2 ≠ [] ∧ FirstMatch ts e.2 e.1) ∧
      placed .start es = outcomes.filterMap Lexeme.token?
  tokens : ∀ t, .ok t ∈ outcomes → TokenAt input t

/-- Going over the tokens of a lexer: the outcomes of its calls up to the first end marker or failure. -/
structure Iteration (l : Lexer) (outcomes : List (Except LexError Token)) : Prop where
  calls : outcomes = (calls outcomes.length l).map Prod.fst
  ends : ∃ before last, outcomes = before ++ [last] ∧
    (∀ o ∈ before, ∃ t : Token, o = .ok t ∧ t.name ≠ endMarker) ∧
      ∀ t : Token, last = .ok t → t.name = endMarker

/-- A token that does not end the stream takes something off the text. -/
theorem length_remaining_lt (h : l.next = (.ok t, l')) (hname : t.name ≠ endMarker) :
    l'.remaining.length < l.remaining.length := by
  obtain ⟨m, hskips, ⟨e, -, hnext⟩ | ⟨-, hnext⟩ | ⟨terminal, lexeme, hstep, -, -⟩⟩ := l.exists_skips
  · rw [h] at hnext
    cases hnext
  · rw [h] at hnext
    obtain rfl := Except.ok.inj hnext
    exact absurd rfl hname
  · obtain ⟨es, hes, -⟩ := hskips.exists_consumes
    have htakes : m.Takes terminal lexeme l' := takes_of_step (by rw [hstep, h])
    have hpos := List.length_pos_iff.2 htakes.ne_nil
    rw [hes.remaining, htakes.remaining, List.length_append, List.length_append]
    omega

theorem iteration_tokensFrom (fuel : Nat) (h : l.remaining.length < fuel) :
    Iteration l (tokensFrom fuel l) ∧ (tokensFrom fuel l).length ≤ l.remaining.length + 1 := by
  induction fuel generalizing l with
  | zero => exact absurd h (Nat.not_lt_zero _)
  | succ fuel ih =>
      rw [tokensFrom]
      split
      · next e l' hnext =>
          exact ⟨⟨by simp [Lexer.calls, hnext], [], _, rfl, by simp, by simp⟩, by simp⟩
      · next t l' hnext =>
          split
          · next hname =>
              refine ⟨⟨by simp [Lexer.calls, hnext], [], _, rfl, by simp, ?_⟩, by simp⟩
              exact fun t' ht' => Except.ok.inj ht' ▸ hname
          · next hname =>
              have hlt := length_remaining_lt hnext hname
              obtain ⟨⟨hcalls, before, last, hends, hbefore, hlast⟩, hlength⟩ := ih (l := l') (by omega)
              refine ⟨⟨?_, .ok t :: before, last, by rw [hends]; rfl, ?_, hlast⟩, ?_⟩
              · rw [List.length_cons, calls_cons, hnext, List.map_cons, ← hcalls]
              · exact List.forall_mem_cons.2 ⟨⟨t, rfl, hname⟩, hbefore⟩
              · rw [List.length_cons]
                omega

/-- After any number of calls, what was consumed, what is pending and what is unread make up the text,
the tokens stand where they say, and going over all tokens ends. -/
theorem accounted_calls (h : Lexicon.ofTerminals ts = .ok lexicon) (source : Source) :
    (∀ n, Accounted ts source.text ((calls n (start lexicon source)).map Prod.fst)
      (after n (start lexicon source))) ∧
    Iteration (start lexicon source) (start lexicon source).tokens ∧
      (start lexicon source).tokens.length ≤ source.text.length + 1 := by
  have hstart : Stands source.text (start lexicon source) := .start lexicon source
  constructor
  · intro n
    have hstands := (reaches_after n _).stands hstart
    obtain ⟨es, hes, hplaced⟩ := exists_consumes_after n (start lexicon source)
    constructor
    case whole => exact hstands.take_append
    case lexemes =>
      refine ⟨es, ?_, fun e he => ?_, hplaced⟩
      · have hremaining : source.text = textOf es ++ (after n (start lexicon source)).remaining :=
          hes.remaining
        have hposition : (after n (start lexicon source)).position = .of (textOf es) := by
          rw [hes.position, start, ← Position.of_nil, Position.after_of, List.nil_append]
        rw [hposition, Position.offset_of, hremaining, List.take_left]
      · obtain ⟨hne, hclassify⟩ := hes.lexemes e he
        exact ⟨hne, Lexicon.firstMatch_of_classify? h hclassify⟩
    case tokens =>
      intro t ht
      obtain ⟨m, hm, hnext⟩ := exists_after_of_mem_calls ht
      exact tokenAt_of_next (hm.stands hstart) hnext
  · have hremaining : (start lexicon source).remaining = source.text := rfl
    have hsize : source.text.length ≤ (start lexicon source).size :=
      Nat.le_trans source.length_text_le (Nat.le_add_left _ _)
    rw [← hremaining]
    exact iteration_tokensFrom _ (Nat.lt_succ_of_le hsize)

/-- Two numbers on two lines: the newline between them is skipped, and every token stands where it
says. -/
theorem accounted_decimal : ∃ lexicon, Lexicon.ofTerminals decimalTerminals = .ok lexicon ∧
    (calls 3 (start lexicon (.ofString "1.5\n2"))).map (·.1.toOption) =
      [some ⟨"NUM", "1.5", .start⟩, some ⟨"NUM", "2", ⟨4, 2, 1⟩⟩, some (.ending ⟨5, 2, 2⟩)] ∧
    Accounted decimalTerminals (Source.ofString "1.5\n2").text
      ((calls 3 (start lexicon (.ofString "1.5\n2"))).map Prod.fst)
      (after 3 (start lexicon (.ofString "1.5\n2"))) := by
  have heval : (Lexicon.ofTerminals decimalTerminals).toOption.map (fun lexicon =>
      (calls 3 (start lexicon (.ofString "1.5\n2"))).map (·.1.toOption)) =
        some [some ⟨"NUM", "1.5", .start⟩, some ⟨"NUM", "2", ⟨4, 2, 1⟩⟩, some (.ending ⟨5, 2, 2⟩)] := by
    with_unfolding_all decide
  obtain ⟨lexicon, h, hcalls⟩ := exists_ok_of_map_toOption heval
  exact ⟨lexicon, h, hcalls, (accounted_calls h _).1 3⟩

end Lexer

end Lalr
