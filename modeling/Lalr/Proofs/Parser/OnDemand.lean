import Lalr.Proofs.Lexer.Yield
import Lalr.Proofs.Parser.ErrorDetection
import Lalr.Proofs.Parser.Safety

/-!
# Lalr.Proofs.Parser.OnDemand

Lexing on demand agrees with lexing first.  A parser that asks a lexer for one token at a time does what
it does on the list of all tokens, as long as the lexer has them; where the lexer fails instead, its
error is the result, unless the parser did not get that far (`parseLexer_agrees`).

The two runs are compared step by step (`run_ofLexer_eq`, `ensures_run_ofLexer`): they have the same
stack in front of the same token, until the end is wanted.  The ending token of a list stands in another
place than that of a lexer, and the machine does not look at places (`run_endingAt`).
-/

namespace Lalr

open Construction (rowGrammar rowToken)

/-! ## the place of the end -/

/-- An ending token gets a place; other tokens stay as they are. -/
def Token.endingAt (p : Position) (t : Token) : Token := if t.name = endMarker then .ending p else t

@[simp] theorem Token.name_endingAt (p : Position) (t : Token) : (t.endingAt p).name = t.name := by
  rw [endingAt]
  split
  · next h => exact h.symm
  · rfl

theorem Token.endingAt_of_ne {t : Token} (p : Position) (h : t.name ≠ endMarker) : t.endingAt p = t :=
  if_neg h

/-- What an error is about gets a place, if it is the end. -/
def ParseError.endingAt (p : Position) : ParseError → ParseError
  | .unexpected t expected => .unexpected (t.endingAt p) expected
  | .leftover t count => .leftover (t.endingAt p) count
  | e => e

theorem Supply.terminated_eq {tokens : List Token} (p : Position)
    (h : ∀ t ∈ tokens, t.name ≠ endMarker) : ∃ q, terminated p tokens = tokens ++ [.ending q] := by
  induction tokens generalizing p with
  | nil => exact ⟨p, rfl⟩
  | cons t rest ih =>
      obtain ⟨q, hrest⟩ := ih t.position (List.forall_mem_cons.1 h).2
      rw [terminated, if_neg (List.forall_mem_cons.1 h).1, hrest]
      exact ⟨q, rfl⟩

/-! ## a lexer as a supply -/

/-- What is left after a token that a lexer and the list of its tokens both gave. -/
def Lexer.Remains (ts : List Token) (last : Except LexError Position) (q : Position) (token : Token)
    (rest : List Token) (s : Option Lexer) : Prop :=
  (∃ p, last = .ok p ∧ token = .ending p) ∨
    ∃ l ts', token ∈ ts ∧ s = some l ∧ rest = ts' ++ [.ending q] ∧ l.Yields ts' last

/-- The first call of a lexer that yields some tokens, beside the list of them: it fails where the list
ends, or both give the same token. -/
theorem Lexer.Yields.next_cases {l : Lexer} {ts : List Token} {last : Except LexError Position}
    {q : Position} (h : l.Yields ts last) (hq : ∀ p, last = .ok p → q = p) :
    (∃ e s, last = .error e ∧ ts = [] ∧ Supply.ofLexer.next (some l) = (.error e, s)) ∨
    ∃ token rest s, ts ++ [.ending q] = token :: rest ∧
      Supply.ofLexer.next (some l) = (.token token, s) ∧ Remains ts last q token rest s := by
  cases h with
  | @fails _ l' e h =>
      refine .inl ⟨e, some l', rfl, rfl, ?_⟩
      simp only [Supply.ofLexer, h]
  | @ends _ l' p h =>
      obtain rfl := hq p rfl
      refine .inr ⟨_, [], none, rfl, ?_, .inl ⟨_, rfl, rfl⟩⟩
      simp only [Supply.ofLexer, h]
      rfl
  | @token _ l' t ts _ h hname hrest =>
      refine .inr ⟨t, _, some l', rfl, ?_, .inr ⟨l', ts, List.mem_cons_self, rfl, rfl, hrest⟩⟩
      simp only [Supply.ofLexer, h, if_neg hname]

namespace Parser

variable {m : Type → Type} [Monad m] [LawfulMonad m] {α : Type} {t : Table} {sem : Semantics m α}
  {stack : List (Frame α)} {l : Lexer} {ts : List Token} {last : Except LexError Position}
  {r : Except ParseError Unit} {p q : Position} {n fuel fuel' : Nat}

/-- A step towards an error about the end, with its place. -/
def Step.endingAt (p : Position) : Step α → Step α
  | .ended r => .ended (r.mapError (.endingAt p))
  | s => s

theorem endingAt_accept (stack : List (Frame α)) (token : Token) :
    (accept ⟨stack, token⟩).mapError (.endingAt p) = accept ⟨stack, token.endingAt p⟩ := by
  match stack with
  | [] | [f] | f :: f' :: stack => rfl

theorem endingAt_pushGoto (t : Table) (stack : List (Frame α)) (A : Symbol) (v : α) :
    (pushGoto t stack A v).endingAt p = pushGoto t stack A v := by
  unfold pushGoto
  split <;> rfl

theorem endingAt_reduce (t : Table) (sem : Semantics m α) (stack : List (Frame α)) (k : Nat)
    (A : Symbol) (n : Nat) :
    Step.endingAt p <$> reduce t sem stack k A n = reduce t sem stack k A n := by
  unfold reduce
  cases sem.actions[k]? with
  | none => exact map_pure _ _
  | some f =>
      simp only [map_bind]
      refine bind_congr fun v => ?_
      split
      · exact map_pure _ _
      · rw [map_pure, endingAt_pushGoto]

/-- Where the end is not shifted, a step does not depend on its place. -/
theorem step_endingAt (hshift : ∀ q q', t.action? q endMarker ≠ some (.shift q'))
    (sem : Semantics m α) (stack : List (Frame α)) (token : Token) (p : Position) :
    step t sem ⟨stack, token.endingAt p⟩ = Step.endingAt p <$> step t sem ⟨stack, token⟩ := by
  cases hrow : t.rows[topState stack]? with
  | none =>
      simp only [step, hrow, map_pure]
      rfl
  | some row =>
      cases hget : row.get? token.name with
      | none =>
          simp only [step, hrow, hget, Token.name_endingAt, map_pure]
          rfl
      | some action =>
          cases action with
          | shift q =>
              have hname : token.name ≠ endMarker := by
                intro hname
                refine hshift (topState stack) q ?_
                rw [Table.action?, hrow, ← hname]
                exact hget
              simp only [step, hrow, hget, Token.endingAt_of_ne p hname, map_pure]
              rfl
          | goto q =>
              simp only [step, hrow, hget, Token.name_endingAt, map_pure]
              rfl
          | accept =>
              simp only [step, hrow, hget, Token.name_endingAt, map_pure, ← endingAt_accept]
              rfl
          | reduce k A n =>
              simp only [step, hrow, hget, Token.name_endingAt, endingAt_reduce]

/-- Nor does a run. -/
theorem run_endingAt (hshift : ∀ q q', t.action? q endMarker ≠ some (.shift q'))
    (sem : Semantics m α) (fuel : Nat) (stack : List (Frame α)) (input : List Token) (p : Position) :
    run .ofTokens t sem fuel (pull .ofTokens (input.map (.endingAt p)) stack) =
      Option.map (Except.mapError (.endingAt p)) <$>
        run .ofTokens t sem fuel (pull .ofTokens input stack) := by
  induction fuel generalizing stack input with
  | zero =>
      cases input with
      | nil =>
          simp only [List.map_nil, pull, Supply.ofTokens, run_ended, map_pure]
          rfl
      | cons token rest =>
          simp only [List.map_cons, pull, Supply.ofTokens, run, map_pure]
          rfl
  | succ fuel ih =>
      cases input with
      | nil =>
          simp only [List.map_nil, pull, Supply.ofTokens, run_ended, map_pure]
          rfl
      | cons token rest =>
          rw [List.map_cons, run_succ_bind, run_succ_bind, step_endingAt hshift, map_bind, bind_map_left]
          refine bind_congr fun o => ?_
          cases o with
          | shifted stack' => exact ih stack' rest
          | reduced stack' => exact ih stack' (token :: rest)
          | ended r =>
              simp only [Step.endingAt, map_pure]
              rfl

/-! ## where a parse fails -/

/-- A parse fails at one of some tokens. -/
def FailsAt (ts : List Token) (r : Except ParseError α) : Prop :=
  ∃ e token, r = .error e ∧ e.token? = some token ∧ token ∈ ts

/-- A parse does not fail before the end. -/
def GetsToEnd (r : Except ParseError α) : Prop :=
  ∀ e token, r = .error e → e.token? = some token → token.name = endMarker

theorem GetsToEnd.not_failsAt (h : GetsToEnd r) (hts : ∀ token ∈ ts, token.name ≠ endMarker) :
    ¬ FailsAt ts r :=
  fun ⟨e, token, hr, htoken, hmem⟩ => hts token hmem (h e token hr htoken)

/-- Where a parse fails does not depend on values. -/
theorem failsAt_map {r : Except ParseError α} :
    FailsAt ts (r.map fun _ => ()) ↔ FailsAt ts r := by
  cases r <;> simp [FailsAt, Except.map]

/-- What is still to be consumed is an end of the input. -/
theorem suffix_of_moves {sem : Semantics Id α} {s s' : List (Frame α) × List Token}
    (h : Relation.ReflTransGen (Moves t sem) s s') : s'.2 <:+ s.2 := by
  induction h with
  | refl => exact List.suffix_refl _
  | tail _ hm ih =>
      cases hm with
      | shift => exact (List.suffix_cons _ _).trans ih
      | reduce => exact ih

/-- An error is about a token of the input. -/
theorem Ends.mem_of_token {sem : Semantics Id α} {s : List (Frame α) × List Token} {e : ParseError}
    {token : Token} (h : Ends t sem s (.error e) n) (he : e.token? = some token) : token ∈ s.2 := by
  obtain ⟨s', hmoves, hstop⟩ := h.exists_stops
  obtain ⟨stack, rest, rfl, -⟩ := hstop.of_token he
  exact (suffix_of_moves hmoves).mem List.mem_cons_self

/-- A parse that fails in front of a token, and not at the end, fails at that token. -/
theorem Stops.failsAt {sem : Semantics Id α} {token : Token} {rest : List Token}
    {r : Except ParseError α} (haccept : ∀ q X, t.action? q X = some .accept → X = endMarker)
    (hproper : Proper r) (hname : token.name ≠ endMarker)
    (h : Stops t sem (stack, token :: rest) r) : FailsAt [token] r := by
  cases h with
  | ended h =>
      have hout := outcome_step t sem stack token
      rw [h] at hout
      cases hout with
      | accept haction => exact absurd (haccept _ _ haction) hname
      | unexpected => exact ⟨_, token, rfl, rfl, List.mem_singleton_self token⟩
      | fault hnone =>
          cases hproper
          contradiction

/-- In front of the end alone, a parse gets there. -/
theorem Ends.getsToEnd {sem : Semantics Id α} {r : Except ParseError α}
    (h : Ends t sem (stack, [.ending q]) r n) : GetsToEnd r := by
  rintro e token rfl htoken
  obtain rfl := List.mem_singleton.1 (h.mem_of_token htoken)
  rfl

/-- A parse that fails before the end fails at a token in front of it. -/
theorem Ends.failsAt {sem : Semantics Id α} {r : Except ParseError α}
    (h : Ends t sem (stack, ts ++ [.ending q]) r n) (hr : ¬ GetsToEnd r) : FailsAt ts r := by
  simp only [GetsToEnd, not_forall] at hr
  obtain ⟨e, token, rfl, htoken, hname⟩ := hr
  rcases List.mem_append.1 (h.mem_of_token htoken) with hmem | hmem
  · exact ⟨e, token, rfl, htoken, hmem⟩
  · exact absurd (congrArg Token.name (List.mem_singleton.1 hmem)) hname

/-! ## the two runs -/

theorem step_ending_ne_shifted (hshift : ∀ q q', t.action? q endMarker ≠ some (.shift q'))
    (sem : Semantics Id α) (stack stack' : List (Frame α)) :
    (step t sem ⟨stack, .ending p⟩).run ≠ .shifted stack' := by
  intro h
  have hout := outcome_step t sem stack (.ending p)
  rw [h] at hout
  cases hout with
  | shift haction => exact hshift _ _ haction

/-- What a run comes to after its first step. -/
theorem Ends.of_step {sem : Semantics Id α} {token : Token} {rest : List Token}
    {r : Except ParseError α} (h : Ends t sem (stack, token :: rest) r (n + 1)) :
    match (step t sem ⟨stack, token⟩).run with
    | .shifted stack' => Ends t sem (stack', rest) r n
    | .reduced stack' => Ends t sem (stack', token :: rest) r n
    | .ended r' => r' = r := by
  cases h with
  | stop hstop =>
      cases hstop with
      | ended hstep => rw [hstep]
  | move hm h' =>
      obtain ⟨_, _, _, stack', rest', heq, rfl, hstep⟩ := hm.step_eq
      obtain ⟨rfl, htokens⟩ := Prod.mk.inj heq
      obtain ⟨rfl, rfl⟩ := List.cons.inj htokens
      rcases hstep with ⟨hstep, rfl⟩ | ⟨hstep, rfl⟩ <;> rw [hstep] <;> exact h'

/-- The two runs are the same if the lexer comes to the end, or if its error comes too late. -/
theorem run_ofLexer_eq (hshift : ∀ q q', t.action? q endMarker ≠ some (.shift q'))
    (hend : Ends t (idle sem.actions.length) (stack.map Frame.bare, ts ++ [.ending q]) r n)
    (hl : l.Yields ts last) (hq : ∀ p, last = .ok p → q = p)
    (hlast : ∀ e, last = .error e → ¬ GetsToEnd r) (hn : n ≤ fuel) (hn' : n ≤ fuel') :
    run .ofLexer t sem fuel (pull .ofLexer (some l) stack) =
      run .ofTokens t sem fuel' (pull .ofTokens (ts ++ [.ending q]) stack) := by
  induction n generalizing stack ts l fuel fuel' with
  | zero => cases hend
  | succ n ih =>
      obtain ⟨fuel, rfl⟩ : ∃ k, fuel = k + 1 := ⟨fuel - 1, by omega⟩
      obtain ⟨fuel', rfl⟩ : ∃ k, fuel' = k + 1 := ⟨fuel' - 1, by omega⟩
      replace hn : n ≤ fuel := Nat.le_of_succ_le_succ hn
      replace hn' : n ≤ fuel' := Nat.le_of_succ_le_succ hn'
      rcases hl.next_cases hq with ⟨e, s, rfl, rfl, -⟩ | ⟨token, rest, s, hts, hnext, hrest⟩
      · exact absurd hend.getsToEnd (hlast e rfl)
      · rw [hts] at hend ⊢
        rw [run_pull_bind hnext, run_succ_bind]
        refine (ensures_step t sem stack token).bind_congr fun o hbare => ?_
        have hstep := hend.of_step
        rw [← hbare] at hstep
        cases o with
        | shifted stack' =>
            rcases hrest with ⟨p, -, rfl⟩ | ⟨l', ts', -, rfl, rfl, hl'⟩
            · exact absurd hbare.symm (step_ending_ne_shifted hshift _ _ _)
            · exact ih hstep hl' hn hn'
        | reduced stack' =>
            rw [← hts] at hstep ⊢
            exact ih hstep hl hn hn'
        | ended r' => rfl

/-- The error of the lexer is the result, if the parse gets to the end of the tokens. -/
theorem ensures_run_ofLexer {e : LexError} (haccept : ∀ q X, t.action? q X = some .accept → X = endMarker)
    (hend : Ends t (idle sem.actions.length) (stack.map Frame.bare, ts ++ [.ending q]) r n)
    (hproper : Proper r) (hl : l.Yields ts (.error e)) (hr : GetsToEnd r) (hn : n ≤ fuel) :
    Ensures (· = some (.error (.lexical e)))
      (run .ofLexer t sem fuel (pull .ofLexer (some l) stack)) := by
  induction n generalizing stack ts l fuel with
  | zero => cases hend
  | succ n ih =>
      obtain ⟨fuel, rfl⟩ : ∃ k, fuel = k + 1 := ⟨fuel - 1, by omega⟩
      replace hn : n ≤ fuel := Nat.le_of_succ_le_succ hn
      rcases hl.next_cases (q := q) nofun with ⟨e', s, he, -, hnext⟩ | ⟨token, rest, s, hts, hnext, hrest⟩
      · obtain rfl := Except.error.inj he
        rw [pull, hnext, run_ended]
        exact ensures_pure rfl
      · obtain ⟨p, hp, -⟩ | ⟨l', ts', hmem, rfl, rfl, hl'⟩ := hrest
        · cases hp
        rw [hts] at hend
        rw [run_pull_bind hnext]
        refine (ensures_step t sem stack token).bind fun o hbare => ?_
        have hstep := hend.of_step
        rw [← hbare] at hstep
        cases o with
        | shifted stack' => exact ih hstep hl' hn
        | reduced stack' =>
            rw [← hts] at hstep
            exact ih hstep hl hn
        | ended r' =>
            obtain rfl : r'.map (fun _ => ()) = r := hstep
            have hstop : Stops t _ (stack.map Frame.bare, token :: ts' ++ [.ending q]) _ :=
              .ended hbare.symm
            have hfails := hstop.failsAt haccept hproper (hl.ne_end token hmem)
            exact absurd hfails (hr.not_failsAt (List.forall_mem_singleton.2 (hl.ne_end token hmem)))

/-! ## whole parses -/

/-- What a parse on demand gives, beside what a parse of a list of tokens gives. -/
structure Agrees (ts : List Token) (last : Except LexError Position)
    (listed onDemand : m (Option (Except ParseError α))) : Prop where
  /-- The list has a result. -/
  proper : Ensures (fun o => ∃ r, o = some r ∧ Proper r) listed
  /-- If the lexer comes to the end, the result is the same, with its place of the end. -/
  ended : ∀ p, last = .ok p → onDemand = Option.map (Except.mapError (.endingAt p)) <$> listed
  /-- If the lexer fails, the result is the same if it is an error at a token that the lexer gave, and
  the error of the lexer otherwise. -/
  failed : ∀ e, last = .error e →
    (Ensures (fun o => ∃ r, o = some r ∧ FailsAt ts r) listed ∧ onDemand = listed) ∨
      (Ensures (fun o => ∃ r, o = some r ∧ ¬ FailsAt ts r) listed ∧
        Ensures (· = some (.error (.lexical e))) onDemand)

/-- Without effects, the result of the list decides what the result on demand is. -/
theorem Agrees.exists_result {listed onDemand : Id (Option (Except ParseError α))}
    (h : Agrees ts last listed onDemand) : ∃ r, listed = some r ∧ Proper r ∧
      (∀ p, last = .ok p → onDemand = some (r.mapError (.endingAt p))) ∧
      ∀ e, last = .error e → (FailsAt ts r → onDemand = some r) ∧
        (¬ FailsAt ts r → onDemand = some (.error (.lexical e))) := by
  obtain ⟨r, rfl, hr⟩ : ∃ r, listed = some r ∧ Proper r := h.proper.run
  refine ⟨r, rfl, hr, h.ended, fun e he => ?_⟩
  rcases h.failed e he with ⟨hfails, hsame⟩ | ⟨hfails, herror⟩
  · obtain ⟨r', hr', hfails⟩ := hfails.run
    obtain rfl : r = r' := Option.some.inj hr'
    exact ⟨fun _ => hsame, fun hnot => absurd hfails hnot⟩
  · obtain ⟨r', hr', hnot⟩ := hfails.run
    obtain rfl : r = r' := Option.some.inj hr'
    exact ⟨fun hfails => absurd hfails hnot, fun _ => herror.run⟩

variable {g : Grammar} {c : Construction}

theorem action?_ne_shift_end (hc : Construction.Built g c) (q q' : Nat) :
    c.table.action? q endMarker ≠ some (.shift q') :=
  fun h => hc.wellFormed.ne_end (.inl (hc.shift_iff.1 h).2) rfl

/-- A parse on demand agrees with a parse of the list. -/
theorem agrees_of_yields (hc : Construction.Built g c) (hsem : sem.actions.length = g.rules.length)
    (hl : l.Yields ts last) : Agrees ts last (parseTokens c.table sem ts) (parseLexer c.table sem l) := by
  have hidle : (idle sem.actions.length).actions.length = g.rules.length := by simpa using hsem
  have hshift := action?_ne_shift_end hc
  have haccept (q : Nat) (X : Symbol) (h : c.table.action? q X = some .accept) : X = endMarker :=
    (hc.accept_iff.1 h).2
  have hfuel {r : Except ParseError Unit} {n k : Nat} {q : Position}
      (h : Ends c.table (idle sem.actions.length) ([], ts ++ [.ending q]) r n) (hk : ts.length ≤ k) :
      n ≤ enoughFuel c.table.rows.length k := by
    refine Nat.le_trans h.le_stepBound (stepBound_le_enoughFuel _ _ ?_)
    rw [List.length_append]
    exact Nat.succ_le_succ hk
  have hsize : ts.length ≤ l.size := Nat.le_trans hl.length_le l.length_remaining_le
  obtain ⟨r, hr, hproper⟩ := exists_proper hc hidle ts
  have hlisted := ensures_parseTokens hr
  obtain ⟨q, hterminated⟩ := Supply.terminated_eq .start hl.ne_end
  obtain ⟨n, hend⟩ := parseTokens_eq_some_iff.1 hr
  rw [hterminated] at hend
  constructor
  case proper =>
    refine hlisted.imp ?_
    rintro _ ⟨r', rfl, rfl⟩
    exact ⟨r', rfl, hproper.of_map⟩
  case ended =>
    rintro p rfl
    obtain ⟨r', n', hend'⟩ :=
      spells_nil.exists_ends hc (idle sem.actions.length) (ts ++ [.ending p])
    have hmap : (ts ++ [Token.ending q]).map (.endingAt p) = ts ++ [.ending p] := by
      rw [List.map_append, List.map_congr_left fun token h => Token.endingAt_of_ne p (hl.ne_end token h),
        List.map_id']
      rfl
    rw [parseTokens, hterminated, ← run_endingAt hshift, hmap]
    exact run_ofLexer_eq hshift hend' hl (fun _ h => Except.ok.inj h) (fun _ h => by cases h)
      (hfuel hend' hsize) (hfuel hend' (Nat.le_refl _))
  case failed =>
    rintro e rfl
    by_cases hgets : GetsToEnd r
    · refine .inr ⟨hlisted.imp ?_,
        ensures_run_ofLexer haccept hend hproper hl hgets (hfuel hend hsize)⟩
      rintro _ ⟨r', rfl, rfl⟩
      exact ⟨r', rfl, fun h => hgets.not_failsAt hl.ne_end (failsAt_map.2 h)⟩
    · refine .inl ⟨hlisted.imp ?_, ?_⟩
      · rintro _ ⟨r', rfl, rfl⟩
        exact ⟨r', rfl, failsAt_map.1 (hend.failsAt hgets)⟩
      · rw [parseTokens, hterminated]
        exact run_ofLexer_eq hshift hend hl (fun _ h => by cases h) (fun _ _ => hgets) (hfuel hend hsize)
          (hfuel hend (Nat.le_refl _))

/-- Lexing on demand agrees with lexing first, and the first error of the input is the result.  Let a
lexer give some tokens before the end or an error.  If it comes to the end, the parse on demand has the
result of the parse of the tokens, up to the place of the end.  If it fails, the result is the error of
the parse of the tokens if that is about one of them, and otherwise the error of the lexer.  Actions may
have effects; both parses have the same. -/
theorem parseLexer_agrees {g : Grammar} {c : Construction} {lexicon : Lexicon}
    (hc : Construction.ofGrammar g = .ok c) (hlexicon : Lexicon.ofTerminals g.terminals = .ok lexicon)
    (source : Source) : ∃ ts last,
      (Lexer.start lexicon source).tokens = ts.map .ok ++ [last.map .ending] ∧
      (∀ token ∈ ts, token.name ∈ g.terminalNames) ∧
      (∀ {m : Type → Type} [Monad m] [LawfulMonad m] {α : Type} (sem : Semantics m α),
        sem.actions.length = g.rules.length → Agrees ts last (parseTokens c.table sem ts)
          (parseLexer c.table sem (Lexer.start lexicon source))) ∧
      ∀ {α : Type} (sem : Semantics Id α), sem.actions.length = g.rules.length →
        ∃ r, parseTokens c.table sem ts = some r ∧ Proper r ∧
          (∀ p, last = .ok p → parseLexer c.table sem (Lexer.start lexicon source) =
            some (r.mapError (.endingAt p))) ∧
          ∀ e, last = .error e →
            (FailsAt ts r → parseLexer c.table sem (Lexer.start lexicon source) = some r) ∧
            (¬ FailsAt ts r → parseLexer c.table sem (Lexer.start lexicon source) =
              some (.error (.lexical e))) := by
  have hbuilt := Construction.built_of_ofGrammar hc
  obtain ⟨hentries, -⟩ := Lexicon.entries_of_ofTerminals hlexicon
  have hmem {e : Terminal × Pattern} (he : e ∈ lexicon.entries) : e.1 ∈ g.terminals :=
    hentries ▸ List.mem_map_of_mem he
  obtain ⟨ts, last, hyields, hnames⟩ := (Lexer.start lexicon source).exists_yields fun e he hend => by
    have hfree := hbuilt.wellFormed.unreserved e.1.name
      (List.mem_append_left _ (List.mem_map_of_mem (hmem he)))
    rw [hend] at hfree
    exact absurd hfree (by decide)
  refine ⟨ts, last, hyields.tokens_eq, fun token htoken => ?_,
    fun sem hsem => agrees_of_yields hbuilt hsem hyields,
    fun sem hsem => (agrees_of_yields hbuilt hsem hyields).exists_result⟩
  obtain ⟨e, he, hskip, hname⟩ := hnames token htoken
  exact List.mem_map.2 ⟨e.1, List.mem_filter.2 ⟨hmem he, by simp [hskip]⟩, hname⟩

/-- A row is a value, but where a character that begins no token comes after it, the error of the lexer
is the result. -/
theorem lexical_row : ∃ c lexicon v, Construction.ofGrammar rowGrammar = .ok c ∧
    Lexicon.ofTerminals rowGrammar.terminals = .ok lexicon ∧
    parseTokens c.table (Semantics.tree 2) [rowToken] = some (.ok v) ∧
    parseLexer c.table (Semantics.tree 2) (Lexer.start lexicon (.ofString "a?")) =
      some (.error (.lexical ⟨.unexpected ['?'], ⟨1, 1, 2⟩⟩)) := by
  have hvalue : (Construction.ofGrammar rowGrammar).toOption.map (fun c =>
      ((parseTokens c.table (Semantics.tree 2) [rowToken]).run.map fun r => r.toOption.isSome)) =
        some (some true) := by with_unfolding_all decide
  have htokens : (Lexicon.ofTerminals rowGrammar.terminals).toOption.map (fun lexicon =>
      (Lexer.start lexicon (.ofString "a?")).tokens) =
        some ([.ok rowToken] ++ [.error ⟨.unexpected ['?'], ⟨1, 1, 2⟩⟩]) := by with_unfolding_all decide
  obtain ⟨c, hc, hvalue⟩ := exists_ok_of_map_toOption hvalue
  obtain ⟨lexicon, hlexicon, htokens⟩ := exists_ok_of_map_toOption htokens
  obtain ⟨ts, last, hsplit, -, -, hpure⟩ := parseLexer_agrees hc hlexicon (.ofString "a?")
  obtain ⟨hts, hlast⟩ := List.append_inj' (hsplit.symm.trans htokens) rfl
  clear hsplit
  obtain rfl : ts = [rowToken] := by simpa [List.map_eq_singleton_iff] using hts
  obtain rfl : last = .error ⟨.unexpected ['?'], ⟨1, 1, 2⟩⟩ := by
    cases last with
    | ok p => cases hlast
    | error e => exact congrArg Except.error (Except.error.inj (List.singleton_inj.1 hlast))
  obtain ⟨r, hr, -, -, herror⟩ := hpure (Semantics.tree 2) rfl
  rw [hr] at hvalue
  cases r with
  | error e => cases hvalue
  | ok v => exact ⟨c, lexicon, v, hc, hlexicon, hr, (herror _ rfl).2 fun ⟨_, _, h, _⟩ => nomatch h⟩

end Parser

end Lalr
