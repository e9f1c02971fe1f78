import Lalr.Parser.Basic
import Mathlib.Logic.Relation

/-!
# Lalr.Proofs.Parser.Run

The runs of the machine on a list of tokens, without fuel.  `Moves` says what one step does that does
not end the parse, `Stops` how a parse ends, and `Ends` counts the steps to the end.  The machine is
deterministic, and with enough fuel it does what these relations say (`run_of_ends`,
`exists_ends_of_run`).
-/

namespace Lalr

/-- The token that an error is about, if it is about one. -/
def ParseError.token? : ParseError → Option Token
  | .unexpected t _ => some t
  | .leftover t _ => some t
  | _ => none

namespace Parser

variable {α : Type} {t : Table} {sem sem' : Semantics Id α} {stack stack' : List (Frame α)}
  {token : Token} {rest input : List Token} {s s' s'' : List (Frame α) × List Token}
  {r r' : Except ParseError α} {n fuel : Nat}

/-- A step of the machine that does not end the parse, on a stack and the tokens that are still to be
consumed. -/
inductive Moves (t : Table) (sem : Semantics Id α) :
    List (Frame α) × List Token → List (Frame α) × List Token → Prop
  | shift {stack : List (Frame α)} {token : Token} {rest : List Token} {q : Nat}
      (h : t.action? (topState stack) token.name = some (.shift q)) :
      Moves t sem (stack, token :: rest) (⟨q, sem.ofToken token⟩ :: stack, rest)
  | reduce {stack : List (Frame α)} {token : Token} {rest : List Token} {k n q : Nat} {A : Symbol}
      {f : List α → Id α} (h : t.action? (topState stack) token.name = some (.reduce k A n))
      (hk : sem.actions[k]? = some f) (hn : n ≤ stack.length)
      (hq : t.action? (topState (stack.drop n)) A = some (.goto q)) :
      Moves t sem (stack, token :: rest)
        (⟨q, (f ((stack.take n).reverse.map Frame.value)).run⟩ :: stack.drop n, token :: rest)

/-- The machine stops: there is no token, or its step ends the parse. -/
inductive Stops (t : Table) (sem : Semantics Id α) :
    List (Frame α) × List Token → Except ParseError α → Prop
  | exhausted (stack : List (Frame α)) : Stops t sem (stack, []) (.error .noMoreTokens)
  | ended {stack : List (Frame α)} {token : Token} {rest : List Token} {r : Except ParseError α}
      (h : (step t sem ⟨stack, token⟩).run = .ended r) : Stops t sem (stack, token :: rest) r

/-- The machine stops with a result, after some steps. -/
inductive Ends (t : Table) (sem : Semantics Id α) :
    List (Frame α) × List Token → Except ParseError α → Nat → Prop
  | stop {s : List (Frame α) × List Token} {r : Except ParseError α} (h : Stops t sem s r) :
      Ends t sem s r 1
  | move {s s' : List (Frame α) × List Token} {r : Except ParseError α} {n : Nat}
      (h : Moves t sem s s') (h' : Ends t sem s' r n) : Ends t sem s r (n + 1)

/-! ## what a step does -/

/-- A look-up in the table finds an action only if there is a row. -/
theorem exists_row_of_action? {q : Nat} {X : Symbol} {a : Action} (h : t.action? q X = some a) :
    ∃ row, t.rows[q]? = some row ∧ row.get? X = some a :=
  Option.bind_eq_some_iff.1 h

section Effects

variable {m : Type → Type} [Monad m] {sem : Semantics m α}

theorem step_of_shift {q : Nat} (h : t.action? (topState stack) token.name = some (.shift q)) :
    step t sem ⟨stack, token⟩ = pure (.shifted (⟨q, sem.ofToken token⟩ :: stack)) := by
  obtain ⟨row, hrow, hget⟩ := exists_row_of_action? h
  simp only [step, hrow, hget]

theorem step_of_accept (h : t.action? (topState stack) token.name = some .accept) :
    step t sem ⟨stack, token⟩ = pure (.ended (accept ⟨stack, token⟩)) := by
  obtain ⟨row, hrow, hget⟩ := exists_row_of_action? h
  simp only [step, hrow, hget]

theorem step_of_reduce {k n : Nat} {A : Symbol}
    (h : t.action? (topState stack) token.name = some (.reduce k A n)) :
    step t sem ⟨stack, token⟩ = reduce t sem stack k A n := by
  obtain ⟨row, hrow, hget⟩ := exists_row_of_action? h
  simp only [step, hrow, hget]

/-- A token without an action is not expected. -/
theorem step_of_isGoto {row : Row} (hrow : t.rows[topState stack]? = some row)
    (h : ∀ a, t.action? (topState stack) token.name = some a → a.isGoto) :
    step t sem ⟨stack, token⟩ = pure (.ended (.error (.unexpected token (Table.expectedIn row)))) := by
  rw [Table.action?, hrow, Option.bind_some] at h
  cases hget : row.get? token.name with
  | none => simp only [step, hrow, hget]
  | some a =>
      cases a with
      | goto q => simp only [step, hrow, hget]
      | shift q => exact absurd (h _ hget) (by simp [Action.isGoto])
      | reduce k A n => exact absurd (h _ hget) (by simp [Action.isGoto])
      | accept => exact absurd (h _ hget) (by simp [Action.isGoto])

end Effects

theorem run_reduce (t : Table) (sem : Semantics Id α) (stack : List (Frame α)) (k : Nat) (A : Symbol)
    (n : Nat) : (reduce t sem stack k A n).run = match sem.actions[k]? with
      | none => .ended (.error (.missingAction k))
      | some f =>
        if stack.length < n then .ended (.error .underflow)
        else pushGoto t (stack.drop n) A (f ((stack.take n).reverse.map Frame.value)).run := by
  unfold reduce
  cases sem.actions[k]? with
  | none => rfl
  | some f =>
      simp only [Id.run_bind]
      split <;> rfl

/-- What a step leads to, by the action that the table has for it. -/
inductive Outcome (t : Table) (sem : Semantics Id α) (stack : List (Frame α)) (token : Token) :
    Step α → Prop
  | shift {q : Nat} (h : t.action? (topState stack) token.name = some (.shift q)) :
      Outcome t sem stack token (.shifted (⟨q, sem.ofToken token⟩ :: stack))
  | reduce {k n q : Nat} {A : Symbol} {f : List α → Id α}
      (h : t.action? (topState stack) token.name = some (.reduce k A n))
      (hk : sem.actions[k]? = some f) (hn : n ≤ stack.length)
      (hq : t.action? (topState (stack.drop n)) A = some (.goto q)) :
      Outcome t sem stack token
        (.reduced (⟨q, (f ((stack.take n).reverse.map Frame.value)).run⟩ :: stack.drop n))
  | accept (h : t.action? (topState stack) token.name = some .accept) :
      Outcome t sem stack token (.ended (Parser.accept ⟨stack, token⟩))
  | unexpected {expected : List Symbol}
      (h : ∀ a, t.action? (topState stack) token.name = some a → a.isGoto) :
      Outcome t sem stack token (.ended (.error (.unexpected token expected)))
  | fault {e : ParseError} (he : e.token? = none) : Outcome t sem stack token (.ended (.error e))

theorem outcome_step (t : Table) (sem : Semantics Id α) (stack : List (Frame α)) (token : Token) :
    Outcome t sem stack token (step t sem ⟨stack, token⟩).run := by
  cases hrow : t.rows[topState stack]? with
  | none =>
      simp only [step, hrow]
      exact .fault rfl
  | some row =>
      have haction : t.action? (topState stack) token.name = row.get? token.name := by
        rw [Table.action?, hrow]
        rfl
      cases hget : row.get? token.name with
      | none =>
          simp only [step, hrow, hget]
          exact .unexpected (by simp [haction, hget])
      | some a =>
          rw [hget] at haction
          cases a with
          | shift q =>
              rw [step_of_shift haction]
              exact .shift haction
          | accept =>
              rw [step_of_accept haction]
              exact .accept haction
          | goto q =>
              simp only [step, hrow, hget]
              exact .unexpected (by simp [haction, Action.isGoto])
          | reduce k A n =>
              rw [step_of_reduce haction, run_reduce]
              split
              · exact .fault rfl
              · next f hf =>
                  split
                  · exact .fault rfl
                  · next hn =>
                      unfold pushGoto
                      split
                      · next q hq => exact .reduce haction hf (Nat.le_of_not_lt hn) hq
                      · exact .fault rfl

/-- A step that shifts is a move. -/
theorem moves_of_shifted (h : (step t sem ⟨stack, token⟩).run = .shifted stack') :
    Moves t sem (stack, token :: rest) (stack', rest) := by
  have hout := outcome_step t sem stack token
  rw [h] at hout
  cases hout with
  | shift haction => exact .shift haction

/-- A step that reduces is a move. -/
theorem moves_of_reduced (h : (step t sem ⟨stack, token⟩).run = .reduced stack') :
    Moves t sem (stack, token :: rest) (stack', token :: rest) := by
  have hout := outcome_step t sem stack token
  rw [h] at hout
  cases hout with
  | reduce haction hk hn hq => exact .reduce haction hk hn hq

/-- What a move does to the configuration is what the step does. -/
theorem Moves.step_eq (h : Moves t sem s s') : ∃ stack token rest stack' rest',
    s = (stack, token :: rest) ∧ s' = (stack', rest') ∧
      (((step t sem ⟨stack, token⟩).run = .shifted stack' ∧ rest' = rest) ∨
        ((step t sem ⟨stack, token⟩).run = .reduced stack' ∧ rest' = token :: rest)) := by
  cases h with
  | @shift stack token rest q h =>
      exact ⟨stack, token, rest, _, rest, rfl, rfl, .inl ⟨congrArg Id.run (step_of_shift h), rfl⟩⟩
  | @reduce stack token rest k n q A f h hk hn hq =>
      refine ⟨stack, token, rest, _, token :: rest, rfl, rfl, .inr ⟨?_, rfl⟩⟩
      rw [step_of_reduce h, run_reduce, hk]
      simp only [Nat.not_lt.2 hn, if_false, pushGoto, hq]

/-- The machine can always go on, or stops. -/
theorem exists_moves_or_stops (t : Table) (sem : Semantics Id α) (s : List (Frame α) × List Token) :
    (∃ s', Moves t sem s s') ∨ ∃ r, Stops t sem s r := by
  obtain ⟨stack, input⟩ := s
  cases input with
  | nil => exact .inr ⟨_, .exhausted stack⟩
  | cons token rest =>
      cases hstep : (step t sem ⟨stack, token⟩).run with
      | shifted stack' => exact .inl ⟨_, moves_of_shifted hstep⟩
      | reduced stack' => exact .inl ⟨_, moves_of_reduced hstep⟩
      | ended r => exact .inr ⟨r, .ended hstep⟩

/-! ## determinism -/

theorem Moves.unique (h : Moves t sem s s') (h' : Moves t sem s s'') : s' = s'' := by
  obtain ⟨stack, token, rest, stack₁, rest₁, rfl, rfl, hstep⟩ := h.step_eq
  obtain ⟨_, _, _, stack₂, rest₂, heq, rfl, hstep'⟩ := h'.step_eq
  obtain ⟨rfl, htokens⟩ := Prod.mk.inj heq
  obtain ⟨rfl, rfl⟩ := List.cons.inj htokens
  rcases hstep with ⟨hs, rfl⟩ | ⟨hs, rfl⟩ <;> rcases hstep' with ⟨hs', rfl⟩ | ⟨hs', rfl⟩ <;>
    rw [hs] at hs'
  · rw [Step.shifted.inj hs']
  · contradiction
  · contradiction
  · rw [Step.reduced.inj hs']

theorem Moves.not_stops (h : Moves t sem s s') : ¬ Stops t sem s r := by
  obtain ⟨stack, token, rest, stack₁, rest₁, rfl, rfl, hstep⟩ := h.step_eq
  intro hs
  cases hs with
  | ended hs => rcases hstep with ⟨hm, -⟩ | ⟨hm, -⟩ <;> rw [hm] at hs <;> contradiction

theorem Stops.unique (h : Stops t sem s r) (h' : Stops t sem s r') : r = r' := by
  cases h with
  | exhausted => cases h' with | exhausted => rfl
  | ended h =>
      cases h' with
      | ended h' => exact Step.ended.inj (h.symm.trans h')

theorem Ends.unique (h : Ends t sem s r n) {m : Nat} (h' : Ends t sem s r' m) : r = r' ∧ n = m := by
  induction h generalizing m with
  | stop h =>
      cases h' with
      | stop h' => exact ⟨h.unique h', rfl⟩
      | move hm _ => exact absurd h hm.not_stops
  | move hm _ ih =>
      cases h' with
      | stop h' => exact absurd h' hm.not_stops
      | move hm' h' =>
          obtain rfl := hm.unique hm'
          obtain ⟨hr, hn⟩ := ih h'
          exact ⟨hr, congrArg (· + 1) hn⟩

/-- The end of a run is the end of what came before it. -/
theorem Ends.of_moves (h : Relation.ReflTransGen (Moves t sem) s s') (h' : Ends t sem s' r n) :
    ∃ m, Ends t sem s r m := by
  induction h using Relation.ReflTransGen.head_induction_on with
  | refl => exact ⟨n, h'⟩
  | head hm _ ih =>
      obtain ⟨m, hend⟩ := ih
      exact ⟨m + 1, .move hm hend⟩

/-- A move does not add tokens. -/
theorem Moves.length_le (h : Moves t sem s s') : s'.2.length ≤ s.2.length := by
  cases h with
  | shift => exact Nat.le_succ _
  | reduce => exact Nat.le_refl _

theorem length_le_of_moves (h : Relation.ReflTransGen (Moves t sem) s s') :
    s'.2.length ≤ s.2.length := by
  induction h with
  | refl => exact Nat.le_refl _
  | tail _ hm ih => exact Nat.le_trans hm.length_le ih

/-- Where no move is possible, the run has been everywhere that moves lead to. -/
theorem moves_of_stuck (h : Relation.ReflTransGen (Moves t sem) s s')
    (h' : Relation.ReflTransGen (Moves t sem) s s'') (hstuck : ∀ s₃, ¬ Moves t sem s'' s₃) :
    Relation.ReflTransGen (Moves t sem) s' s'' := by
  have hunique : Relator.RightUnique (Moves t sem) := fun _ _ _ => Moves.unique
  rcases Relation.ReflTransGen.total_of_right_unique hunique h h' with hm | hm
  · exact hm
  · rcases hm.cases_head with rfl | ⟨s₃, hm, -⟩
    · exact .refl
    · exact absurd hm (hstuck s₃)

/-- A run leads to where it stops. -/
theorem Ends.exists_stops (h : Ends t sem s r n) :
    ∃ s', Relation.ReflTransGen (Moves t sem) s s' ∧ Stops t sem s' r := by
  induction h with
  | stop h => exact ⟨_, .refl, h⟩
  | move hm _ ih =>
      obtain ⟨s', hs, hstop⟩ := ih
      exact ⟨s', .head hm hs, hstop⟩

/-! ## fuel -/

section Effects

variable {m : Type → Type} [Monad m] {sem : Semantics m α}

theorem run_ended {σ : Type} {supply : Supply σ} (fuel : Nat) (r : Except ParseError α) :
    run supply t sem fuel (.ended r) = pure (some r) := by
  cases fuel <;> rfl

/-- With a token to look at, the machine runs by its step. -/
theorem run_pull_bind [LawfulMonad m] {σ : Type} {supply : Supply σ} {s s' : σ} {token : Token}
    (h : supply.next s = (.token token, s')) (fuel : Nat) (stack : List (Frame α)) :
    run supply t sem (fuel + 1) (pull supply s stack) =
      step t sem ⟨stack, token⟩ >>= fun o => match o with
        | .shifted stack' => run supply t sem fuel (pull supply s' stack')
        | .reduced stack' => run supply t sem fuel (pull supply s stack')
        | .ended r => pure (some r) := by
  have hpull (stack : List (Frame α)) : pull supply s stack = .running s' ⟨stack, token⟩ := by
    rw [pull, h]
  rw [hpull, run, advance, bind_assoc]
  refine bind_congr fun o => ?_
  cases o <;> rw [pure_bind]
  · exact congrArg (run supply t sem fuel) (hpull _).symm
  · exact run_ended fuel _

theorem run_succ_bind [LawfulMonad m] (fuel : Nat) (stack : List (Frame α)) (token : Token)
    (rest : List Token) : run .ofTokens t sem (fuel + 1) (pull .ofTokens (token :: rest) stack) =
      step t sem ⟨stack, token⟩ >>= fun s => match s with
        | .shifted stack' => run .ofTokens t sem fuel (pull .ofTokens rest stack')
        | .reduced stack' => run .ofTokens t sem fuel (pull .ofTokens (token :: rest) stack')
        | .ended r => pure (some r) :=
  run_pull_bind rfl fuel stack

end Effects

theorem run_succ (fuel : Nat) (stack : List (Frame α)) (token : Token) (rest : List Token) :
    run .ofTokens t sem (fuel + 1) (pull .ofTokens (token :: rest) stack) =
      match (step t sem ⟨stack, token⟩).run with
      | .shifted stack' => run .ofTokens t sem fuel (pull .ofTokens rest stack')
      | .reduced stack' => run .ofTokens t sem fuel (pull .ofTokens (token :: rest) stack')
      | .ended r => some r := by
  rw [run_succ_bind]
  rfl

/-- With enough fuel, a run that ends gives its result. -/
theorem run_of_ends (h : Ends t sem (stack, input) r n) (hn : n ≤ fuel) :
    run .ofTokens t sem fuel (pull .ofTokens input stack) = some r := by
  generalize hs : (stack, input) = s at h
  induction h generalizing stack input fuel with
  | stop h =>
      obtain ⟨fuel, rfl⟩ : ∃ k, fuel = k + 1 := ⟨fuel - 1, by omega⟩
      cases h with
      | exhausted stack' =>
          obtain ⟨rfl, rfl⟩ := Prod.mk.inj hs
          exact run_ended _ _
      | ended h =>
          obtain ⟨rfl, rfl⟩ := Prod.mk.inj hs
          rw [run_succ, h]
  | move hm _ ih =>
      obtain ⟨fuel, rfl⟩ : ∃ k, fuel = k + 1 := ⟨fuel - 1, by omega⟩
      obtain ⟨stack₁, token, rest, stack₂, rest₂, rfl, rfl, hstep⟩ := hm.step_eq
      obtain ⟨rfl, rfl⟩ := Prod.mk.inj hs
      rcases hstep with ⟨hstep, rfl⟩ | ⟨hstep, rfl⟩ <;> rw [run_succ, hstep] <;>
        exact ih (Nat.le_of_succ_le_succ hn) rfl

/-- A result comes from a run that ends. -/
theorem exists_ends_of_run
    (h : run .ofTokens t sem fuel (pull .ofTokens input stack) = some r) :
    ∃ n, Ends t sem (stack, input) r n := by
  induction fuel generalizing stack input with
  | zero =>
      cases input with
      | nil =>
          obtain rfl : Except.error .noMoreTokens = r := Option.some.inj h
          exact ⟨1, .stop (.exhausted stack)⟩
      | cons token rest => exact absurd h (by simp [pull, Supply.ofTokens, run])
  | succ fuel ih =>
      cases input with
      | nil =>
          obtain rfl : Except.error .noMoreTokens = r := Option.some.inj h
          exact ⟨1, .stop (.exhausted stack)⟩
      | cons token rest =>
          rw [run_succ] at h
          split at h
          · next stack' hstep =>
              obtain ⟨n, hend⟩ := ih h
              exact ⟨n + 1, .move (moves_of_shifted hstep) hend⟩
          · next stack' hstep =>
              obtain ⟨n, hend⟩ := ih h
              exact ⟨n + 1, .move (moves_of_reduced hstep) hend⟩
          · next r' hstep =>
              obtain rfl : r' = r := Option.some.inj h
              exact ⟨1, .stop (.ended hstep)⟩

end Parser

end Lalr
