import Lalr.Proofs.Parser.Reductions
import Lalr.Proofs.Parser.Run

/-!
# Lalr.Proofs.Parser.Fuel

The fuel of a parse is enough (`parseTokens_eq_some_iff`): whatever the table, a run that ends does so
within `enoughFuel` steps.

A run is a row of reductions for each token, and a shift after each row but the last.  A row is bounded
by the height of the stack that it starts from, and makes it higher by a bounded number.
-/

namespace Lalr.Parser

variable {α : Type} {t : Table} {sem : Semantics Id α} {stack stack' : List (Frame α)}
  {token : Token} {rest tokens : List Token} {r : Except ParseError α} {n k : Nat} {a : Symbol}

/-- The states of a stack, top first, with the start state at the bottom. -/
def statesOf (stack : List (Frame α)) : List Nat := stack.map Frame.state ++ [0]

theorem statesOf_eq_cons (stack : List (Frame α)) :
    ∃ below, statesOf stack = topState stack :: below := by
  cases stack with
  | nil => exact ⟨[], rfl⟩
  | cons f stack => exact ⟨statesOf stack, rfl⟩

theorem statesOf_cons (f : Frame α) (stack : List (Frame α)) :
    statesOf (f :: stack) = f.state :: statesOf stack := rfl

theorem drop_statesOf (hn : n ≤ stack.length) : (statesOf stack).drop n = statesOf (stack.drop n) := by
  rw [statesOf, List.drop_append_of_le_length (by simpa using hn), ← List.map_drop]
  rfl

theorem length_statesOf (stack : List (Frame α)) : (statesOf stack).length = stack.length + 1 := by
  simp [statesOf]

/-- A reduction of the machine is one of its states. -/
theorem reduces_statesOf {k n q : Nat} {A : Symbol} {f : List α → Id α} {v : α}
    (h : t.action? (topState stack) a = some (.reduce k A n)) (hk : sem.actions[k]? = some f)
    (hn : n ≤ stack.length) (hq : t.action? (topState (stack.drop n)) A = some (.goto q)) :
    Reduces t sem.actions.length a (statesOf stack) (statesOf (⟨q, v⟩ :: stack.drop n)) := by
  obtain ⟨below, hbelow⟩ := statesOf_eq_cons stack
  obtain ⟨below', hbelow'⟩ := statesOf_eq_cons (stack.drop n)
  have hdrop : (topState stack :: below).drop n = topState (stack.drop n) :: below' := by
    rw [← hbelow, drop_statesOf hn, hbelow']
  have hpush : statesOf (⟨q, v⟩ :: stack.drop n) = q :: topState (stack.drop n) :: below' := by
    rw [← hbelow']
    rfl
  rw [hbelow, hpush]
  exact .mk h (List.getElem?_eq_some_iff.1 hk).1 hdrop hq

/-- Every reduction of the states is one that the machine makes. -/
theorem exists_moves_of_reduces {qs : List Nat} (rest : List Token)
    (h : Reduces t sem.actions.length token.name (statesOf stack) qs) :
    ∃ stack', Moves t sem (stack, token :: rest) (stack', token :: rest) := by
  obtain ⟨below', hbelow'⟩ := statesOf_eq_cons stack
  rw [hbelow'] at h
  obtain ⟨k, A, n, p, r, below, haction, hk, hdrop, hgoto, -⟩ := h.exists_action
  rw [← hbelow'] at hdrop
  have hn : n ≤ stack.length := by
    have := congrArg List.length hdrop
    rw [List.length_drop, length_statesOf, List.length_cons] at this
    omega
  rw [drop_statesOf hn] at hdrop
  obtain ⟨below'', hbelow''⟩ := statesOf_eq_cons (stack.drop n)
  obtain ⟨rfl, -⟩ := List.cons.inj (hdrop.symm.trans hbelow'')
  exact ⟨_, .reduce haction (List.getElem?_eq_getElem hk) hn hgoto⟩

/-! ## rows of reductions -/

/-- With a token to look at, a run that ends makes a row of reductions, and then stops or shifts. -/
theorem Ends.exists_row (h : Ends t sem (stack, token :: rest) r n) :
    ∃ k stack', After t sem.actions.length token.name k (statesOf stack) (statesOf stack') ∧
      Lasts t sem.actions.length token.name (statesOf stack') 0 ∧
      (n = k + 1 ∨ ∃ f m, n = k + 1 + m ∧ Ends t sem (f :: stack', rest) r m) := by
  generalize hs : (stack, token :: rest) = s at h
  induction h generalizing stack with
  | stop hstop =>
      subst hs
      refine ⟨0, stack, .zero, .stuck fun qs hr => ?_, .inl rfl⟩
      obtain ⟨stack', hm⟩ := exists_moves_of_reduces rest hr
      exact hm.not_stops hstop
  | @move s s' r n hm hend ih =>
      subst hs
      cases hm with
      | @shift _ _ _ q haction =>
          refine ⟨0, stack, .zero, .stuck fun qs hr => ?_, .inr ⟨_, n, by omega, hend⟩⟩
          obtain ⟨stack', hm'⟩ := exists_moves_of_reduces rest hr
          have := congrArg (List.length ∘ Prod.snd) (hm'.unique (.shift haction))
          simp at this
      | @reduce _ _ _ k n q A f haction hk hn hq =>
          obtain ⟨k', stack', hafter, hstuck, hrest⟩ := ih rfl
          have hr := reduces_statesOf (v := (f ((stack.take n).reverse.map Frame.value)).run)
            haction hk hn hq
          refine ⟨k' + 1, stack', hafter.prepend hr, hstuck, ?_⟩
          rcases hrest with rfl | ⟨f', m, rfl, hend'⟩
          · exact .inl rfl
          · exact .inr ⟨f', m, by omega, hend'⟩

/-! ## the bound -/

/-- A bound on the steps of a run, by the number of tokens, the height of its stack and the number of
states. -/
def stepBound (tokens height states : Nat) : Nat :=
  tokens * ((height + tokens * (states + 2) + 1) * (states + 1) ^ states + 1) + 1

theorem stepBound_succ_le (m height states : Nat) :
    (height + 1) * (states + 1) ^ states + 1 + stepBound m (height + states + 2) states ≤
      stepBound (m + 1) height states := by
  unfold stepBound
  generalize (states + 1) ^ states = P
  have hone : (height + 1) * P ≤ (height + (m + 1) * (states + 2) + 1) * P :=
    Nat.mul_le_mul_right P (by omega)
  have hheight : height + states + 2 + m * (states + 2) + 1 = height + (m + 1) * (states + 2) + 1 := by
    rw [Nat.succ_mul]
    omega
  rw [hheight]
  generalize (height + (m + 1) * (states + 2) + 1) * P = X at hone ⊢
  rw [Nat.succ_mul m (X + 1)]
  omega

theorem stepBound_mono (m states : Nat) {height height' : Nat} (h : height ≤ height') :
    stepBound m height states ≤ stepBound m height' states := by
  unfold stepBound
  have hinner : (height + m * (states + 2) + 1) * (states + 1) ^ states ≤
      (height' + m * (states + 2) + 1) * (states + 1) ^ states :=
    Nat.mul_le_mul_right _ (by omega)
  exact Nat.succ_le_succ (Nat.mul_le_mul_left m (Nat.succ_le_succ hinner))

/-- A run that ends is within the bound. -/
theorem Ends.le_stepBound {input : List Token} (h : Ends t sem (stack, input) r n) :
    n ≤ stepBound input.length (stack.length + 1) t.rows.length := by
  induction input generalizing stack n with
  | nil =>
      cases h with
      | stop => exact Nat.succ_le_succ (Nat.zero_le _)
      | move hm _ => exact absurd (.exhausted stack) hm.not_stops
  | cons token rest ih =>
      obtain ⟨k, stack', hafter, hstuck, hrest⟩ := h.exists_row
      have hk := (hafter.lasts hstuck).le_bound
      rw [length_statesOf] at hk
      have hstep := stepBound_succ_le rest.length (stack.length + 1) t.rows.length
      rw [List.length_cons]
      rcases hrest with rfl | ⟨f, m, rfl, hend⟩
      · omega
      · have hheight : (f :: stack').length + 1 ≤ stack.length + 1 + t.rows.length + 2 := by
          have := hafter.length_le hstuck
          rw [length_statesOf, length_statesOf] at this
          rw [List.length_cons]
          omega
        have := stepBound_mono rest.length t.rows.length hheight
        have := ih hend
        omega

theorem length_terminated_le (p : Position) (tokens : List Token) :
    (Supply.terminated p tokens).length ≤ tokens.length + 1 := by
  induction tokens generalizing p with
  | nil => exact Nat.le_refl 1
  | cons token rest ih =>
      rw [Supply.terminated]
      split
      · exact Nat.succ_le_succ (Nat.zero_le _)
      · exact Nat.succ_le_succ (ih _)

theorem stepBound_le_enoughFuel {m : Nat} (tokens states : Nat) (hm : m ≤ tokens + 1) :
    stepBound m 1 states ≤ enoughFuel states tokens := by
  have hone : 1 ≤ (states + 2) ^ states := Nat.one_le_pow _ _ (by omega)
  have hP : (states + 1) ^ states ≤ (states + 2) ^ states := Nat.pow_le_pow_left (by omega) _
  have hm' : m * (states + 2) ≤ (tokens + 1) * (states + 2) := Nat.mul_le_mul_right _ hm
  have hsucc : (tokens + 2) * (states + 2) = (tokens + 1) * (states + 2) + (states + 2) :=
    Nat.succ_mul (tokens + 1) (states + 2)
  have hpow : (states + 2) * (states + 2) ^ states ≤ (states + 2) ^ (states + 4) := by
    rw [Nat.mul_comm, ← Nat.pow_succ]
    exact Nat.pow_le_pow_right (by omega) (by omega)
  let X := (tokens + 2) * ((states + 2) * (states + 2) ^ states)
  have hX : (1 + m * (states + 2) + 1) * (states + 1) ^ states ≤ X := by
    rw [show X = (tokens + 2) * (states + 2) * (states + 2) ^ states from (Nat.mul_assoc ..).symm]
    exact Nat.mul_le_mul (by omega) hP
  have htokens : tokens + 2 ≤ X := Nat.le_mul_of_pos_right _ (Nat.mul_pos (by omega) hone)
  calc stepBound m 1 states ≤ (tokens + 1) * (X + 1) + 1 :=
        Nat.succ_le_succ (Nat.mul_le_mul hm (Nat.succ_le_succ hX))
    _ ≤ (tokens + 2) * X := by
        rw [Nat.mul_add, Nat.succ_mul (tokens + 1)]
        omega
    _ ≤ (tokens + 2) * ((tokens + 2) * (states + 2) ^ (states + 4)) :=
        Nat.mul_le_mul_left _ (Nat.mul_le_mul_left _ hpow)
    _ = enoughFuel states tokens := (Nat.mul_assoc ..).symm

/-- Parsing gives the result that the machine stops with, if it stops. -/
theorem parseTokens_eq_some_iff :
    parseTokens t sem tokens = some r ↔
      ∃ n, Ends t sem ([], Supply.terminated .start tokens) r n := by
  refine ⟨exists_ends_of_run, ?_⟩
  rintro ⟨n, hend⟩
  refine run_of_ends hend (Nat.le_trans hend.le_stepBound ?_)
  exact stepBound_le_enoughFuel _ _ (length_terminated_le _ _)

end Lalr.Parser
