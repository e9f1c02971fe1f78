import Lalr.Proofs.Parser.Fuel

/-!
# Lalr.Proofs.Parser.Effects

Actions that have effects.  The course of a parse depends on no value: whatever the actions do, the
machine goes through the same states as with actions that do nothing (`ensures_parseTokens`).  So what
is known about how a pure parse ends is known about every parse.
-/

namespace Lalr

/-! ## computations with effects -/

section Ensures

variable {m : Type → Type} [Monad m] [LawfulMonad m] {β γ : Type} {P : β → Prop} {Q : γ → Prop}
  {x : m β} {f : β → m γ}

/-- Whatever effects a computation has, its results, if any, have a property. -/
def Ensures {m : Type → Type} [Monad m] {β : Type} (P : β → Prop) (x : m β) : Prop :=
  ∃ y : m {b // P b}, Subtype.val <$> y = x

theorem ensures_pure {b : β} (h : P b) : Ensures P (pure b : m β) :=
  ⟨pure ⟨b, h⟩, map_pure _ _⟩

theorem ensures_true (x : m β) : Ensures (fun _ => True) x :=
  ⟨(⟨·, trivial⟩) <$> x, by simp⟩

theorem Ensures.bind (hx : Ensures P x) (hf : ∀ b, P b → Ensures Q (f b)) : Ensures Q (x >>= f) := by
  obtain ⟨y, rfl⟩ := hx
  choose F hF using hf
  refine ⟨y >>= fun b => F b.1 b.2, ?_⟩
  rw [map_bind, bind_map_left]
  exact bind_congr fun b => hF b.1 b.2

theorem Ensures.imp {P' : β → Prop} (h : Ensures P x) (hP : ∀ b, P b → P' b) : Ensures P' x := by
  rw [← bind_pure x]
  exact h.bind fun b hb => ensures_pure (hP b hb)

/-- What follows a computation matters only on its results. -/
theorem Ensures.bind_congr {f' : β → m γ} (hx : Ensures P x) (h : ∀ b, P b → f b = f' b) :
    x >>= f = x >>= f' := by
  obtain ⟨y, rfl⟩ := hx
  rw [bind_map_left, bind_map_left]
  exact congrArg (y >>= ·) (funext fun b => h b.1 b.2)

/-- Without effects, a computation is its result. -/
theorem Ensures.run {x : Id β} (h : Ensures P x) : P x.run := by
  obtain ⟨y, rfl⟩ := h
  exact y.run.2

end Ensures

namespace Parser

variable {m : Type → Type} [Monad m] [LawfulMonad m] {α : Type} {t : Table} {sem : Semantics m α}
  {stack : List (Frame α)} {token : Token} {rest input tokens : List Token}

/-! ## a parse without values -/

/-- Tokens have no values, and neither has anything that is made of them. -/
def idle (N : Nat) : Semantics Id Unit := ⟨fun _ => (), List.replicate N fun _ => pure ()⟩

@[simp] theorem length_actions_idle (N : Nat) : (idle N).actions.length = N := List.length_replicate

/-- A frame without its value. -/
def Frame.bare (f : Frame α) : Frame Unit := ⟨f.state, ()⟩

/-- What a step leads to, without values. -/
def Step.bare : Step α → Step Unit
  | .shifted stack => .shifted (stack.map Frame.bare)
  | .reduced stack => .reduced (stack.map Frame.bare)
  | .ended r => .ended (r.map fun _ => ())

@[simp] theorem topState_bare (stack : List (Frame α)) :
    topState (stack.map Frame.bare) = topState stack := by
  cases stack <;> rfl

theorem bare_accept (stack : List (Frame α)) (token : Token) :
    (accept ⟨stack, token⟩).map (fun _ => ()) = accept ⟨stack.map Frame.bare, token⟩ := by
  match stack with
  | [] => rfl
  | [f] => rfl
  | f :: f' :: stack => simp [accept, Except.map]

theorem bare_pushGoto (t : Table) (stack : List (Frame α)) (A : Symbol) (v : α) :
    (pushGoto t stack A v).bare = pushGoto t (stack.map Frame.bare) A () := by
  unfold pushGoto
  rw [topState_bare]
  split <;> rfl

theorem getElem?_actions_idle (N k : Nat) :
    (idle N).actions[k]? = if k < N then some fun _ => pure () else none := by
  rw [idle, List.getElem?_replicate]

theorem ensures_reduce (t : Table) (sem : Semantics m α) (stack : List (Frame α)) (k : Nat) (A : Symbol)
    (n : Nat) :
    Ensures (fun s => s.bare = (reduce t (idle sem.actions.length) (stack.map Frame.bare) k A n).run)
      (reduce t sem stack k A n) := by
  rw [run_reduce, getElem?_actions_idle, List.length_map, ← List.map_drop]
  unfold reduce
  cases hk : sem.actions[k]? with
  | none =>
      rw [if_neg (Nat.not_lt.2 (List.getElem?_eq_none_iff.1 hk))]
      exact ensures_pure rfl
  | some f =>
      rw [if_pos (List.getElem?_eq_some_iff.1 hk).1]
      refine (ensures_true _).bind fun v _ => ?_
      by_cases hn : stack.length < n
      · simp only [hn, if_true]
        exact ensures_pure rfl
      · simp only [hn, if_false]
        exact ensures_pure (bare_pushGoto t _ A v)

/-- A step does with values what it does without. -/
theorem ensures_step (t : Table) (sem : Semantics m α) (stack : List (Frame α)) (token : Token) :
    Ensures (fun s => s.bare = (step t (idle sem.actions.length) ⟨stack.map Frame.bare, token⟩).run)
      (step t sem ⟨stack, token⟩) := by
  cases hrow : t.rows[topState stack]? with
  | none =>
      simp only [step, topState_bare, hrow]
      exact ensures_pure rfl
  | some row =>
      cases hget : row.get? token.name with
      | none =>
          simp only [step, topState_bare, hrow, hget]
          exact ensures_pure rfl
      | some action =>
          cases action with
          | shift q =>
              simp only [step, topState_bare, hrow, hget]
              exact ensures_pure rfl
          | goto q =>
              simp only [step, topState_bare, hrow, hget]
              exact ensures_pure rfl
          | accept =>
              simp only [step, topState_bare, hrow, hget]
              exact ensures_pure (congrArg Step.ended (bare_accept stack token))
          | reduce k A n =>
              simp only [step, topState_bare, hrow, hget]
              exact ensures_reduce t sem stack k A n

/-! ## a parse with effects -/

/-- A parse with values ends as a parse without them does. -/
theorem ensures_run {n fuel : Nat} {r : Except ParseError Unit}
    (h : Ends t (idle sem.actions.length) (stack.map Frame.bare, input) r n) (hn : n ≤ fuel) :
    Ensures (fun o => ∃ r', o = some r' ∧ r'.map (fun _ => ()) = r)
      (run .ofTokens t sem fuel (pull .ofTokens input stack)) := by
  generalize hs : (stack.map Frame.bare, input) = s at h
  induction h generalizing stack input fuel with
  | stop h =>
      obtain ⟨fuel, rfl⟩ : ∃ k, fuel = k + 1 := ⟨fuel - 1, by omega⟩
      cases h with
      | exhausted stack' =>
          obtain ⟨-, rfl⟩ := Prod.mk.inj hs
          exact ensures_pure ⟨_, rfl, rfl⟩
      | ended h =>
          obtain ⟨rfl, rfl⟩ := Prod.mk.inj hs
          rw [run_succ_bind]
          refine (ensures_step t sem stack _).bind fun s hbare => ?_
          rw [h] at hbare
          cases s with
          | ended r' => exact ensures_pure ⟨r', rfl, Step.ended.inj hbare⟩
          | shifted => contradiction
          | reduced => contradiction
  | move hm _ ih =>
      obtain ⟨fuel, rfl⟩ : ∃ k, fuel = k + 1 := ⟨fuel - 1, by omega⟩
      obtain ⟨stack₁, token, rest, stack₂, rest₂, rfl, rfl, hstep⟩ := hm.step_eq
      obtain ⟨rfl, rfl⟩ := Prod.mk.inj hs
      rw [run_succ_bind]
      refine (ensures_step t sem stack _).bind fun s hbare => ?_
      rcases hstep with ⟨hstep, rfl⟩ | ⟨hstep, rfl⟩ <;> rw [hstep] at hbare
      · cases s with
        | shifted stack' =>
            exact ih (Nat.le_of_succ_le_succ hn) (congrArg (·, _) (Step.shifted.inj hbare))
        | reduced => contradiction
        | ended => contradiction
      · cases s with
        | reduced stack' =>
            exact ih (Nat.le_of_succ_le_succ hn) (congrArg (·, _) (Step.reduced.inj hbare))
        | shifted => contradiction
        | ended => contradiction

/-- The result of a parse, whatever its actions do, is that of a parse without values. -/
theorem ensures_parseTokens {r : Except ParseError Unit}
    (h : parseTokens t (idle sem.actions.length) tokens = some r) :
    Ensures (fun o => ∃ r', o = some r' ∧ r'.map (fun _ => ()) = r) (parseTokens t sem tokens) := by
  obtain ⟨n, hend⟩ := parseTokens_eq_some_iff.1 h
  rw [← List.map_nil] at hend
  refine ensures_run hend (Nat.le_trans hend.le_stepBound ?_)
  exact stepBound_le_enoughFuel _ _ (length_terminated_le _ _)

end Parser

end Lalr
