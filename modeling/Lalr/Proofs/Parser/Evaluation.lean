import Lalr.Proofs.Parser.Effects
import Lalr.Proofs.Parser.ErrorDetection
import Mathlib

/-!
# Lalr.Proofs.Parser.Evaluation

Actions evaluate the parse tree, children first and from left to right (`parseTokens_evaluate`).  A
parse that builds trees and a parse with any other actions, which may fail or have effects, go through
the same states.  Where the one has trees on its stack, the other has made their values, in the order
in which the trees lie there, from the bottom to the top.

That is an equation between computations, so it covers which actions are called, in which order, with
which values, and which of them fails first.  It holds for every table, as no tree that has been built
is ever given up.
-/

namespace Lalr

open Construction (rowToken)

variable {m : Type → Type} {α : Type}

/-- The semantics with the actions of a family, for a number of productions.  Trees are built by such
a semantics, too. -/
def Semantics.ofFamily (ofToken : Token → α) (act : Nat → List α → m α) (rules : Nat) :
    Semantics m α where
  ofToken := ofToken
  actions := (List.range rules).map act

theorem Semantics.actions_ofFamily_iff {ofToken : Token → α} {act : Nat → List α → m α}
    {rules k : Nat} {f : List α → m α} :
    (ofFamily ofToken act rules).actions[k]? = some f ↔ k < rules ∧ act k = f := by
  rw [ofFamily, List.getElem?_map]
  by_cases h : k < rules
  · simp [h]
  · simp [h]

variable [Monad m]

/-! ## the value of a tree -/

mutual

/-- The value of a tree.  A node calls the action of its production on the values of its children. -/
def Tree.evaluate (ofToken : Token → α) (act : Nat → List α → m α) : Tree → m α
  | .leaf token => pure (ofToken token)
  | .node k children => do
    let values ← Tree.evaluateAll ofToken act children
    act k values

/-- The values of trees that stand next to each other, made from left to right. -/
def Tree.evaluateAll (ofToken : Token → α) (act : Nat → List α → m α) : List Tree → m (List α)
  | [] => pure []
  | T :: Ts => do
    let v ← T.evaluate ofToken act
    let vs ← Tree.evaluateAll ofToken act Ts
    return v :: vs

end

namespace Parser

variable {ofToken : Token → α} {act : Nat → List α → m α} {t : Table} {rules n fuel : Nat}
  {stack : List (Frame Tree)} {token : Token} {rest tokens : List Token}
  {s s' : List (Frame Tree) × List Token} {r : Except ParseError Tree} {e : ParseError}

/-! ## steps do not depend on values -/

/-- The state on top is one of the states. -/
theorem topState_eq_of_map {β γ : Type} {st : List (Frame β)} {st' : List (Frame γ)}
    (h : st.map Frame.state = st'.map Frame.state) : topState st = topState st' := by
  cases st with
  | nil =>
      obtain rfl := List.map_eq_nil_iff.1 h.symm
      rfl
  | cons f st =>
      obtain ⟨f', st', rfl, hf, -⟩ := List.map_eq_cons_iff.1 h.symm
      exact hf.symm

theorem accept_of_ne {st : List (Frame α)} (h : ∀ f, st ≠ [f]) :
    accept ⟨st, token⟩ = .error (.leftover token st.length) := by
  unfold Parser.accept
  split
  · next f hf => exact absurd hf (h f)
  · rfl

/-- An error about a token does not depend on values. -/
theorem step_of_token {st : List (Frame α)} {sem : Semantics m α} {tok : Token}
    (hst : st.map Frame.state = stack.map Frame.state)
    (h : Stops t (.tree rules) (stack, token :: rest) (.error e)) (he : e.token? = some tok) :
    step t sem ⟨st, token⟩ = pure (.ended (.error e)) := by
  obtain ⟨stack', rest', heq, hcell⟩ := h.of_token he
  obtain ⟨rfl, htokens⟩ := Prod.mk.inj heq
  obtain ⟨rfl, rfl⟩ := List.cons.inj htokens
  have htop := topState_eq_of_map hst
  cases h with
  | ended h =>
      rcases hcell with hcell | ⟨haccept, hne⟩
      · cases hrow : t.rows[topState stack]? with
        | none =>
            simp only [step, hrow] at h
            obtain rfl := Except.error.inj (Step.ended.inj h)
            contradiction
        | some row =>
            rw [step_of_isGoto hrow hcell] at h
            obtain rfl := Except.error.inj (Step.ended.inj h)
            rw [← htop] at hrow hcell
            exact step_of_isGoto hrow hcell
      · rw [step_of_accept haccept, accept_of_ne hne] at h
        obtain rfl := Except.error.inj (Step.ended.inj h)
        rw [← htop] at haccept
        have hlen : st.length = stack.length := by simpa using congrArg List.length hst
        have hne' : ∀ f, st ≠ [f] := by
          rintro f rfl
          obtain ⟨f', hf'⟩ := List.length_eq_one_iff.1 hlen.symm
          exact hne f' hf'
        rw [step_of_accept haccept, accept_of_ne hne', hlen]

/-! ## the values of a stack -/

variable [LawfulMonad m]

theorem evaluateAll_append (Ts Us : List Tree) :
    Tree.evaluateAll ofToken act (Ts ++ Us) = do
      let vs ← Tree.evaluateAll ofToken act Ts
      let us ← Tree.evaluateAll ofToken act Us
      return vs ++ us := by
  induction Ts with
  | nil => simp [Tree.evaluateAll]
  | cons T Ts ih => simp [Tree.evaluateAll, ih]

/-- A stack of trees with their values in place of them, made from the bottom to the top. -/
def evaluateStack (ofToken : Token → α) (act : Nat → List α → m α) :
    List (Frame Tree) → m (List (Frame α))
  | [] => pure []
  | f :: below => do
    let below' ← evaluateStack ofToken act below
    let v ← f.value.evaluate ofToken act
    return ⟨f.state, v⟩ :: below'

theorem evaluateStack_append (ofToken : Token → α) (act : Nat → List α → m α)
    (upper lower : List (Frame Tree)) :
    evaluateStack ofToken act (upper ++ lower) = do
      let lower' ← evaluateStack ofToken act lower
      let upper' ← evaluateStack ofToken act upper
      return upper' ++ lower' := by
  induction upper with
  | nil => simp [evaluateStack]
  | cons f upper ih => simp [evaluateStack, ih]

/-- The values of a stack are those of its trees, the lowest first. -/
theorem values_evaluateStack (stack : List (Frame Tree)) :
    (fun st => st.reverse.map Frame.value) <$> evaluateStack ofToken act stack =
      Tree.evaluateAll ofToken act (stack.reverse.map Frame.value) := by
  induction stack with
  | nil => simp [evaluateStack, Tree.evaluateAll]
  | cons f below ih =>
      rw [List.reverse_cons, List.map_append, evaluateAll_append, ← ih]
      simp [evaluateStack, Tree.evaluateAll]

/-- A leaf is its value, so nothing is called for it. -/
theorem evaluateStack_leaf (q : Nat) (token : Token) (stack : List (Frame Tree)) :
    evaluateStack ofToken act (⟨q, .leaf token⟩ :: stack) = do
      let st ← evaluateStack ofToken act stack
      return ⟨q, ofToken token⟩ :: st := by
  simp [evaluateStack, Tree.evaluate]

/-- A node of the upper trees calls its action where these have their values. -/
theorem evaluateStack_node (q k : Nat) (upper lower : List (Frame Tree)) :
    evaluateStack ofToken act (⟨q, .node k (upper.reverse.map Frame.value)⟩ :: lower) = do
      let lower' ← evaluateStack ofToken act lower
      let upper' ← evaluateStack ofToken act upper
      let v ← act k (upper'.reverse.map Frame.value)
      return ⟨q, v⟩ :: lower' := by
  simp only [evaluateStack, Tree.evaluate, ← values_evaluateStack]
  simp

/-- Values change nothing about the states. -/
theorem ensures_evaluateStack (stack : List (Frame Tree)) :
    Ensures (fun st => st.map Frame.state = stack.map Frame.state)
      (evaluateStack ofToken act stack) := by
  induction stack with
  | nil => exact ensures_pure rfl
  | cons f below ih =>
      refine ih.bind fun below' hbelow => (ensures_true _).bind fun v _ => ensures_pure ?_
      rw [List.map_cons, List.map_cons, hbelow]

/-! ## moves -/

/-- The rest of a parse, from where its stack has the values of some trees. -/
def resume (ofToken : Token → α) (act : Nat → List α → m α) (t : Table) (rules fuel : Nat)
    (s : List (Frame Tree) × List Token) : m (Option (Except ParseError α)) := do
  let st ← evaluateStack ofToken act s.1
  run .ofTokens t (.ofFamily ofToken act rules) fuel (pull .ofTokens s.2 st)

/-- A move makes one value, or none, and goes on with it as it would with the tree. -/
theorem Moves.resume_eq (h : Moves t (.tree rules) s s') (fuel : Nat) :
    resume ofToken act t rules (fuel + 1) s = resume ofToken act t rules fuel s' := by
  cases h with
  | @shift stack token rest q haction =>
      show _ = evaluateStack ofToken act (⟨q, .leaf token⟩ :: stack) >>= _
      rw [evaluateStack_leaf, bind_assoc]
      refine (ensures_evaluateStack stack).bind_congr fun st hst => ?_
      rw [← topState_eq_of_map hst] at haction
      rw [run_succ_bind, step_of_shift haction, pure_bind, pure_bind]
      rfl
  | @reduce stack token rest k n q A f haction hk hn hq =>
      obtain ⟨hrule, rfl⟩ := Semantics.actions_ofFamily_iff.1 hk
      have hsplit := evaluateStack_append ofToken act (stack.take n) (stack.drop n)
      rw [List.take_append_drop] at hsplit
      show _ = evaluateStack ofToken act
        (⟨q, .node k ((stack.take n).reverse.map Frame.value)⟩ :: stack.drop n) >>= _
      rw [evaluateStack_node]
      unfold resume
      rw [hsplit]
      simp only [bind_assoc, pure_bind]
      refine (ensures_evaluateStack _).bind_congr fun lower hlower =>
        (ensures_evaluateStack _).bind_congr fun upper hupper => ?_
      have hlen : upper.length = n := by simpa [hn] using congrArg List.length hupper
      have hstates : (upper ++ lower).map Frame.state = stack.map Frame.state := by
        rw [List.map_append, hupper, hlower, ← List.map_append, List.take_append_drop]
      rw [← topState_eq_of_map hstates] at haction
      rw [← topState_eq_of_map hlower] at hq
      rw [run_succ_bind, step_of_reduce haction, Parser.reduce,
        Semantics.actions_ofFamily_iff.2 ⟨hrule, rfl⟩]
      simp only [List.take_left' hlen, List.drop_left' hlen, bind_assoc]
      refine bind_congr fun v => ?_
      simp [pushGoto, hq, hlen]

/-- A parse goes on from the values of its trees until it stops. -/
theorem Ends.exists_resume (ofToken : Token → α) (act : Nat → List α → m α)
    (h : Ends t (.tree rules) s r n) (hn : n ≤ fuel) :
    ∃ s' k, Relation.ReflTransGen (Moves t (.tree rules)) s s' ∧ Stops t (.tree rules) s' r ∧
      resume ofToken act t rules fuel s = resume ofToken act t rules (k + 1) s' := by
  induction h generalizing fuel with
  | stop h =>
      obtain ⟨k, rfl⟩ : ∃ k, fuel = k + 1 := ⟨fuel - 1, by omega⟩
      exact ⟨_, k, .refl, h, rfl⟩
  | move hm _ ih =>
      obtain ⟨fuel, rfl⟩ : ∃ k, fuel = k + 1 := ⟨fuel - 1, by omega⟩
      obtain ⟨s', k, hs, hstop, heq⟩ := ih (Nat.le_of_succ_le_succ hn)
      exact ⟨s', k, .head hm hs, hstop, (hm.resume_eq fuel).trans heq⟩

/-- A parse is resumed where the parse that builds trees stops. -/
theorem exists_resume_of_parseTokens (ofToken : Token → α) (act : Nat → List α → m α)
    (h : parseTokens t (.tree rules) tokens = some r) :
    ∃ s k, Relation.ReflTransGen (Moves t (.tree rules)) ([], Supply.terminated .start tokens) s ∧
      Stops t (.tree rules) s r ∧
      parseTokens t (.ofFamily ofToken act rules) tokens = resume ofToken act t rules (k + 1) s := by
  obtain ⟨n, hend⟩ := parseTokens_eq_some_iff.1 h
  obtain ⟨s, k, hmoves, hstop, heq⟩ := hend.exists_resume ofToken act
    (Nat.le_trans hend.le_stepBound (stepBound_le_enoughFuel _ _ (length_terminated_le _ _)))
  refine ⟨s, k, hmoves, hstop, ?_⟩
  rw [← heq, resume, evaluateStack, pure_bind]
  rfl

end Parser

/-- Actions evaluate the parse tree.  Take any table, and any family of actions, in any monad: they may
fail and have effects.  If a parse that builds trees makes a tree, the parse with the actions is the
evaluation of the tree: it makes the same calls in the same order, children first and from left to
right and once for each node, has the same value, and fails where the evaluation fails.  If the parse
that builds trees ends with an error about a token, the parse with the actions is the evaluation of the
trees that have been built when it stops there; then it ends with the same error, unless an action fails
before. -/
theorem parseTokens_evaluate [LawfulMonad m] (t : Table) (rules : Nat) (ofToken : Token → α)
    (act : Nat → List α → m α) (tokens : List Token) :
    (∀ T, Parser.parseTokens t (.tree rules) tokens = some (.ok T) →
      Parser.parseTokens t (.ofFamily ofToken act rules) tokens =
        (fun v => some (.ok v)) <$> T.evaluate ofToken act) ∧
    ∀ e token, Parser.parseTokens t (.tree rules) tokens = some (.error e) → e.token? = some token →
      ∃ stack rest, Relation.ReflTransGen (Parser.Moves t (.tree rules))
          ([], Supply.terminated .start tokens) (stack, token :: rest) ∧
        Parser.Stops t (.tree rules) (stack, token :: rest) (.error e) ∧
        Parser.parseTokens t (.ofFamily ofToken act rules) tokens =
          (fun _ => some (.error e)) <$>
            Tree.evaluateAll ofToken act (stack.reverse.map Parser.Frame.value) := by
  refine ⟨fun T h => ?_, fun e token h he => ?_⟩
  · obtain ⟨s, k, -, hstop, heq⟩ := Parser.exists_resume_of_parseTokens ofToken act h
    obtain ⟨f, token, rest, rfl, rfl, haction⟩ := hstop.accept
    rw [heq, Parser.resume]
    simp only [Parser.evaluateStack, pure_bind, bind_assoc, map_eq_pure_bind]
    refine bind_congr fun v => ?_
    have haccept : t.action? (Parser.topState [(⟨f.state, v⟩ : Parser.Frame α)]) token.name =
        some .accept := haction
    rw [Parser.run_succ_bind, Parser.step_of_accept haccept, pure_bind]
    rfl
  · obtain ⟨s, k, hmoves, hstop, heq⟩ := Parser.exists_resume_of_parseTokens ofToken act h
    obtain ⟨stack, rest, rfl, -⟩ := hstop.of_token he
    refine ⟨stack, rest, hmoves, hstop, ?_⟩
    rw [heq, ← Parser.values_evaluateStack, ← comp_map, map_eq_pure_bind]
    refine (Parser.ensures_evaluateStack stack).bind_congr fun st hst => ?_
    rw [Parser.run_succ_bind, Parser.step_of_token hst hstop he, pure_bind]
    rfl

/-! ## a table that was not made from a grammar -/

/-- A table for rows of `a`, one `a` at a time: production 0 appends one, and production 1 begins. -/
def countTable : Table where
  rows :=
    [Keyed.ofList [("a", .shift 1), ("E", .goto 2)],
     Keyed.ofList [("a", .reduce 1 "E" 1), (endMarker, .reduce 1 "E" 1)],
     Keyed.ofList [("a", .shift 3), (endMarker, .accept)],
     Keyed.ofList [("a", .reduce 0 "E" 2), (endMarker, .reduce 0 "E" 2)]]

/-- An action that counts, and says that it was called, but does not count further than to two. -/
def countAction (k : Nat) (values : List Nat) : StateT (List Nat) (Except String) Nat := do
  modify (· ++ [k])
  if values.sum ≤ 2 then return values.sum else throw "too many"

/-- Two are counted, the beginning first.  With four and a stray token behind them, the parse does not
get to the error at the stray token, as counting to three fails before. -/
theorem parseTokens_evaluate_count :
    (Parser.parseTokens countTable (.ofFamily (fun _ => 1) countAction 2) [rowToken, rowToken]).run [] =
      .ok (some (.ok 2), [1, 0]) ∧
    Parser.parseTokens countTable (.tree 2) [rowToken, rowToken, rowToken, rowToken, strayToken] =
      some (.error (.unexpected strayToken ["a", endMarker])) ∧
    ∃ stack : List (Parser.Frame Tree),
      (Parser.parseTokens countTable (.ofFamily (fun _ => 1) countAction 2)
        [rowToken, rowToken, rowToken, rowToken, strayToken]).run [] = .error "too many" ∧
      (Tree.evaluateAll (fun _ => 1) countAction (stack.reverse.map Parser.Frame.value)).run [] =
        .error "too many" := by
  have htree : Parser.parseTokens countTable (.tree 2) [rowToken, rowToken] =
      some (.ok (.node 0 [.node 1 [.leaf rowToken], .leaf rowToken])) := by
    simp only [Parser.parseTokens, Parser.enoughFuel, Nat.pow_eq]
    cbv
  have herror : Parser.parseTokens countTable (.tree 2)
      [rowToken, rowToken, rowToken, rowToken, strayToken] =
      some (.error (.unexpected strayToken ["a", endMarker])) := by
    simp only [Parser.parseTokens, Parser.enoughFuel, Nat.pow_eq]
    cbv
  have hfails : (Parser.parseTokens countTable (.ofFamily (fun _ => 1) countAction 2)
      [rowToken, rowToken, rowToken, rowToken, strayToken]).run [] = .error "too many" := by
    simp only [Parser.parseTokens, Parser.enoughFuel, Nat.pow_eq]
    cbv
  refine ⟨?_, herror, ?_⟩
  · rw [(parseTokens_evaluate countTable 2 (fun _ => 1) countAction _).1 _ htree]
    cbv
  · obtain ⟨stack, rest, -, -, heq⟩ :=
      (parseTokens_evaluate countTable 2 (fun _ => 1) countAction _).2 _ _ herror rfl
    refine ⟨stack, hfails, ?_⟩
    rw [heq, StateT.run_map] at hfails
    cases hvalues : (Tree.evaluateAll (fun _ => 1) countAction
        (stack.reverse.map Parser.Frame.value)).run [] with
    | error e =>
        rw [hvalues] at hfails
        exact congrArg Except.error (Except.error.inj hfails)
    | ok v =>
        rw [hvalues] at hfails
        contradiction

end Lalr
