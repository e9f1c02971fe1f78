import Lalr.Proofs.Parser.Fuel
import Lalr.Proofs.Parser.Progress

/-!
# Lalr.Proofs.Parser.Vanishing

Reductions that read nothing, in a context where the token that is looked at can come next.

Whatever vanishes is made in front of the token (`exists_moves_vanishing`), so that a symbol becomes the
nonterminal that puts nothing else around it, and then the next one (`exists_after_wrapped`).  But in
such a context the machine handles the token in the end (`exists_lasts_of_context`).  Hence no symbol
is wrapped in itself there (`not_transGen_wrapped`).
-/

namespace Lalr

namespace Grammar

variable {g : Grammar} {v v' w γ d tail u : List Symbol} {A B X a : Symbol}

/-- A string whose symbols all derive the empty string. -/
inductive Vanishes (g : Grammar) : List Symbol → Prop
  | nil : Vanishes g []
  | cons {A : Symbol} {w rest : List Symbol} (hA : g.Produces A w) (hw : Vanishes g w)
      (hrest : Vanishes g rest) : Vanishes g (A :: rest)

/-- A production of a nonterminal puts nothing around a symbol but what vanishes behind it. -/
def Wrapped (g : Grammar) (X A : Symbol) : Prop :=
  ∃ v, g.Produces A (X :: v) ∧ g.Vanishes v

/-- A string is the beginning of a production in a context, in front of a symbol; what is still to come
behind the symbol can begin with a lookahead. -/
def Awaits (g : Grammar) (a : Symbol) (γ : List Symbol) (X : Symbol) : Prop :=
  ∃ d B b r tail, γ = d ++ b ∧ g.Context d B tail ∧ g.HasProduction ⟨B, b ++ X :: r⟩ ∧
    g.Produces.Begins (r ++ tail) [a]

theorem Produces.hasProduction (h : g.Produces A w) : g.HasProduction ⟨A, w⟩ := .inr h

theorem Vanishes.append (h : g.Vanishes v) (h' : g.Vanishes v') : g.Vanishes (v ++ v') := by
  induction h with
  | nil => exact h'
  | cons hA hw _ _ ih => exact .cons hA hw ih

theorem Vanishes.of_append (h : g.Vanishes (v ++ v')) : g.Vanishes v ∧ g.Vanishes v' := by
  induction v with
  | nil => exact ⟨.nil, h⟩
  | cons A v ih =>
      cases h with
      | cons hA hw hrest =>
          obtain ⟨hv, hv'⟩ := ih hrest
          exact ⟨.cons hA hw hv, hv'⟩

/-- What vanishes hides nothing of what comes behind it. -/
theorem Vanishes.begins (h : g.Vanishes v) (hu : g.Produces.Begins w u) :
    g.Produces.Begins (v ++ w) u := by
  induction h generalizing w with
  | nil => exact hu
  | cons hA _ _ ihw ihrest => exact .expand hA (ihw (ihrest hu))

/-- What stands around a nonterminal stands around what it wraps. -/
theorem Awaits.of_wrapped (h : g.Awaits a γ A) (hX : g.Wrapped X A) : g.Awaits a γ X := by
  obtain ⟨d, B, b, r, tail, rfl, hctx, hB, hb⟩ := h
  obtain ⟨v, hA, hv⟩ := hX
  exact ⟨d ++ b, A, [], v, r ++ tail, by simp, hctx.step hB, hA.hasProduction, hv.begins hb⟩

/-- The last symbol in front of a context is awaited in a context around it. -/
theorem Context.awaits (hg : g.WellFormed) (h : g.Context d A tail) (hd : d = γ ++ [X])
    (hb : g.Produces.Begins (A :: tail) [a]) : g.Awaits a γ X := by
  induction h generalizing γ X with
  | start => simp at hd
  | @step d₀ tail b r B A hctx hB ih =>
      rcases List.eq_nil_or_concat b with rfl | ⟨b', Y, rfl⟩
      · rw [List.append_nil] at hd
        have hne : B ≠ startSymbol := by
          rintro rfl
          have := (hctx.eq_start hg).1
          simp [hd] at this
        have hmem : g.Produces B (A :: r) := hg.mem_productionList hB hne
        exact ih hd (.expand hmem hb)
      · rw [List.concat_eq_append, ← List.append_assoc] at hd
        obtain ⟨rfl, hY⟩ := List.append_inj' hd rfl
        obtain rfl : Y = X := by simpa using hY
        refine ⟨d₀, B, b', A :: r, tail, rfl, hctx, ?_, hb⟩
        simpa using hB

/-- The last symbol of a production in a context, or in front of an empty one, is awaited. -/
theorem Context.awaits_last (hg : g.WellFormed) (h : g.Context d A tail) (hA : g.Produces A w)
    (hγ : d ++ w = γ ++ [X]) (hb : g.Produces.Begins tail [a]) : g.Awaits a γ X := by
  rcases List.eq_nil_or_concat w with rfl | ⟨w', Y, rfl⟩
  · rw [List.append_nil] at hγ
    exact h.awaits hg hγ (.expand hA hb)
  · rw [List.concat_eq_append, ← List.append_assoc] at hγ
    obtain ⟨rfl, hY⟩ := List.append_inj' hγ rfl
    obtain rfl : Y = X := by simpa using hY
    exact ⟨d, A, w', [], tail, rfl, h, by simpa using hA.hasProduction, hb⟩

end Grammar

namespace Parser

open Construction Grammar

variable {α : Type} {g : Grammar} {c : Construction} {sem : Semantics Id α}
  {stack stack' : List (Frame α)} {token : Token} {v b r d tail γ : List Symbol} {A B X : Symbol}

/-! ## stacks of one string -/

/-- Stacks that spell one string go through the same states. -/
theorem Spells.states_eq {β : Type} {stack' : List (Frame β)} (h : Spells g stack γ)
    (h' : Spells g stack' γ) : statesOf stack = statesOf stack' := by
  induction γ using List.reverseRecOn generalizing stack stack' with
  | nil =>
      rw [List.length_eq_zero_iff.1 (Justified.length_eq h),
        List.length_eq_zero_iff.1 (Justified.length_eq h')]
      rfl
  | append_singleton γ X ih =>
      have htop := Justified.walk_eq h
      rw [Justified.walk_eq h'] at htop
      have hdrop := ih (h.drop (b := [X])) (h'.drop (b := [X]))
      obtain ⟨f, stack, rfl⟩ := List.exists_cons_of_length_pos
        (show 0 < stack.length by rw [Justified.length_eq h]; simp)
      obtain ⟨f', stack', rfl⟩ := List.exists_cons_of_length_pos
        (show 0 < stack'.length by rw [Justified.length_eq h']; simp)
      exact congrArg₂ List.cons (Option.some.inj htop.symm) hdrop

/-! ## moves of the machine -/

/-- A move that consumes no token is a reduction. -/
theorem Moves.reduces {t : Table} {rest : List Token}
    (h : Moves t sem (stack, token :: rest) (stack', token :: rest)) :
    Reduces t sem.actions.length token.name (statesOf stack) (statesOf stack') := by
  generalize hs : (stack', token :: rest) = s at h
  cases h with
  | shift => exact absurd (congrArg (fun s => s.2.length) hs) (by simp)
  | reduce haction hk hn hq =>
      obtain ⟨rfl, -⟩ := Prod.mk.inj hs
      exact reduces_statesOf haction hk hn hq

/-- Moves that consume no token are reductions in a row. -/
theorem exists_after_of_moves {t : Table} {rest : List Token}
    (h : Relation.ReflTransGen (Moves t sem) (stack, token :: rest) (stack', token :: rest)) :
    ∃ k, After t sem.actions.length token.name k (statesOf stack) (statesOf stack') := by
  generalize hs : (stack, token :: rest) = s at h
  induction h using Relation.ReflTransGen.head_induction_on generalizing stack with
  | refl =>
      obtain ⟨rfl, -⟩ := Prod.mk.inj hs
      exact ⟨0, .zero⟩
  | head hm hms ih =>
      subst hs
      cases hm with
      | shift => exact absurd (length_le_of_moves hms) (by simp)
      | reduce haction hk hn hq =>
          obtain ⟨k, hafter⟩ := ih rfl
          exact ⟨k + 1, hafter.prepend (reduces_statesOf haction hk hn hq)⟩

/-- In front of a token that can come next, what vanishes is reduced. -/
theorem exists_moves_vanishing (hc : Built g c) (hsem : g.rules.length ≤ sem.actions.length)
    (hv : g.Vanishes v) (hctx : g.Context d B tail) (hB : g.HasProduction ⟨B, b ++ (v ++ r)⟩)
    (hstack : Spells g stack (d ++ b)) (ht : token.name ∈ g.terminalNames ∨ token.name = endMarker)
    (hb : g.Produces.Begins (r ++ tail) [token.name]) (rest : List Token) :
    ∃ stack', Relation.ReflTransGen (Moves c.table sem) (stack, token :: rest)
      (stack', token :: rest) ∧ Spells g stack' (d ++ (b ++ v)) := by
  induction hv generalizing d B b r tail stack with
  | nil => exact ⟨stack, .refl, by simpa using hstack⟩
  | @cons A w v hA hw hv ihw ihv =>
      have hnext : g.Produces.Begins ((v ++ r) ++ tail) [token.name] := by
        rw [List.append_assoc]
        exact hv.begins hb
      obtain ⟨stack₁, hmoves₁, hstack₁⟩ := ihw (b := []) (r := []) (hctx.step hB)
        (by simpa using hA.hasProduction) (by simpa using hstack) hnext
      obtain ⟨stack₂, hmove, hstack₂⟩ := exists_moves_reduce hc hsem hctx hB hA.hasProduction
        (by simpa using hstack₁) ht hnext rest
      obtain ⟨stack₃, hmoves₃, hstack₃⟩ := ihv (b := b ++ [A]) hctx (by simpa using hB) hstack₂ hb
      exact ⟨stack₃, (hmoves₁.tail hmove).trans hmoves₃, by simpa using hstack₃⟩

/-- Behind the symbol that an awaited nonterminal wraps, the machine makes the nonterminal. -/
theorem exists_after_wrapped (hc : Built g c) (hsem : g.rules.length ≤ sem.actions.length)
    (hX : Relation.TransGen g.Wrapped X A) (hA : g.Awaits token.name γ A)
    (hstack : Spells g stack (γ ++ [X]))
    (ht : token.name ∈ g.terminalNames ∨ token.name = endMarker) :
    g.Awaits token.name γ X ∧ ∃ k, ∃ stack' : List (Frame α),
      After c.table sem.actions.length token.name (k + 1) (statesOf stack) (statesOf stack') ∧
        Spells g stack' (γ ++ [A]) := by
  have hone {B A : Symbol} {stack : List (Frame α)} (hB : g.Wrapped B A)
      (hA : g.Awaits token.name γ A) (hstack : Spells g stack (γ ++ [B])) : ∃ k, ∃ stack' : List (Frame α),
        After c.table sem.actions.length token.name (k + 1) (statesOf stack) (statesOf stack') ∧
          Spells g stack' (γ ++ [A]) := by
    obtain ⟨d, C, b, r, tail, rfl, hctx, hC, hb⟩ := hA
    obtain ⟨v, hrule, hv⟩ := hB
    obtain ⟨stack₁, hmoves, hstack₁⟩ := exists_moves_vanishing hc hsem (b := [B]) (r := []) hv
      (hctx.step hC) (by simpa using hrule.hasProduction) hstack ht hb []
    obtain ⟨stack₂, hmove, hstack₂⟩ := exists_moves_reduce hc hsem hctx hC hrule.hasProduction
      (by simpa using hstack₁) ht hb []
    obtain ⟨k, hafter⟩ := exists_after_of_moves hmoves
    exact ⟨k, stack₂, hafter.succ hmove.reduces, by simpa using hstack₂⟩
  induction hX with
  | single hX => exact ⟨hA.of_wrapped hX, hone hX hA hstack⟩
  | tail _ hB ih =>
      obtain ⟨hawaits, k, stack₁, hafter₁, hstack₁⟩ := ih (hA.of_wrapped hB)
      obtain ⟨m, stack₂, hafter₂, hstack₂⟩ := hone hB hA hstack₁
      exact ⟨hawaits, k + 1 + m, stack₂, hafter₁.trans hafter₂, hstack₂⟩

/-! ## what can be handled is -/

/-- In front of a token that can come next, reductions end. -/
theorem exists_lasts_of_context (hc : Built g c) (hsem : g.rules.length ≤ sem.actions.length)
    (hctx : g.Context d B tail) (hB : g.HasProduction ⟨B, b ++ r⟩) (hstack : Spells g stack (d ++ b))
    (ht : token.name ∈ g.terminalNames ∨ token.name = endMarker)
    (hb : g.Produces.Begins (r ++ tail) [token.name]) :
    ∃ n, Lasts c.table sem.actions.length token.name (statesOf stack) n := by
  have htoken : [token.name] = ([] : List Token).map Token.name ++ [token.name] := rfl
  obtain ⟨stack', hmoves, hhandles⟩ := exists_handles hc hsem hb rfl hctx hB hstack htoken
    (by simp) ht []
  obtain ⟨k, hafter⟩ := exists_after_of_moves hmoves
  refine ⟨k + 0, hafter.lasts (.stuck fun qs hr => ?_)⟩
  obtain ⟨below, hbelow⟩ := statesOf_eq_cons stack'
  rw [hbelow] at hr
  obtain ⟨_, _, _, _, _, _, haction, -⟩ := hr.exists_action
  rcases hhandles with ⟨q, hshift⟩ | haccept
  · exact absurd (hshift.symm.trans haction) (by simp)
  · exact absurd (haccept.symm.trans haction) (by simp)

/-- What is awaited does not wrap itself: the machine would make it again and again. -/
theorem not_transGen_wrapped (sem : Semantics Id α) (token : Token) (hc : Built g c)
    (hsem : g.rules.length ≤ sem.actions.length)
    (hX : g.Awaits token.name γ X) (hstack : Spells g stack (γ ++ [X]))
    (ht : token.name ∈ g.terminalNames ∨ token.name = endMarker) :
    ¬ Relation.TransGen g.Wrapped X X := by
  intro hcycle
  obtain ⟨-, k, stack', hafter, hstack'⟩ := exists_after_wrapped hc hsem hcycle hX hstack ht
  obtain ⟨d, B, b, r, tail, rfl, hctx, hB, hb⟩ := hX
  obtain ⟨n, hlasts⟩ := exists_lasts_of_context (b := b ++ [X]) hc hsem hctx (by simpa using hB)
    (by simpa using hstack) ht hb
  rw [← hstack.states_eq hstack'] at hafter
  exact absurd (hafter.eq_zero hlasts) (Nat.succ_ne_zero k)

end Parser

end Lalr
