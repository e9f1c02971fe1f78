import Lalr.Proofs.Parser.Effects
import Lalr.Proofs.Parser.Vanishing
import Mathlib.Order.WellFounded
import Mathlib.Data.Finite.Defs
import Mathlib.Data.Set.Finite.List

/-!
# Lalr.Proofs.Parser.Settling

Reductions at one lookahead end, whatever stack they start from that lies on transitions
(`settles_statesOf`).  The lookahead need not be one that can come next: it was shared by all contexts
of a state when the table was made.

By itself, one state settles: to reduce anything there, a context has to lead to it in which the
lookahead can come next.  Two states on a transition settle as well (`settles_pair`).  Where the upper one
is taken off, it was on a symbol that the reduced nonterminal wraps, and the nonterminal comes in its
place; there are finitely many nonterminals, and none wraps itself in a context that leads to the
upper state.  Then every stack settles, as the reductions of its two upper states in the end take off
both.
-/

namespace Lalr.Parser

open Construction Grammar

variable {g : Grammar} {c : Construction} {t : Table} {stack : List (Frame Unit)} {γ : List Symbol}
  {a B : Symbol} {qs qs' base X : List Nat} {q r N k : Nat}

/-- The reductions from a stack end. -/
def Settles (t : Table) (N : Nat) (a : Symbol) (qs : List Nat) : Prop :=
  ∃ n, Lasts t N a qs n

theorem Settles.of_after (h : After t N a k qs qs') (h' : Settles t N a qs') : Settles t N a qs := by
  obtain ⟨n, hlasts⟩ := h'
  exact ⟨k + n, h.lasts hlasts⟩

theorem exists_reduces_of_not_settles (h : ¬ Settles t N a qs) :
    ∃ qs', Reduces t N a qs qs' ∧ ¬ Settles t N a qs' := by
  have hone : ∃ qs', Reduces t N a qs qs' := by
    by_contra hnone
    exact h ⟨0, .stuck fun s hr => hnone ⟨s, hr⟩⟩
  obtain ⟨qs', hr⟩ := hone
  exact ⟨qs', hr, fun h' => h (h'.of_after (After.zero.succ hr))⟩

/-- Where the top of a stack settles, reductions from the whole stack that do not end come to one that
takes the top off. -/
theorem exists_take_off (h : ¬ Settles t N a (qs ++ base)) (hsettles : Settles t N a qs) :
    ∃ m X, After t N a m qs X ∧ (∀ s, ¬ Reduces t N a X s) ∧
      ∃ s, Reduces t N a (X ++ base) s ∧ ¬ Settles t N a s := by
  obtain ⟨m, hlasts⟩ := hsettles
  obtain ⟨X, hafter, hstuck⟩ := hlasts.exists_after
  refine ⟨m, X, hafter, hstuck, exists_reduces_of_not_settles fun h' => h ?_⟩
  exact h'.of_after (hafter.append base)

/-! ## stacks without values -/

/-- A token of which only the name matters. -/
def bareToken (a : Symbol) : Token := ⟨a, "", .start⟩

@[simp] theorem name_bareToken (a : Symbol) : (bareToken a).name = a := rfl

/-- A reduction puts the name of a production in the place of its symbols. -/
theorem Spells.reduces (hc : Built g c) (h : Spells g stack γ)
    (hr : Reduces c.table N a (statesOf stack) qs) :
    ∃ (d w : List Symbol) (A : Symbol) (stack' : List (Frame Unit)), γ = d ++ w ∧ g.Produces A w ∧
      Spells g stack' (d ++ [A]) ∧ statesOf stack' = qs := by
  have hr' : Reduces c.table (idle N).actions.length (bareToken a).name (statesOf stack) qs := by
    simpa using hr
  obtain ⟨stack', hm⟩ := exists_moves_of_reduces [] hr'
  have hstates : statesOf stack' = qs := hm.reduces.unique hr'
  generalize hs : (stack', [bareToken a]) = s at hm
  cases hm with
  | shift => exact absurd (congrArg (fun s => s.2.length) hs) (by simp)
  | reduce haction _ _ hgoto =>
      obtain ⟨rfl, -⟩ := Prod.mk.inj hs
      obtain ⟨d, w, hγ, -, hA, hpush⟩ := h.reduce hc haction hgoto
      exact ⟨d, w, _, _, hγ, hA, hpush _, hstates⟩

theorem Spells.after (hc : Built g c) (h : Spells g stack γ)
    (hafter : After c.table N a k (statesOf stack) qs) :
    ∃ (γ' : List Symbol) (stack' : List (Frame Unit)), Spells g stack' γ' ∧ statesOf stack' = qs := by
  generalize hs : statesOf stack = s at hafter
  induction hafter with
  | zero => exact ⟨γ, stack, h, hs⟩
  | succ _ hr ih =>
      obtain ⟨γ', stack', hstack', rfl⟩ := ih hs
      obtain ⟨d, w, A, stack'', -, -, hstack'', hstates⟩ := hstack'.reduces hc hr
      exact ⟨_, stack'', hstack'', hstates⟩

theorem Spells.length_statesOf (h : Spells g stack γ) : (statesOf stack).length = γ.length + 1 := by
  rw [Parser.length_statesOf, Justified.length_eq h]

/-! ## one state -/

theorem settles_singleton (hc : Built g c) (hN : g.rules.length ≤ N) (q : Nat) :
    Settles c.table N a [q] := by
  by_contra h
  obtain ⟨qs, hr, -⟩ := exists_reduces_of_not_settles h
  obtain ⟨k, A, n, s, r, below, haction, -, hdrop, -⟩ := hr.exists_action
  obtain rfl : n = 0 := by
    cases n with
    | zero => rfl
    | succ n => simp at hdrop
  obtain ⟨p, d, tail, hk, rfl, hlen, ht, hctx, hw, hb⟩ := hc.exists_context_of_action? haction
  have hp : p.symbols = [] := List.length_eq_zero_iff.1 hlen.symm
  have hrule : g.HasProduction ⟨p.name, [] ++ []⟩ := by
    rw [List.nil_append, ← hp]
    exact .inr (List.mem_of_getElem? hk)
  rw [hp, List.append_nil] at hw
  obtain ⟨stack, hstack⟩ := exists_spells hw
  obtain ⟨n, hlasts⟩ : ∃ n,
      Lasts c.table (idle N).actions.length (bareToken a).name (statesOf stack) n :=
    exists_lasts_of_context hc (by simpa using hN) hctx hrule (by simpa using hstack) ht hb
  obtain ⟨base, hbase⟩ := statesOf_eq_cons stack
  rw [Justified.walk_eq hstack] at hw
  rw [hbase, Option.some.inj hw, length_actions_idle, ← List.singleton_append] at hlasts
  obtain ⟨m, -, hlasts'⟩ := hlasts.of_append
  exact h ⟨m, hlasts'⟩

/-! ## two states -/

/-- What reductions put on a stack without taking anything off vanishes. -/
theorem exists_vanishing_of_after (hc : Built g c) (hstack : Spells g stack γ)
    (hstates : statesOf stack = r :: base) (h : After c.table N a k [r] X) :
    ∃ (v : List Symbol) (stack' : List (Frame Unit)), g.Vanishes v ∧ Spells g stack' (γ ++ v) ∧
      statesOf stack' = X ++ base := by
  have hbase := hstack.length_statesOf
  rw [hstates, List.length_cons] at hbase
  generalize hr : [r] = qs at h
  induction h with
  | zero =>
      subst hr
      exact ⟨[], stack, .nil, by simpa using hstack, hstates⟩
  | succ _ hred ih =>
      obtain ⟨v, stack', hv, hstack', hstates'⟩ := ih hr
      obtain ⟨d, w, A, stack'', hsplit, hA, hstack'', hstates''⟩ :=
        hstack'.reduces hc (hstates' ▸ hred.append base)
      -- The symbols of the production are the last ones of what vanishes.
      have hlen := hstack''.length_statesOf
      rw [hstates'', List.length_append, List.length_append, List.length_singleton] at hlen
      have htwo := hred.two_le_length
      obtain ⟨v', rfl, rfl⟩ : ∃ v', d = γ ++ v' ∧ v = v' ++ w := by
        rcases List.append_eq_append_iff.1 hsplit with hd | ⟨w', rfl, rfl⟩
        · exact hd
        · rw [List.length_append] at hbase
          obtain rfl : w' = [] := List.length_eq_zero_iff.1 (by omega)
          exact ⟨[], by simp, by simp⟩
      obtain ⟨hv', hw⟩ := hv.of_append
      exact ⟨v' ++ [A], stack'', hv'.append (.cons hA hw .nil), by simpa using hstack'', hstates''⟩

/-- Reductions of two states that do not end come to one that takes the upper state off.  What is
reduced then wraps the symbol that led there. -/
theorem exists_wrapped (hc : Built g c) (hN : g.rules.length ≤ N)
    (ht : (automatonOf g).target? q B = some r) (h : ¬ Settles c.table N a [r, q]) :
    ∃ A r', g.Wrapped B A ∧ (automatonOf g).target? q A = some r' ∧
      ¬ Settles c.table N a [r', q] := by
  obtain ⟨γ, hγ⟩ := Automaton.exists_walk_of_target ht
  obtain ⟨stack, hstack⟩ := exists_spells hγ
  obtain rfl := Option.some.inj ((Justified.walk_eq hstack).symm.trans hγ)
  obtain ⟨base, hbase⟩ := statesOf_eq_cons stack
  have hpush := hstack.push () ht
  rw [← List.singleton_append] at h
  obtain ⟨m, X, hafter, hstuck, s, hred, hs⟩ := exists_take_off h (settles_singleton hc hN r)
  obtain ⟨v, stack', hv, hstack', hstates'⟩ :=
    exists_vanishing_of_after hc hpush (statesOf_cons _ _) hafter
  rcases hred.of_append (hafter.ne_nil (List.cons_ne_nil _ _)) with ⟨X', hX', -⟩ | ⟨r', j, hj, rfl⟩
  · exact absurd hX' (hstuck X')
  · obtain rfl : j = 0 := by simpa using hj
    have hred' := hred.append base
    rw [List.append_assoc, List.singleton_append, ← hbase, ← hstates'] at hred'
    obtain ⟨d, w, A, stack'', hsplit, hA, hstack'', hstates''⟩ := hstack'.reduces hc hred'
    have hlen := hstack''.length_statesOf
    have hlen' := hstack.length_statesOf
    rw [hstates''] at hlen
    rw [hbase] at hlen'
    simp only [List.length_append, List.length_cons, List.length_drop, List.length_nil] at hlen hlen'
    rw [List.append_assoc] at hsplit
    obtain ⟨rfl, rfl⟩ := List.append_inj hsplit (by omega)
    have hw := Justified.walk_eq hstack''
    rw [Automaton.walk?_snoc, Justified.walk_eq hstack] at hw
    obtain ⟨below, hbelow⟩ := statesOf_eq_cons stack''
    obtain ⟨htop, -⟩ := List.cons.inj (hbelow.symm.trans hstates'')
    exact ⟨A, r', ⟨v, hA, hv⟩, htop ▸ hw, hs⟩

/-- The symbol of a state that does not settle on another one does not wrap itself. -/
theorem not_wrapped_self (hc : Built g c) (hN : g.rules.length ≤ N)
    (ht : (automatonOf g).target? q B = some r) (h : ¬ Settles c.table N a [r, q]) :
    ¬ Relation.TransGen g.Wrapped B B := by
  obtain ⟨s, hr, -⟩ := exists_reduces_of_not_settles h
  obtain ⟨k, A, n, _, _, _, haction, -⟩ := hr.exists_action
  obtain ⟨p, d, tail, hk, rfl, -, hterm, hctx, hw, hb⟩ := hc.exists_context_of_action? haction
  obtain ⟨γ, hγ⟩ := Automaton.exists_eq_snoc hc.wellFormed ht hw
  have hawaits := hctx.awaits_last hc.wellFormed (List.mem_of_getElem? hk) hγ hb
  obtain ⟨stack, hstack⟩ := exists_spells (hγ ▸ hw)
  exact not_transGen_wrapped (idle N) (bareToken a) hc (by simpa using hN) hawaits hstack hterm

theorem settles_pair (hc : Built g c) (hN : g.rules.length ≤ N)
    (ht : (automatonOf g).target? q B = some r) : Settles c.table N a [r, q] := by
  by_contra h
  -- Among the symbols of states that do not settle on this one, each is wrapped in another one.
  let P (B : Symbol) : Prop :=
    ∃ r, (automatonOf g).target? q B = some r ∧ ¬ Settles c.table N a [r, q]
  let R (A B : {B // P B}) : Prop := Relation.TransGen g.Wrapped B.1 A.1
  have hfinite : Finite {B // P B} := by
    refine ((g.terminalNames ++ g.nonterminalNames).finite_toSet.subset ?_).to_subtype
    rintro B ⟨r, ht, -⟩
    exact List.mem_append.2 (Automaton.visible_of_target hc.wellFormed ht)
  have htrans : IsTrans _ R := ⟨fun _ _ _ h₁ h₂ => h₂.trans h₁⟩
  have hirrefl : Std.Irrefl R := ⟨fun ⟨B, r, ht, h⟩ => not_wrapped_self hc hN ht h⟩
  obtain ⟨⟨B', r', ht', h'⟩, -, hmin⟩ := (Finite.wellFounded_of_trans_of_irrefl R).has_min Set.univ
    ⟨⟨B, r, ht, h⟩, trivial⟩
  obtain ⟨A, s, hA, hs, hA'⟩ := exists_wrapped hc hN ht' h'
  exact hmin ⟨A, s, hs, hA'⟩ trivial (.single hA)

/-! ## all states of a stack -/

/-- From every stack that spells a string, reductions end. -/
theorem settles_statesOf (hc : Built g c) (hN : g.rules.length ≤ N) (hstack : Spells g stack γ) :
    Settles c.table N a (statesOf stack) := by
  generalize hn : stack.length = n
  induction n using Nat.strong_induction_on generalizing stack γ with
  | _ n ih =>
      subst hn
      cases stack with
      | nil => exact settles_singleton hc hN 0
      | cons f below =>
          by_contra h
          obtain ⟨X, ht⟩ := Justified.of_cons hstack
          obtain ⟨base, hbase⟩ := statesOf_eq_cons below
          have hstates : statesOf (f :: below) = [f.state, topState below] ++ base := by
            rw [statesOf_cons, hbase]
            rfl
          rw [hstates] at h
          obtain ⟨m, Z, hafter, hstuck, s, hred, hs⟩ := exists_take_off h (settles_pair hc hN ht)
          rcases hred.of_append (hafter.ne_nil (List.cons_ne_nil _ _)) with
            ⟨Z', hZ', -⟩ | ⟨r, j, hj, rfl⟩
          · exact hstuck Z' hZ'
          · obtain ⟨γ', stack', hstack', hstates'⟩ :=
              hstack.after hc (hstates ▸ (hafter.append base).succ hred)
            -- Both states are gone, and one has come.
            have hlen := length_statesOf stack'
            have hlen' := length_statesOf below
            rw [hstates', List.length_cons, List.length_drop] at hlen
            rw [hbase, List.length_cons] at hlen'
            have hlt : stack'.length < (f :: below).length := by
              rw [List.length_cons]
              omega
            exact hs (hstates' ▸ ih _ hlt hstack' rfl)

end Lalr.Parser
