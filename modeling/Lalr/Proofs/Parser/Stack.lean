import Lalr.Proofs.Construction
import Lalr.Proofs.Parser.Run

/-!
# Lalr.Proofs.Parser.Stack

What the stack of a parse stands for.  Every frame lies on a transition of the automaton, and its value
was made for the transition's symbol from some of the tokens that have been consumed; together the
frames account for all of them (`Justified`).

No move breaks that, provided values are made as they should be (`Respects`).  What "made for a symbol
from some tokens" means is left open: soundness takes it as being a parse tree, and the detection of
errors as derivability.
-/

namespace Lalr.Parser

variable {α : Type} {g : Grammar} {c : Construction} {a : Automaton} {sem : Semantics Id α}
  {V : Symbol → α → List Token → Prop} {stack : List (Frame α)} {token : Token}
  {rest total y u : List Token} {γ d w : List Symbol} {X : Symbol} {vs : List α}
  {s s' : List (Frame α) × List Token} {v : α}

/-- Values made for the symbols of a string, one for each, from consecutive tokens. -/
inductive Values (V : Symbol → α → List Token → Prop) :
    List Symbol → List α → List Token → Prop
  | nil : Values V [] [] []
  | cons {X : Symbol} {w : List Symbol} {v : α} {vs : List α} {y u : List Token} (hv : V X v y)
      (h : Values V w vs u) : Values V (X :: w) (v :: vs) (y ++ u)

/-- The stack spells a string: its frames lie on transitions, and hold values made for the symbols of
the string from consecutive tokens. -/
inductive Justified (a : Automaton) (V : Symbol → α → List Token → Prop) :
    List (Frame α) → List Symbol → List Token → Prop
  | nil : Justified a V [] [] []
  | push {stack : List (Frame α)} {f : Frame α} {γ : List Symbol} {X : Symbol} {y u : List Token}
      (h : Justified a V stack γ y) (ht : a.target? (topState stack) X = some f.state)
      (hv : V X f.value u) : Justified a V (f :: stack) (γ ++ [X]) (y ++ u)

/-- Values are made as they should be. -/
structure Respects (g : Grammar) (sem : Semantics Id α) (V : Symbol → α → List Token → Prop) :
    Prop where
  token : ∀ token : Token, token.name ∈ g.terminalNames → V token.name (sem.ofToken token) [token]
  action : ∀ (k : Nat) (p : Production) (f : List α → Id α) (vs : List α) (u : List Token),
    g.productionList[k]? = some p → sem.actions[k]? = some f → Values V p.symbols vs u →
      V p.name (f vs).run u

/-! ## the string that a stack spells -/

theorem Justified.length_eq (h : Justified a V stack γ y) : stack.length = γ.length := by
  induction h with
  | nil => rfl
  | push _ _ _ ih => simp [ih]

/-- The string leads to the state on top. -/
theorem Justified.walk_eq (h : Justified a V stack γ y) : a.walk? 0 γ = some (topState stack) := by
  induction h with
  | nil => rfl
  | push _ ht _ ih =>
      rw [Automaton.walk?_snoc, ih]
      exact ht

/-- The frame on top lies on a transition from the state below. -/
theorem Justified.of_cons {f : Frame α} (h : Justified a V (f :: stack) γ y) :
    ∃ X, a.target? (topState stack) X = some f.state := by
  cases h with
  | push _ ht _ => exact ⟨_, ht⟩

theorem Values.snoc (h : Values V w vs u) (hv : V X v y) :
    Values V (w ++ [X]) (vs ++ [v]) (u ++ y) := by
  induction h with
  | nil => simpa using Values.cons hv .nil
  | cons hv' _ ih =>
      rw [List.append_assoc]
      exact .cons hv' ih

/-- The frames of the last symbols of the string are on top. -/
theorem Justified.split (h : Justified a V stack (d ++ w) y) :
    ∃ y₁ u, y = y₁ ++ u ∧ Justified a V (stack.drop w.length) d y₁ ∧
      Values V w ((stack.take w.length).reverse.map Frame.value) u := by
  induction w using List.reverseRecOn generalizing stack y with
  | nil => exact ⟨y, [], by simp, by simpa using h, .nil⟩
  | append_singleton w X ih =>
      generalize hγ : d ++ (w ++ [X]) = γ at h
      cases h with
      | nil => simp at hγ
      | @push stack f γ Y y u h ht hv =>
          rw [← List.append_assoc] at hγ
          obtain ⟨rfl, hXY⟩ := List.append_inj' hγ rfl
          obtain rfl : X = Y := by simpa using hXY
          obtain ⟨y₁, u', rfl, hdrop, hvalues⟩ := ih h
          refine ⟨y₁, u' ++ u, by simp, by simpa using hdrop, ?_⟩
          simpa using hvalues.snoc hv

theorem Justified.of_singleton (h : Justified a V stack [X] y) :
    ∃ f, stack = [f] ∧ V X f.value y := by
  obtain ⟨f, rfl⟩ := List.length_eq_one_iff.1 h.length_eq
  obtain ⟨y₁, u, rfl, hdrop, hvalues⟩ := Justified.split (d := []) (w := [X]) h
  refine ⟨f, rfl, ?_⟩
  cases hdrop with
  | nil =>
      cases hvalues with
      | cons hv hnil =>
          cases hnil with
          | nil => simpa using hv

/-! ## moves -/

/-- What holds between two moves on the tokens of a parse. -/
def Sensible (g : Grammar) (V : Symbol → α → List Token → Prop) (total : List Token)
    (s : List (Frame α) × List Token) : Prop :=
  ∃ γ y, Justified (Construction.automatonOf g) V s.1 γ y ∧ y ++ s.2 = total ∧
    ∀ token ∈ y, token.name ∈ g.terminalNames

theorem sensible_initial (input : List Token) : Sensible g V input ([], input) :=
  ⟨[], [], .nil, rfl, by simp⟩

/-- Where a production is reduced, the string that the stack spells ends with its symbols. -/
theorem Justified.exists_eq_append (hg : g.WellFormed)
    (h : Justified (Construction.automatonOf g) V stack γ y) {p : Production}
    (hp : (Construction.automatonOf g).Holds (topState stack) ⟨p, p.length⟩) :
    ∃ d tail, γ = d ++ p.symbols ∧ g.Context d p.name tail ∧ g.HasProduction p := by
  obtain ⟨d, tail, hctx, hprod, -, rfl⟩ :=
    (Grammar.validItem_iff hg).1 (Automaton.validItem_of_holds hg h.walk_eq hp)
  exact ⟨d, tail, by rw [Production.length, List.take_length], hctx, hprod⟩

theorem holds_of_reduces {q : Nat} {t : Symbol} {p : Production}
    (h : Construction.Built.Reduces g c q t p) :
    (Construction.automatonOf g).Holds q ⟨p, p.length⟩ := by
  obtain ⟨e, he, hw, -⟩ := h
  exact he.completed hw

/-- A move keeps the stack justified. -/
theorem Sensible.moves (hc : Construction.Built g c) (hV : Respects g sem V)
    (h : Sensible g V total s) (hm : Moves c.table sem s s') : Sensible g V total s' := by
  obtain ⟨γ, y, hstack, htotal, hnames⟩ := h
  cases hm with
  | @shift stack token rest q haction =>
      obtain ⟨ht, hterm⟩ := hc.shift_iff.1 haction
      refine ⟨γ ++ [token.name], y ++ [token], hstack.push ht (hV.token token hterm), ?_, ?_⟩
      · rw [← htotal, List.append_assoc]
        rfl
      · intro tok htok
        rcases List.mem_append.1 htok with htok | htok
        · exact hnames tok htok
        · exact List.mem_singleton.1 htok ▸ hterm
  | @reduce stack token rest k n q A f haction hk hn hq =>
      obtain ⟨p, hp, rfl, rfl, hreduces⟩ := hc.reduce_iff.1 haction
      obtain ⟨d, tail, rfl, -, -⟩ :=
        hstack.exists_eq_append hc.wellFormed (holds_of_reduces hreduces)
      obtain ⟨y₁, u, rfl, hdrop, hvalues⟩ := hstack.split
      exact ⟨d ++ [p.name], y₁ ++ u, hdrop.push (hc.goto_iff.1 hq).1 (hV.action k p f _ u hp hk hvalues),
        htotal, hnames⟩

theorem Sensible.of_moves (hc : Construction.Built g c) (hV : Respects g sem V)
    (h : Sensible g V total s) (hm : Relation.ReflTransGen (Moves c.table sem) s s') :
    Sensible g V total s' := by
  induction hm with
  | refl => exact h
  | tail _ hm ih => exact ih.moves hc hV hm

/-- Where the input is accepted, the stack spells the start symbol. -/
theorem Justified.eq_start (hc : Construction.Built g c)
    (h : Justified (Construction.automatonOf g) V stack γ y) {t : Symbol}
    (haction : c.table.action? (topState stack) t = some .accept) : γ = [g.start] := by
  have hg := hc.wellFormed
  obtain ⟨htarget, -⟩ := hc.accept_iff.1 haction
  have hzero : (Construction.automatonOf g).Holds 0 (.fresh (Construction.startProduction g)) :=
    Automaton.holds_zero_iff.2 (.seed (List.mem_singleton_self _))
  have hsymbols : (Construction.startProduction g).symbols = [g.start] := by
    rw [hg.startProduction_eq]
  have hdone := hzero.completed (t := topState stack) (by
    rw [hsymbols, Automaton.walk?_singleton, htarget])
  obtain ⟨d, tail, rfl, hctx, -⟩ := h.exists_eq_append hg hdone
  rw [show (Construction.startProduction g).name = startSymbol by rw [hg.startProduction_eq]] at hctx
  obtain ⟨rfl, -⟩ := hctx.eq_start hg
  exact hsymbols

/-- An accepted input has one value, made for the start symbol from all tokens before the end. -/
theorem Sensible.of_accept (hc : Construction.Built g c) (h : Sensible g V total (stack, token :: rest))
    (haction : c.table.action? (topState stack) token.name = some .accept) :
    ∃ f y, stack = [f] ∧ V g.start f.value y ∧ total = y ++ token :: rest ∧
      token.name = endMarker ∧ ∀ tok ∈ y, tok.name ∈ g.terminalNames := by
  obtain ⟨γ, y, hstack, htotal, hnames⟩ := h
  obtain rfl := hstack.eq_start hc haction
  obtain ⟨f, rfl, hv⟩ := hstack.of_singleton
  exact ⟨f, y, rfl, hv, htotal.symm, (hc.accept_iff.1 haction).2, hnames⟩

end Lalr.Parser
