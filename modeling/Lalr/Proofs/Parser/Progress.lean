import Lalr.Proofs.Lookahead
import Lalr.Proofs.Parser.Stack

/-!
# Lalr.Proofs.Parser.Progress

The machine does not stop before a token that could still be part of a sentence (`exists_handles`).

What can still come is the rest of a production with what is still to come in its context.  If that
begins with the next tokens, the machine can shift the first of them, or first reduce productions whose
rest has vanished until it can (`exists_climb`).  The reductions climb through the context and leave
what is still to come as it is.
-/

namespace Lalr.Parser

open Construction

variable {α : Type} {g : Grammar} {c : Construction} {sem : Semantics Id α} {stack : List (Frame α)}
  {token : Token} {rest us : List Token} {γ d b r u tail : List Symbol} {A B X : Symbol}

/-- The frames of a stack lie on transitions, along a string. -/
def Spells (g : Grammar) (stack : List (Frame α)) (γ : List Symbol) : Prop :=
  Justified (automatonOf g) (fun _ _ _ => True) stack γ []

theorem spells_nil : Spells g ([] : List (Frame α)) [] := .nil

theorem Spells.push (h : Spells g stack γ) {q : Nat} (v : α)
    (ht : (automatonOf g).target? (topState stack) X = some q) :
    Spells g (⟨q, v⟩ :: stack) (γ ++ [X]) :=
  Justified.push (f := ⟨q, v⟩) (u := []) h ht trivial

theorem Spells.drop (h : Spells g stack (d ++ b)) : Spells g (stack.drop b.length) d := by
  obtain ⟨y₁, u, hy, hdrop, -⟩ := Justified.split h
  obtain ⟨rfl, -⟩ := List.append_eq_nil_iff.1 hy.symm
  exact hdrop

theorem Spells.length_le (h : Spells g stack (d ++ b)) : b.length ≤ stack.length := by
  rw [Justified.length_eq h, List.length_append]
  exact Nat.le_add_left _ _

/-- Every string that leads somewhere is spelled by a stack. -/
theorem exists_spells {q : Nat} (h : (automatonOf g).walk? 0 γ = some q) :
    ∃ stack : List (Frame Unit), Spells g stack γ := by
  induction γ using List.reverseRecOn generalizing q with
  | nil => exact ⟨[], spells_nil⟩
  | append_singleton γ X ih =>
      rw [Automaton.walk?_snoc] at h
      obtain ⟨p, hp, ht⟩ := Option.bind_eq_some_iff.1 h
      obtain ⟨stack, hstack⟩ := ih hp
      rw [Justified.walk_eq hstack] at hp
      obtain rfl := Option.some.inj hp
      exact ⟨_, hstack.push () ht⟩

/-- Where a production is reduced, the string ends with its symbols, and has its name instead after
the reduction. -/
theorem Spells.reduce (hc : Built g c) (h : Spells g stack γ) {a : Symbol} {k n q : Nat}
    (haction : c.table.action? (topState stack) a = some (.reduce k A n))
    (hgoto : c.table.action? (topState (stack.drop n)) A = some (.goto q)) :
    ∃ d w, γ = d ++ w ∧ w.length = n ∧ g.Produces A w ∧
      ∀ v, Spells g (⟨q, v⟩ :: stack.drop n) (d ++ [A]) := by
  obtain ⟨p, hk, rfl, rfl, hreduces⟩ := hc.reduce_iff.1 haction
  obtain ⟨d, -, rfl, -, -⟩ := Justified.exists_eq_append hc.wellFormed h (holds_of_reduces hreduces)
  exact ⟨d, p.symbols, rfl, rfl, List.mem_of_getElem? hk,
    fun v => h.drop.push v (hc.goto_iff.1 hgoto).1⟩

/-- A move leaves a stack that spells a string. -/
theorem Spells.moves (hc : Built g c) (h : Spells g stack γ) {input : List Token}
    {s : List (Frame α) × List Token} (hm : Moves c.table sem (stack, input) s) :
    ∃ γ', Spells g s.1 γ' := by
  cases hm with
  | shift haction => exact ⟨_, h.push _ (hc.shift_iff.1 haction).1⟩
  | reduce haction _ _ hgoto =>
      obtain ⟨d, w, -, -, -, hstack⟩ := h.reduce hc haction hgoto
      exact ⟨_, hstack _⟩

/-- The machine shifts the token that it looks at, or accepts. -/
def Handles (c : Construction) (stack : List (Frame α)) (token : Token) : Prop :=
  (∃ q, c.table.action? (topState stack) token.name = some (.shift q)) ∨
    c.table.action? (topState stack) token.name = some .accept

/-! ## one reduction -/

/-- At the end of a production in a context, the machine reduces it, and stands behind its nonterminal
in the context around. -/
theorem exists_moves_reduce (hc : Built g c) (hsem : g.rules.length ≤ sem.actions.length)
    {d₀ b₀ r₀ tail₀ : List Symbol} (hctx : g.Context d₀ B tail₀)
    (hB : g.HasProduction ⟨B, b₀ ++ A :: r₀⟩) (hA : g.HasProduction ⟨A, b⟩)
    (hstack : Spells g stack ((d₀ ++ b₀) ++ b))
    (ht : token.name ∈ g.terminalNames ∨ token.name = endMarker)
    (hb : g.Produces.Begins (r₀ ++ tail₀) [token.name]) (rest : List Token) :
    ∃ stack', Moves c.table sem (stack, token :: rest) (stack', token :: rest) ∧
      Spells g stack' (d₀ ++ (b₀ ++ [A])) := by
  have hg := hc.wellFormed
  have hvis : Grammar.WellFormed.Visible g A := hg.visible_of_mem hB (by simp)
  have hmem := hg.mem_productionList hA (hg.ne_start hvis)
  obtain ⟨k, hk⟩ := List.mem_iff_getElem?.1 hmem
  have hlt : k < sem.actions.length :=
    Nat.lt_of_lt_of_le (Grammar.WellFormed.lt_length_rules hk) hsem
  have hreduce := hc.action?_of_context hk (hctx.step hB) (Justified.walk_eq hstack) ht hb
  obtain ⟨q, hq, hgoto⟩ := hc.exists_goto_of_context hctx hB (Justified.walk_eq hstack.drop)
    (Grammar.WellFormed.name_mem hmem)
  refine ⟨_, .reduce hreduce (List.getElem?_eq_getElem hlt) hstack.length_le hgoto, ?_⟩
  rw [← List.append_assoc]
  exact hstack.drop.push _ hq

/-! ## climbing -/

/-- Where a production ends, what is still to come begins behind a nonterminal in a context further
out, and the machine reduces until it is there; or the whole input is complete. -/
theorem exists_climb (hc : Built g c) (hsem : g.rules.length ≤ sem.actions.length)
    (hctx : g.Context d B tail) (hB : g.HasProduction ⟨B, b⟩) (hstack : Spells g stack (d ++ b))
    (ht : token.name ∈ g.terminalNames ∨ token.name = endMarker)
    (hb : g.Produces.Begins tail [token.name]) (rest : List Token) :
    ∃ stack', Relation.ReflTransGen (Moves c.table sem) (stack, token :: rest)
        (stack', token :: rest) ∧
      ((∃ d' B' b' X r' tail', g.Context d' B' tail' ∧ g.HasProduction ⟨B', b' ++ X :: r'⟩ ∧
          Spells g stack' (d' ++ b') ∧ tail = X :: (r' ++ tail')) ∨
        tail = [endMarker] ∧ c.table.action? (topState stack') endMarker = some .accept) := by
  have hg := hc.wellFormed
  induction hctx generalizing b stack with
  | start =>
      have hsymbols := hg.eq_startProduction hB rfl
      rw [hg.startProduction_eq] at hsymbols
      obtain rfl : b = [g.start] := (Production.mk.inj hsymbols).2
      have htarget := Justified.walk_eq hstack
      rw [List.nil_append, Automaton.walk?_singleton] at htarget
      exact ⟨stack, .refl, .inr ⟨rfl, hc.accept_iff.2 ⟨htarget, rfl⟩⟩⟩
  | @step d₀ tail₀ b₀ r₀ B₀ A hctx₀ hB₀ ih =>
      obtain ⟨stack₁, hmove, hstack₁⟩ :=
        exists_moves_reduce hc hsem hctx₀ hB₀ hB hstack ht hb rest
      cases r₀ with
      | cons X r' =>
          refine ⟨stack₁, .single hmove, .inl ⟨d₀, B₀, b₀ ++ [A], X, r', tail₀, hctx₀, ?_, hstack₁, rfl⟩⟩
          simpa using hB₀
      | nil =>
          obtain ⟨stack', hmoves, hrest⟩ := ih hB₀ hstack₁ hb
          exact ⟨stack', .head hmove hmoves, hrest⟩

/-- Where what is still to come begins with a symbol, the machine reduces until the symbol stands next
in its production, or the whole input is complete. -/
theorem exists_pointing (hc : Built g c) (hsem : g.rules.length ≤ sem.actions.length)
    {α' : List Symbol} (heq : X :: α' = r ++ tail) (hctx : g.Context d B tail)
    (hB : g.HasProduction ⟨B, b ++ r⟩) (hstack : Spells g stack (d ++ b))
    (ht : token.name ∈ g.terminalNames ∨ token.name = endMarker)
    (hb : g.Produces.Begins (X :: α') [token.name]) (rest : List Token) :
    ∃ stack', Relation.ReflTransGen (Moves c.table sem) (stack, token :: rest)
        (stack', token :: rest) ∧
      ((∃ d' B' b' r' tail', g.Context d' B' tail' ∧ g.HasProduction ⟨B', b' ++ X :: r'⟩ ∧
          Spells g stack' (d' ++ b') ∧ α' = r' ++ tail') ∨
        X = endMarker ∧ α' = [] ∧ c.table.action? (topState stack') endMarker = some .accept) := by
  cases r with
  | cons Y r' =>
      obtain ⟨rfl, rfl⟩ := List.cons.inj heq
      exact ⟨stack, .refl, .inl ⟨d, B, b, r', tail, hctx, hB, hstack, rfl⟩⟩
  | nil =>
      rw [List.nil_append] at heq
      rw [List.append_nil] at hB
      obtain ⟨stack', hmoves, hrest⟩ := exists_climb hc hsem hctx hB hstack ht (heq ▸ hb) rest
      refine ⟨stack', hmoves, hrest.imp ?_ ?_⟩
      · rintro ⟨d', B', b', Y, r', tail', hctx', hB', hstack', rfl⟩
        obtain ⟨rfl, rfl⟩ := List.cons.inj heq
        exact ⟨d', B', b', r', tail', hctx', hB', hstack', rfl⟩
      · rintro ⟨rfl, haccept⟩
        obtain ⟨rfl, rfl⟩ := List.cons.inj heq
        exact ⟨rfl, rfl, haccept⟩

/-! ## reaching a token -/

/-- What can begin with some symbols can begin with the first of them. -/
theorem begins_head {R : RuleSet} {w : List Symbol} {t : Symbol} (h : R.Begins w (t :: u)) :
    R.Begins w [t] := by
  obtain ⟨rest, hr⟩ := h.derives
  exact RuleSet.begins_iff.2 ⟨u ++ rest, hr⟩

/-- The token that is looked at: the first of those to be consumed, or the one behind them. -/
theorem exists_next_token (hus : ∀ tok ∈ us, tok.name ∈ g.terminalNames)
    (ht : token.name ∈ g.terminalNames ∨ token.name = endMarker) (rest : List Token) :
    ∃ next rest' u, us ++ token :: rest = next :: rest' ∧
      us.map Token.name ++ [token.name] = next.name :: u ∧
      (next.name ∈ g.terminalNames ∨ next.name = endMarker) := by
  cases us with
  | nil => exact ⟨token, rest, [], rfl, rfl, ht⟩
  | cons tok us => exact ⟨tok, us ++ token :: rest, _, rfl, rfl, .inl (hus tok List.mem_cons_self)⟩

/-- The machine consumes tokens as long as what is still to come can begin with them, and handles the
last one. -/
theorem exists_handles (hc : Built g c) (hsem : g.rules.length ≤ sem.actions.length)
    {w : List Symbol} (h : g.Produces.Begins w u) (hw : w = r ++ tail) (hctx : g.Context d B tail)
    (hB : g.HasProduction ⟨B, b ++ r⟩) (hstack : Spells g stack (d ++ b))
    (hu : u = us.map Token.name ++ [token.name])
    (hus : ∀ tok ∈ us, tok.name ∈ g.terminalNames)
    (ht : token.name ∈ g.terminalNames ∨ token.name = endMarker) (rest : List Token) :
    ∃ stack', Relation.ReflTransGen (Moves c.table sem) (stack, us ++ token :: rest)
      (stack', token :: rest) ∧ Handles c stack' token := by
  have hg := hc.wellFormed
  induction h generalizing d B b r tail stack us with
  | done => simp at hu
  | @keep X w u h ih =>
      obtain ⟨next, rest', u', hinput, hu', hok⟩ := exists_next_token hus ht rest
      obtain ⟨rfl, rfl⟩ := List.cons.inj (hu.trans hu')
      obtain ⟨stack', hmoves, ⟨d', B', b', r', tail', hctx', hB', hstack', rfl⟩ | ⟨hX, rfl, haccept⟩⟩ :=
        exists_pointing hc hsem hw hctx hB hstack hok (.keep (.done _)) rest'
      · have hvis : Grammar.WellFormed.Visible g next.name := hg.visible_of_mem hB' (by simp)
        have hterm : next.name ∈ g.terminalNames := hok.resolve_right (hg.ne_end hvis)
        obtain ⟨q, hq, hshift⟩ :=
          hc.exists_shift_of_context hctx' hB' (Justified.walk_eq hstack') hterm
        cases us with
        | nil =>
            obtain ⟨rfl, rfl⟩ := List.cons.inj hinput
            exact ⟨stack', hmoves, .inl ⟨q, hshift⟩⟩
        | cons tok us =>
            obtain ⟨rfl, rfl⟩ := List.cons.inj hinput
            have hpush := hstack'.push (sem.ofToken tok) hq
            rw [List.append_assoc] at hpush
            obtain ⟨stack'', hmoves', hhandles⟩ := ih (b := b' ++ [tok.name]) rfl hctx'
              (by simpa using hB') hpush (List.cons.inj hu).2
              (fun tok' htok' => hus tok' (List.mem_cons_of_mem tok htok'))
            exact ⟨stack'', (hmoves.tail (.shift hshift)).trans hmoves', hhandles⟩
      · cases us with
        | nil =>
            obtain ⟨rfl, rfl⟩ := List.cons.inj hinput
            exact ⟨stack', hmoves, .inr (hX ▸ haccept)⟩
        | cons tok us =>
            obtain ⟨rfl, rfl⟩ := List.cons.inj hinput
            exact absurd hX (hg.ne_end (.inl (hus tok List.mem_cons_self)))
  | @expand A w α' u hA h ih =>
      obtain ⟨next, rest', u', hinput, hu', hok⟩ := exists_next_token hus ht rest
      obtain rfl := hu.trans hu'
      have hbegins : g.Produces.Begins (A :: α') [next.name] := begins_head (.expand hA h)
      obtain ⟨stack', hmoves, ⟨d', B', b', r', tail', hctx', hB', hstack', rfl⟩ | ⟨rfl, -, -⟩⟩ :=
        exists_pointing hc hsem hw hctx hB hstack hok hbegins rest'
      · obtain ⟨stack'', hmoves', hhandles⟩ := ih (b := []) rfl (hctx'.step hB') (.inr hA)
          (by simpa using hstack') hu hus
        rw [← hinput] at hmoves
        exact ⟨stack'', hmoves.trans hmoves', hhandles⟩
      · exact absurd rfl (hg.ne_end (.inr (Grammar.WellFormed.name_mem hA)))

end Lalr.Parser
