import Lalr.Parser.Binding
import Lalr.Parser.Tree
import Lalr.Proofs.Parser.Effects
import Lalr.Proofs.Parser.Termination

/-!
# Lalr.Proofs.Parser.Safety

The machine is safe on tables that were built (`parse_safe`).  In every configuration of a parse it finds
what it looks for (`Safe`), so that a parse ends with a value or with a token that is not expected, and
with no other error.

A configuration is safe because the stack spells a string (`Sensible.safe`): where a production is
reduced, the string ends with its symbols, and in front of them is a context of its nonterminal.
-/

namespace Lalr

open Construction (rowGrammar rowToken)

namespace Table

variable {t : Table} {rules q : Nat} {s : Symbol} {a : Action}

/-- A table can be run if all its actions can. -/
theorem checkBinding_eq_ok (h : ∀ q s a, t.action? q s = some a →
    bindingError? t.rows.length rules a = none) : t.checkBinding rules = .ok () := by
  have hnone : (t.rows.flatMap (·.values)).findSome? (bindingError? t.rows.length rules) = none := by
    rw [List.findSome?_eq_none_iff]
    intro a ha
    obtain ⟨row, hrow, ha⟩ := List.mem_flatMap.1 ha
    obtain ⟨s, hs⟩ := Keyed.mem_values_iff.1 ha
    obtain ⟨q, hq⟩ := List.mem_iff_getElem?.1 hrow
    exact h q s a (by rw [action?, hq]; exact hs)
  rw [checkBinding, hnone]

end Table

/-- Every action of a built table can be run, with an action bound to every production. -/
theorem Construction.Built.checkBinding_eq_ok {g : Grammar} {c : Construction}
    (hc : Construction.Built g c) : c.table.checkBinding g.rules.length = .ok () := by
  have hrows {q t : Nat} {X : Symbol} (ht : (automatonOf g).target? q X = some t) :
      t < c.table.rows.length := hc.length_rows ▸ Automaton.target?_lt_size ht
  refine Table.checkBinding_eq_ok fun q s a ha => ?_
  cases a with
  | shift t => exact if_pos (hrows (hc.shift_iff.1 ha).1)
  | goto t => exact if_pos (hrows (hc.goto_iff.1 ha).1)
  | reduce k A n =>
      obtain ⟨p, hk, -⟩ := hc.reduce_iff.1 ha
      exact if_pos (Grammar.WellFormed.lt_length_rules hk)
  | accept => rfl

namespace Parser

variable {α : Type} {g : Grammar} {c : Construction} {sem : Semantics Id α} {stack : List (Frame α)}
  {input total : List Token} {token : Token} {rest : List Token} {γ : List Symbol} {y : List Token}
  {V : Symbol → α → List Token → Prop} {r : Except ParseError α}

/-- A configuration in which the machine finds all that it looks for. -/
structure Safe (g : Grammar) (c : Construction) (sem : Semantics Id α) (stack : List (Frame α))
    (input : List Token) : Prop where
  /-- There is one value less than states. -/
  heights : (stack.map Frame.value).length + 1 = (statesOf stack).length
  /-- Each state was entered from the one below it. -/
  joined : (statesOf stack).IsChain fun q p => ∃ X, c.automaton.target? p X = some q
  /-- Every state has a row. -/
  rows : ∀ q ∈ statesOf stack, q < c.table.rows.length
  /-- There is a token to look at. -/
  tokens : input ≠ []
  /-- What is reduced is a production with an action bound to it, which gets a value for each of its
  symbols; and the table says where to go on from the state that is on top then. -/
  reduces : ∀ token rest, input = token :: rest → ∀ k A n,
    c.table.action? (topState stack) token.name = some (.reduce k A n) →
      ∃ p f, g.productionList[k]? = some p ∧ sem.actions[k]? = some f ∧ A = p.name ∧
        n = p.symbols.length ∧ n ≤ stack.length ∧
        ((stack.take n).reverse.map Frame.value).length = p.symbols.length ∧
        ∃ q, c.table.action? (topState (stack.drop n)) A = some (.goto q)
  /-- The end is not shifted. -/
  shifts : ∀ token rest, input = token :: rest → ∀ q,
    c.table.action? (topState stack) token.name = some (.shift q) → token.name ≠ endMarker
  /-- What is accepted has one value. -/
  accepts : ∀ token rest, input = token :: rest →
    c.table.action? (topState stack) token.name = some .accept → stack.length = 1

/-! ## stacks that spell a string -/

theorem Justified.isChain {a : Automaton} (h : Justified a V stack γ y) :
    (statesOf stack).IsChain fun q p => ∃ X, a.target? p X = some q := by
  induction h with
  | nil => exact .singleton 0
  | @push stack f γ X y u _ ht _ ih =>
      rw [statesOf_cons]
      obtain ⟨below, hbelow⟩ := statesOf_eq_cons stack
      rw [hbelow] at ih ⊢
      exact .cons_cons ⟨X, ht⟩ ih

theorem Justified.lt_length_rows (hc : Construction.Built g c)
    (h : Justified (Construction.automatonOf g) V stack γ y) :
    ∀ q ∈ statesOf stack, q < c.table.rows.length := by
  rw [hc.length_rows]
  induction h with
  | nil =>
      intro q hq
      obtain rfl := List.mem_singleton.1 hq
      exact (List.getElem?_eq_some_iff.1 (Automaton.explored_automatonOf g).1.first).1
  | push _ ht _ ih =>
      rw [statesOf_cons]
      exact List.forall_mem_cons.2 ⟨Automaton.target?_lt_size ht, ih⟩

theorem exists_mem_terminated (p : Position) (tokens : List Token) :
    ∃ token ∈ Supply.terminated p tokens, token.name = endMarker := by
  induction tokens generalizing p with
  | nil => exact ⟨_, List.mem_singleton_self _, rfl⟩
  | cons token rest ih =>
      rw [Supply.terminated]
      split
      · next h => exact ⟨token, List.mem_singleton_self _, h⟩
      · obtain ⟨ending, hmem, hending⟩ := ih token.position
        exact ⟨ending, List.mem_cons_of_mem _ hmem, hending⟩

/-- A stack that accounts for the tokens in front of the input is safe. -/
theorem Sensible.safe (hc : Construction.Built g c) (hsem : sem.actions.length = g.rules.length)
    (h : Sensible g V total (stack, input)) (htotal : ∃ token ∈ total, token.name = endMarker) :
    Safe g c sem stack input := by
  have hg := hc.wellFormed
  obtain ⟨γ, y, hstack, hinput, hnames⟩ := h
  refine ⟨?_, ?_, hstack.lt_length_rows hc, ?_, ?_, ?_, ?_⟩
  · rw [List.length_map, length_statesOf]
  · rw [hc.automaton]
    exact hstack.isChain
  · rintro rfl
    obtain ⟨ending, hmem, hending⟩ := htotal
    rw [← hinput, List.append_nil] at hmem
    exact hg.ne_end (.inl (hnames ending hmem)) hending
  · rintro token rest - k A n haction
    obtain ⟨p, hk, rfl, rfl, hreduces⟩ := hc.reduce_iff.1 haction
    obtain ⟨d, tail, rfl, hctx, -⟩ := hstack.exists_eq_append hg (holds_of_reduces hreduces)
    have hlt : k < sem.actions.length := hsem ▸ Grammar.WellFormed.lt_length_rules hk
    have hlen : p.length ≤ stack.length := by
      rw [hstack.length_eq, List.length_append]
      exact Nat.le_add_left _ _
    obtain ⟨_, _, -, hdrop, -⟩ := hstack.split
    obtain ⟨q, hgoto⟩ := hc.exists_goto hctx
      (Grammar.WellFormed.name_mem (List.mem_of_getElem? hk)) hdrop.walk_eq
    refine ⟨p, _, hk, List.getElem?_eq_getElem hlt, rfl, rfl, hlen, ?_, q, hgoto⟩
    rw [List.length_map, List.length_reverse, List.length_take, Nat.min_eq_left hlen]
    rfl
  · rintro token rest - q haction
    exact hg.ne_end (.inl (hc.shift_iff.1 haction).2)
  · rintro token rest - haction
    rw [hstack.length_eq, hstack.eq_start hc haction, List.length_singleton]

/-- Every configuration of a parse is safe. -/
theorem safe_of_moves (hc : Construction.Built g c) (hsem : sem.actions.length = g.rules.length)
    {tokens : List Token} (h : Relation.ReflTransGen (Moves c.table sem)
      ([], Supply.terminated .start tokens) (stack, input)) : Safe g c sem stack input := by
  have hV : Respects g sem fun _ _ _ => True := ⟨fun _ _ => trivial, fun _ _ _ _ _ _ _ _ => trivial⟩
  exact ((sensible_initial _).of_moves hc hV h).safe hc hsem (exists_mem_terminated .start tokens)

/-! ## how a parse ends -/

/-- A result of a parse in which nothing went wrong: a value, or a token that was not expected. -/
inductive Proper : Except ParseError α → Prop
  | value (v : α) : Proper (.ok v)
  | unexpected (token : Token) (expected : List Symbol) :
      Proper (.error (.unexpected token expected))

/-- A safe configuration is left with a value, or in front of a token that is not expected. -/
theorem Safe.proper (h : Safe g c sem stack input) (hstop : Stops c.table sem (stack, input) r) :
    Proper r := by
  cases hstop with
  | exhausted => exact absurd rfl h.tokens
  | @ended _ token rest _ hstep =>
      have hmoves {s : List (Frame α) × List Token}
          (hm : Moves c.table sem (stack, token :: rest) s) : False := hm.not_stops (.ended hstep)
      obtain ⟨below, hbelow⟩ := statesOf_eq_cons stack
      have hlt : topState stack < c.table.rows.length := h.rows _ (hbelow ▸ List.mem_cons_self)
      have hunexpected (hgoto : ∀ a, c.table.action? (topState stack) token.name = some a →
          a.isGoto) : Proper r := by
        rw [step_of_isGoto (List.getElem?_eq_getElem hlt) hgoto] at hstep
        obtain rfl := Step.ended.inj hstep
        exact .unexpected _ _
      cases haction : c.table.action? (topState stack) token.name with
      | none => exact hunexpected (by simp [haction])
      | some a =>
          cases a with
          | shift q => exact (hmoves (.shift haction)).elim
          | goto q => exact hunexpected (by simp [haction, Action.isGoto])
          | reduce k A n =>
              obtain ⟨p, f, -, hf, -, -, hn, -, q, hq⟩ := h.reduces token rest rfl k A n haction
              exact (hmoves (.reduce haction hf hn hq)).elim
          | accept =>
              obtain ⟨f, rfl⟩ := List.length_eq_one_iff.1 (h.accepts token rest rfl haction)
              rw [step_of_accept haction] at hstep
              obtain rfl := Step.ended.inj hstep
              exact .value _

/-- A parse ends with a value, or in front of a token that is not expected. -/
theorem exists_proper (hc : Construction.Built g c) (hsem : sem.actions.length = g.rules.length)
    (tokens : List Token) : ∃ r, parseTokens c.table sem tokens = some r ∧ Proper r := by
  obtain ⟨r, n, hend⟩ := spells_nil.exists_ends hc sem (Supply.terminated .start tokens)
  obtain ⟨⟨stack, input⟩, hmoves, hstop⟩ := hend.exists_stops
  exact ⟨r, parseTokens_eq_some_iff.2 ⟨n, hend⟩, (safe_of_moves hc hsem hmoves).proper hstop⟩

theorem Proper.of_map (h : Proper (r.map fun _ => ())) : Proper r := by
  cases r with
  | ok v => exact .value v
  | error e =>
      generalize he : (Except.error e : Except ParseError α).map (fun _ => ()) = r' at h
      cases h with
      | value => contradiction
      | unexpected token expected =>
          obtain rfl := Except.error.inj he
          exact .unexpected token expected

end Parser

/-- The machine is safe on built tables.  A table that was built can be run with one action for each
production.  Every configuration of a parse is then safe, and a parse ends with a value, or in front of
a token that is not expected, also if its actions have effects. -/
theorem parse_safe {g : Grammar} {c : Construction} (hc : Construction.ofGrammar g = .ok c) :
    c.table.checkBinding g.rules.length = .ok () ∧
      (∀ {α : Type} (sem : Semantics Id α) (tokens : List Token) (stack : List (Parser.Frame α))
        (input : List Token), sem.actions.length = g.rules.length →
        Relation.ReflTransGen (Parser.Moves c.table sem) ([], Supply.terminated .start tokens)
          (stack, input) → Parser.Safe g c sem stack input) ∧
      ∀ {m : Type → Type} [Monad m] [LawfulMonad m] {α : Type} (sem : Semantics m α)
        (tokens : List Token), sem.actions.length = g.rules.length →
        Ensures (fun o => ∃ r, o = some r ∧ Parser.Proper r)
          (Parser.parseTokens c.table sem tokens) := by
  have hbuilt := Construction.built_of_ofGrammar hc
  refine ⟨hbuilt.checkBinding_eq_ok, fun sem tokens stack input hsem hmoves => ?_,
    fun sem tokens hsem => ?_⟩
  · exact Parser.safe_of_moves hbuilt hsem hmoves
  · have hidle : (Parser.idle sem.actions.length).actions.length = g.rules.length := by
      simpa using hsem
    obtain ⟨r, hr, hproper⟩ := Parser.exists_proper hbuilt hidle tokens
    refine (Parser.ensures_parseTokens hr).imp ?_
    rintro _ ⟨r', rfl, rfl⟩
    exact ⟨r', rfl, hproper.of_map⟩

/-- The parse of a row is safe where its token has been shifted and the empty row behind it reduced: the
row itself is reduced next. -/
theorem safe_row : ∃ c, Construction.ofGrammar rowGrammar = .ok c ∧
    (let stack : List (Parser.Frame Tree) := [⟨3, .node 1 []⟩, ⟨2, .leaf rowToken⟩]
    Relation.ReflTransGen (Parser.Moves c.table (Semantics.tree 2))
      ([], Supply.terminated .start [rowToken]) (stack, [.ending .start]) ∧
    c.table.action? (Parser.topState stack) endMarker = some (.reduce 0 "S" 2) ∧
    Parser.Safe rowGrammar c (Semantics.tree 2) stack [.ending .start]) := by
  have hactions : ((Construction.ofGrammar rowGrammar).toOption.map fun c =>
      [c.table.action? 0 "a", c.table.action? 2 endMarker, c.table.action? 2 "S",
        c.table.action? 3 endMarker]) =
      some [some (.shift 2), some (.reduce 1 "S" 0), some (.goto 3), some (.reduce 0 "S" 2)] := by cbv
  obtain ⟨c, hc, hactions⟩ := exists_ok_of_map_toOption hactions
  simp only [List.cons.injEq] at hactions
  obtain ⟨hshift, hempty, hgoto, hrow, -⟩ := hactions
  have hmoves : Relation.ReflTransGen (Parser.Moves c.table (Semantics.tree 2))
      ([], Supply.terminated .start [rowToken])
      ([⟨3, .node 1 []⟩, ⟨2, .leaf rowToken⟩], [.ending .start]) :=
    .tail (.single (.shift hshift)) (.reduce hempty rfl (Nat.zero_le _) hgoto)
  exact ⟨c, hc, hmoves, hrow, (parse_safe hc).2.1 (Semantics.tree 2) [rowToken] _ _ rfl hmoves⟩

end Lalr
