import Lalr.Parser.Tree
import Lalr.Proofs.Parser.Progress
import Lalr.Proofs.Parser.Value
import Mathlib

/-!
# Lalr.Proofs.Parser.ErrorDetection

Errors are found at the earliest token where they can be found (`firstWrong_of_error`).  The tokens
that have been consumed are the beginning of a sentential form, and no sentential form begins with them
and the token of the error.

The first is read off the stack.  For the second, the machine may make reductions that are invalid
where it is before it stops; but had a sentential form begun so, the machine would have handled the
token, and it is deterministic.
-/

namespace Lalr

open Construction (rowGrammar rowToken)

/-- The first wrong name among some, or behind them, where the end stands: the names before it are
terminals, and begin a sentential form; with it they do not, if it is a terminal at all. -/
structure FirstWrong (g : Grammar) (names : List Symbol) (i : Nat) : Prop where
  terminals : ∀ X ∈ names.take i, X ∈ g.terminalNames
  viable : ∃ rest, g.Produces.Derives [g.start] (names.take i ++ rest)
  wrong : ∃ X, (names ++ [endMarker])[i]? = some X ∧
    ((X ∉ g.terminalNames ∧ X ≠ endMarker) ∨
      ¬ ∃ rest, g.Produces.Derives [g.start, endMarker] (names.take i ++ X :: rest))

variable {g : Grammar} {names : List Symbol} {i j : Nat}

/-- Every beginning of the names before a first wrong one can go on with the next name. -/
theorem FirstWrong.continues (h : FirstWrong g names j) (hij : i < j) :
    ∃ X rest, (names ++ [endMarker])[i]? = some X ∧ X ∈ g.terminalNames ∧
      g.Produces.Derives [g.start, endMarker] (names.take i ++ X :: rest) := by
  obtain ⟨rest, hrest⟩ := h.viable
  obtain ⟨X, hX, -⟩ := h.wrong
  have hj : j < (names ++ [endMarker]).length := (List.getElem?_eq_some_iff.1 hX).1
  rw [List.length_append, List.length_singleton] at hj
  have hi : i < names.length := by omega
  have hget : (names.take j)[i]? = some names[i] := by
    rw [List.getElem?_take_of_lt hij, List.getElem?_eq_getElem hi]
  have hsplit := take_append_cons_drop hget
  rw [List.take_take, Nat.min_eq_left (Nat.le_of_lt hij)] at hsplit
  refine ⟨names[i], (names.take j).drop (i + 1) ++ rest ++ [endMarker], ?_, ?_, ?_⟩
  · rw [List.getElem?_append_left hi, List.getElem?_eq_getElem hi]
  · exact h.terminals _ (hsplit ▸ List.mem_append_right _ List.mem_cons_self)
  · have hend := hrest.append_right [endMarker]
    rw [← hsplit] at hend
    simpa using hend

/-- There is at most one first wrong name. -/
theorem FirstWrong.unique (hi : FirstWrong g names i) (hj : FirstWrong g names j) : i = j := by
  have hle {i j : Nat} (hi : FirstWrong g names i) (hj : FirstWrong g names j) : ¬ i < j := by
    intro hlt
    obtain ⟨X, hX, hwrong⟩ := hi.wrong
    obtain ⟨Y, rest, hY, hterm, hrest⟩ := hj.continues hlt
    obtain rfl : X = Y := Option.some.inj (hX.symm.trans hY)
    exact hwrong.elim (fun h => h.1 hterm) (fun h => h ⟨rest, hrest⟩)
  exact Nat.le_antisymm (Nat.not_lt.1 (hle hj hi)) (Nat.not_lt.1 (hle hi hj))

namespace Parser

variable {α : Type} {c : Construction} {t : Table} {sem sem' : Semantics Id α}
  {stack : List (Frame α)} {s s' : List (Frame α) × List Token} {token : Token}
  {tokens rest y u : List Token} {w γ : List Symbol} {vs : List α} {v : α} {e : ParseError}

/-! ## sentential forms -/

/-- What begins an input with its end begins a sentential form, if the end is not part of it. -/
theorem exists_derives_start (hg : g.WellFormed) {u rest : List Symbol} (hu : endMarker ∉ u)
    (h : g.Produces.Derives [g.start, endMarker] (u ++ rest)) :
    ∃ rest', g.Produces.Derives [g.start] (u ++ rest') := by
  have hsplit : g.Produces.Derives ([g.start] ++ [endMarker]) (u ++ rest) := h
  obtain ⟨α', β', heq, hstart, hend⟩ := hsplit.of_append
  obtain rfl := hend.eq_of_irreducible hg.not_produces_end
  rcases List.append_eq_append_iff.1 heq with ⟨m, rfl, -⟩ | ⟨m, rfl, hm⟩
  · exact ⟨m, hstart⟩
  · cases m with
    | nil => exact ⟨[], by simpa using hstart⟩
    | cons X m =>
        obtain ⟨rfl, -⟩ := List.cons.inj hm
        exact absurd (List.mem_append_right _ List.mem_cons_self) hu

/-! ## what the stack has consumed -/

/-- A symbol derives the names of some tokens, which are terminals. -/
def Spans (g : Grammar) (X : Symbol) (_ : α) (u : List Token) : Prop :=
  g.Produces.Derives [X] (u.map Token.name) ∧ ∀ token ∈ u, token.name ∈ g.terminalNames

theorem Values.spans (h : Values (Spans g) w vs u) :
    g.Produces.Derives w (u.map Token.name) ∧ ∀ token ∈ u, token.name ∈ g.terminalNames := by
  induction h with
  | nil => exact ⟨.refl _, by simp⟩
  | cons hv _ ih =>
      obtain ⟨hd, hnames⟩ := hv
      obtain ⟨hds, hnames'⟩ := ih
      rw [List.map_append]
      exact ⟨hd.append hds, fun tok htok => (List.mem_append.1 htok).elim (hnames tok) (hnames' tok)⟩

/-- Whatever the semantics, values are made from tokens that their symbols derive. -/
theorem respects_spans (g : Grammar) (sem : Semantics Id α) : Respects g sem (Spans g) where
  token := fun token h => ⟨.refl _, by simpa using h⟩
  action := fun k p f vs u hp _ h => by
    obtain ⟨hd, hnames⟩ := h.spans
    have hrule : g.Produces p.name p.symbols := List.mem_of_getElem? hp
    exact ⟨(RuleSet.Derives.of_rule hrule).trans hd, hnames⟩

/-- The string that a stack spells derives what has been consumed. -/
theorem Justified.derives (h : Justified (Construction.automatonOf g) (Spans g) stack γ y) :
    g.Produces.Derives γ (y.map Token.name) := by
  induction h with
  | nil => exact .refl _
  | push _ _ hv ih =>
      rw [List.map_append]
      exact ih.append hv.1

/-- What has been consumed begins a sentential form. -/
theorem Justified.viable (hg : g.WellFormed)
    (h : Justified (Construction.automatonOf g) (Spans g) stack γ y)
    (hy : ∀ token ∈ y, token.name ∈ g.terminalNames) :
    ∃ rest, g.Produces.Derives [g.start] (y.map Token.name ++ rest) := by
  obtain ⟨i, hi⟩ := Automaton.exists_validItem hg h.walk_eq
  obtain ⟨d, tail, hctx, hp, -, rfl⟩ := (Grammar.validItem_iff hg).1 hi
  have hform := hctx.derives hg hp
  rw [← List.take_append_drop i.pointer i.production.symbols, ← List.append_assoc,
    List.append_assoc] at hform
  refine exists_derives_start hg ?_ (hform.trans (h.derives.append_right _))
  intro hend
  obtain ⟨token, htoken, hname⟩ := List.mem_map.1 hend
  exact hg.ne_end (.inl (hy token htoken)) hname

/-! ## how a parse stops with an error -/

/-- An error that is about a token comes from a cell without an action for it, or from accepting with
more or fewer values than one. -/
theorem Stops.of_token (h : Stops t sem s (.error e)) (he : e.token? = some token) :
    ∃ stack rest, s = (stack, token :: rest) ∧
      ((∀ a, t.action? (topState stack) token.name = some a → a.isGoto) ∨
        (t.action? (topState stack) token.name = some .accept ∧ ∀ f, stack ≠ [f])) := by
  generalize hr : Except.error e = r at h
  cases h with
  | exhausted =>
      obtain rfl := Except.error.inj hr
      contradiction
  | @ended stack token' rest r h =>
      subst hr
      have hout := outcome_step t sem stack token'
      rw [h] at hout
      generalize hstep : Step.ended (.error e) = result at hout
      cases hout with
      | shift => contradiction
      | reduce => contradiction
      | fault hnone =>
          obtain rfl := Except.error.inj (Step.ended.inj hstep)
          rw [hnone] at he
          contradiction
      | unexpected hcell =>
          obtain rfl := Except.error.inj (Step.ended.inj hstep)
          obtain rfl : token' = token := Option.some.inj he
          exact ⟨stack, rest, rfl, .inl hcell⟩
      | accept haction =>
          replace hstep := Step.ended.inj hstep
          unfold Parser.accept at hstep
          split at hstep
          · contradiction
          · next hne =>
              obtain rfl := Except.error.inj hstep
              obtain rfl : token' = token := Option.some.inj he
              exact ⟨stack, rest, rfl, .inr ⟨haction, fun f hf => hne f hf⟩⟩

/-- Without an action for the token there is no move. -/
theorem not_moves_of_isGoto
    (h : ∀ a, t.action? (topState stack) token.name = some a → a.isGoto) :
    ∀ s, ¬ Moves t sem (stack, token :: rest) s := by
  intro s hm
  cases hm with
  | shift haction => exact absurd (h _ haction) (by simp [Action.isGoto])
  | reduce haction => exact absurd (h _ haction) (by simp [Action.isGoto])

/-- The semantics with an action for every production, also where none is bound. -/
def withActions (sem : Semantics Id α) (rules : Nat) (v : α) : Semantics Id α :=
  { sem with actions := sem.actions ++ List.replicate rules fun _ => pure v }

theorem Moves.withActions (h : Moves t sem s s') (rules : Nat) (v : α) :
    Moves t (withActions sem rules v) s s' := by
  cases h with
  | shift haction => exact .shift haction
  | reduce haction hk hn hq =>
      refine .reduce haction ?_ hn hq
      show (sem.actions ++ _)[_]? = _
      rw [List.getElem?_append_left (List.getElem?_eq_some_iff.1 hk).1, hk]

/-- Where the machine has stopped in front of a token, no sentential form goes on with the token. -/
theorem not_derives_of_stuck (hc : Construction.Built g c)
    (hmoves : Relation.ReflTransGen (Moves c.table sem) ([], y ++ token :: rest)
      (stack, token :: rest))
    (hcell : ∀ a, c.table.action? (topState stack) token.name = some a → a.isGoto)
    (hy : ∀ tok ∈ y, tok.name ∈ g.terminalNames)
    (ht : token.name ∈ g.terminalNames ∨ token.name = endMarker) :
    ¬ ∃ rest, g.Produces.Derives [g.start, endMarker] (y.map Token.name ++ token.name :: rest) := by
  rintro ⟨more, hform⟩
  have hg := hc.wellFormed
  have hp : g.HasProduction ⟨startSymbol, [] ++ [g.start]⟩ := .inl hg.startProduction_eq.symm
  have hbegins : g.Produces.Begins ([g.start] ++ [endMarker]) (y.map Token.name ++ [token.name]) :=
    RuleSet.begins_iff.2 ⟨more, by simpa using hform⟩
  -- Bound actions do not matter for where the machine goes, so all may be taken to be bound.
  let sem' := withActions sem g.rules.length (sem.ofToken token)
  have hmoves' : Relation.ReflTransGen (Moves c.table sem') _ _ :=
    Relation.ReflTransGen.mono (fun _ _ hm => hm.withActions g.rules.length (sem.ofToken token)) _ _
      hmoves
  have hbound : g.rules.length ≤ sem'.actions.length := by simp [sem', withActions]
  obtain ⟨stack', hreach, hhandles⟩ := exists_handles hc hbound hbegins rfl .start hp spells_nil rfl hy ht rest
  have hback := moves_of_stuck hreach hmoves' (not_moves_of_isGoto hcell)
  rcases hback.cases_head with heq | ⟨s, hm, hrest⟩
  · obtain ⟨rfl, -⟩ := Prod.mk.inj heq
    rcases hhandles with ⟨q, hshift⟩ | haccept
    · exact absurd (hcell _ hshift) (by simp [Action.isGoto])
    · exact absurd (hcell _ haccept) (by simp [Action.isGoto])
  · cases hm with
    | shift haction =>
        have hlen := length_le_of_moves hrest
        exact absurd hlen (by simp)
    | reduce haction =>
        rcases hhandles with ⟨q, hshift⟩ | haccept
        · exact absurd (haction.symm.trans hshift) (by simp)
        · exact absurd (haction.symm.trans haccept) (by simp)

/-! ## the first wrong token -/

/-- The machine stops in front of the token with an index. -/
def StopsAt (c : Construction) (sem : Semantics Id α) (tokens : List Token) (i : Nat)
    (e : ParseError) : Prop :=
  ∃ stack, Relation.ReflTransGen (Moves c.table sem) ([], Supply.terminated .start tokens)
      (stack, (Supply.terminated .start tokens).drop i) ∧
    Stops c.table sem (stack, (Supply.terminated .start tokens).drop i) (.error e)

/-- What is in front of a token of the input is the beginning of the given tokens. -/
theorem take_of_append_eq {ending : Token} (h : y ++ token :: rest = tokens ++ [ending]) :
    tokens.take y.length = y := by
  have hlen := congrArg List.length h
  simp only [List.length_append, List.length_cons, List.length_nil] at hlen
  have hle : y.length ≤ tokens.length := by omega
  calc tokens.take y.length = (tokens ++ [ending]).take y.length :=
        (List.take_append_of_le_length hle).symm
    _ = (y ++ token :: rest).take y.length := by rw [h]
    _ = y := List.take_left

/-- An error that is about a token is at the first wrong token. -/
theorem exists_firstWrong (hc : Construction.Built g c) (hend : ∀ token ∈ tokens, token.name ≠ endMarker)
    (h : parseTokens c.table sem tokens = some (.error e)) (he : e.token? = some token) :
    ∃ i, (Supply.terminated .start tokens)[i]? = some token ∧ StopsAt c sem tokens i e ∧
      FirstWrong g (tokens.map Token.name) i := by
  obtain ⟨ending, hending, hinput⟩ := exists_terminated_eq hend .start
  obtain ⟨n, hends⟩ := parseTokens_eq_some_iff.1 h
  obtain ⟨s, hmoves, hstops⟩ := hends.exists_stops
  have hsensible := (sensible_initial _).of_moves hc (respects_spans g sem) hmoves
  obtain ⟨stack, rest, rfl, hcell | ⟨haccept, hne⟩⟩ := hstops.of_token he
  · obtain ⟨γ, y, hstack, htotal, hy⟩ := hsensible
    have hdrop : (Supply.terminated .start tokens).drop y.length = token :: rest := by
      rw [← htotal, List.drop_left]
    have hget : (Supply.terminated .start tokens)[y.length]? = some token := by
      rw [← htotal, List.getElem?_append_right (Nat.le_refl _), Nat.sub_self]
      rfl
    have htake : (tokens.map Token.name).take y.length = y.map Token.name := by
      rw [← List.map_take, take_of_append_eq (htotal.trans hinput)]
    refine ⟨y.length, hget, ⟨stack, hdrop ▸ hmoves, hdrop ▸ hstops⟩, ?_, ?_, token.name, ?_, ?_⟩
    · rw [htake]
      simpa using hy
    · rw [htake]
      exact hstack.viable hc.wellFormed hy
    · rw [← hending, ← List.map_singleton, ← List.map_append, ← hinput, List.getElem?_map, hget]
      rfl
    · rw [htake]
      by_cases ht : token.name ∈ g.terminalNames ∨ token.name = endMarker
      · exact .inr (not_derives_of_stuck hc (htotal ▸ hmoves) hcell hy ht)
      · exact .inl (not_or.1 ht)
  · obtain ⟨f, -, rfl, -⟩ := hsensible.of_accept hc haccept
    exact absurd rfl (hne f)

/-- No value comes from an input with a wrong token. -/
theorem not_firstWrong_of_value (hc : Construction.Built g c)
    (hend : ∀ token ∈ tokens, token.name ≠ endMarker)
    (h : parseTokens c.table sem tokens = some (.ok v)) : ¬ FirstWrong g (tokens.map Token.name) i := by
  intro hi
  obtain ⟨hform, hnames⟩ := value_of_parseTokens hc (respects_spans g sem) h
  have hall : tokens.takeWhile (·.name ≠ endMarker) = tokens :=
    List.takeWhile_eq_self_iff.2 fun token htoken => decide_eq_true (hend token htoken)
  rw [hall] at hform hnames
  obtain ⟨X, hX, hwrong⟩ := hi.wrong
  rcases hwrong with ⟨hterm, hne⟩ | hform'
  · rcases List.mem_append.1 (List.mem_of_getElem? hX) with hmem | hmem
    · obtain ⟨token, htoken, rfl⟩ := List.mem_map.1 hmem
      exact hterm (hnames token htoken)
    · exact hne (List.mem_singleton.1 hmem)
  · have hlt := (List.getElem?_eq_some_iff.1 hX).1
    rw [List.length_append, List.length_singleton] at hlt
    have hsplit := take_append_cons_drop hX
    rw [List.take_append_of_le_length (Nat.le_of_lt_succ hlt)] at hsplit
    exact hform' ⟨_, hsplit ▸ hform.append_right [endMarker]⟩

end Parser

/-- Errors are found as early as possible: a parse that ends with an error about a token stops in front
of it, and it is the first wrong one.  No input with a wrong token is accepted. -/
theorem firstWrong_of_error {g : Grammar} {c : Construction}
    (hc : Construction.ofGrammar g = .ok c) {α : Type} (sem : Semantics Id α) {tokens : List Token}
    (hend : ∀ token ∈ tokens, token.name ≠ endMarker) :
    (∀ (e : ParseError) (token : Token), Parser.parseTokens c.table sem tokens = some (.error e) →
        e.token? = some token →
        ∃ i, (Supply.terminated .start tokens)[i]? = some token ∧
          Parser.StopsAt c sem tokens i e ∧ FirstWrong g (tokens.map Token.name) i ∧
          ∀ j, FirstWrong g (tokens.map Token.name) j → j = i) ∧
      ∀ i v, FirstWrong g (tokens.map Token.name) i →
        Parser.parseTokens c.table sem tokens ≠ some (.ok v) := by
  have hbuilt := Construction.built_of_ofGrammar hc
  constructor
  · intro e token h he
    obtain ⟨i, hget, hstops, hi⟩ := Parser.exists_firstWrong hbuilt hend h he
    exact ⟨i, hget, hstops, hi, fun j hj => hj.unique hi⟩
  · intro i v hi h
    exact Parser.not_firstWrong_of_value hbuilt hend h hi

/-- A token that is no part of a row. -/
def strayToken : Token := ⟨"b", "b", .start⟩

/-- In a row, the stray token is the first wrong one. -/
theorem firstWrong_stray : ∃ c e, Construction.ofGrammar rowGrammar = .ok c ∧
    Parser.parseTokens c.table (Semantics.tree 2) [rowToken, strayToken] = some (.error e) ∧
    e.token? = some strayToken ∧ FirstWrong rowGrammar ["a", "b"] 1 := by
  have heval : (Construction.ofGrammar rowGrammar).toOption.map (fun c =>
      (Parser.parseTokens c.table (Semantics.tree 2) [rowToken, strayToken] :
        Option (Except ParseError Tree))) =
      some (some (.error (.unexpected strayToken ["a", "$"]))) := by
    simp only [Parser.parseTokens, Parser.enoughFuel, Nat.pow_eq]
    cbv
  obtain ⟨c, hc, hparse⟩ := exists_ok_of_map_toOption heval
  have hend : ∀ token ∈ [rowToken, strayToken], token.name ≠ endMarker := by decide
  obtain ⟨i, hget, -, hi, -⟩ := (firstWrong_of_error hc (Semantics.tree 2) hend).1 _ _ hparse rfl
  obtain rfl : i = 1 := by
    rcases i with _ | _ | _ | i
    · exact absurd hget (by decide)
    · rfl
    · exact absurd hget (by decide)
    · contradiction
  exact ⟨c, _, hc, hparse, rfl, hi⟩

end Lalr
