import Lalr.Proofs.Construction

/-!
# Lalr.Proofs.Lookahead

The lookaheads of the table by contexts (`Analysed.reduces_iff`): in a state, a production is
reduced on a terminal if some context of its nonterminal leads there, with the production's symbols
behind it, and what is still to come after the context can begin with the terminal.

FOLLOW sets know nothing of contexts.  `Analysed.follows_iff` ties them to the contexts that lead to
the state of an instance: each step from a context to one inside it is an occurrence in the extended
grammar, and the other way round.
-/

namespace Lalr

namespace FollowSets

variable {terminals symbols rest b : List Symbol} {states : List Nat} {i : Instance}

/-- An occurrence has a place among the symbols, and its state has the same place. -/
theorem occurs_iff : Occurs terminals symbols states i rest ↔
    ∃ b, symbols = b ++ i.symbol :: rest ∧ i.symbol ∉ terminals ∧
      states[b.length]? = some i.state := by
  constructor
  · intro h
    induction h with
    | here hs => exact ⟨[], rfl, hs, rfl⟩
    | @there s symbols rest states i _ ih =>
        obtain ⟨b, rfl, hs, hstate⟩ := ih
        refine ⟨s :: b, rfl, hs, ?_⟩
        rwa [List.getElem?_tail] at hstate
  · rintro ⟨b, rfl, hs, hstate⟩
    induction b generalizing states with
    | nil =>
        cases states with
        | nil => contradiction
        | cons q states =>
            obtain rfl : q = i.state := by simpa using hstate
            exact .here hs
    | cons s b ih =>
        refine .there (ih ?_)
        rwa [List.getElem?_tail]

end FollowSets

namespace Construction

variable {g : Grammar} {c : Construction} {d b r tail w : List Symbol}
  {A B X t : Symbol} {q e k : Nat}

open FollowSets RuleSet

/-! ## what is still to come in a context -/

/-- What is still to come consists of symbols that the parser can see, and the end. -/
theorem visible_of_mem_tail (hg : g.WellFormed) (h : g.Context d A tail) {s : Symbol}
    (hs : s ∈ tail) : Grammar.WellFormed.Visible g s ∨ s = endMarker := by
  induction h with
  | start => exact .inr (by simpa using hs)
  | step _ hp ih =>
      rcases List.mem_append.1 hs with hs | hs
      · exact .inl (hg.visible_of_mem hp (by simp [hs]))
      · exact ih hs

/-- No production brings in the end. -/
theorem visible_of_derives (hg : g.WellFormed) {α β : List Symbol}
    (h : g.Produces.Derives α β)
    (hα : ∀ s ∈ α, Grammar.WellFormed.Visible g s ∨ s = endMarker) :
    ∀ s ∈ β, Grammar.WellFormed.Visible g s ∨ s = endMarker :=
  (h.restrict (Q := g.Produces) (fun _ _ _ hX =>
    ⟨hX, fun _ hs => .inl (hg.visible_of_mem (.inr hX) hs)⟩) hα).2

/-- A terminal that can come next is one that the parser can see, or the end. -/
theorem terminal_of_begins (hg : g.WellFormed) (h : g.Context d A tail)
    (ht : t ∈ g.terminals.map Terminal.name ∨ t = endMarker) (hb : g.Produces.Begins tail [t]) :
    t ∈ g.terminalNames ∨ t = endMarker := by
  refine ht.imp_left fun hmem => ?_
  obtain ⟨rest, hr⟩ := hb.derives
  rcases visible_of_derives hg hr (fun s => visible_of_mem_tail hg h) t (by simp) with hvis | rfl
  · exact hvis.resolve_right fun hn => hg.disjoint t hn hmem
  · exact absurd (hg.unreserved _ (List.mem_append_left _ hmem)) (by decide)

/-- The rest of a production cannot begin with the end. -/
theorem not_begins_end (hg : g.WellFormed) {α : List Symbol}
    (hα : ∀ s ∈ α, Grammar.WellFormed.Visible g s) : ¬ g.Produces.Begins α [endMarker] := by
  intro h
  obtain ⟨rest, hr⟩ := h.derives
  have hall := (hr.restrict (Q := g.Produces) (P := Grammar.WellFormed.Visible g) (fun _ _ _ hX =>
    ⟨hX, fun _ hs => hg.visible_of_mem (.inr hX) hs⟩) hα).2
  exact hg.ne_end (hall endMarker (by simp)) rfl

/-! ## FOLLOW sets and contexts -/

namespace Analysed

/-- The occurrences in a rule of the extended grammar are the steps from a context of its nonterminal
to a context inside. -/
theorem exists_context_of_occursIn (hc : Analysed g c) {r : ExtendedRule} (hr : r ∈ c.extended)
    {i : Instance} {rest : List Symbol} (hi : OccursIn g.terminalNames r i rest) :
    ∃ owner, r.instance? = some owner ∧ (∀ s ∈ rest, Grammar.WellFormed.Visible g s) ∧
      (∃ d tail, g.Context d owner.symbol tail ∧ (automatonOf g).walk? 0 d = some owner.state) ∧
      ∀ d tail, g.Context d owner.symbol tail → (automatonOf g).walk? 0 d = some owner.state →
        ∃ d', g.Context d' i.symbol (rest ++ tail) ∧ (automatonOf g).walk? 0 d' = some i.state := by
  have hg := hc.wellFormed
  obtain ⟨q, hq, hrec⟩ := Automaton.exists_holds_of_mem_extendedRules hc.extended hr
  obtain ⟨γ, hγ⟩ := Automaton.exists_walk hq
  obtain ⟨d, tail, hctx, hprod, -, hd⟩ :=
    (Grammar.validItem_iff hg).1 (Automaton.validItem_of_holds hg hγ hq)
  obtain rfl : γ = d := by simpa [Item.fresh] using hd
  obtain ⟨b, hsplit, -, hstate⟩ := occurs_iff.1 hi
  have hrule : g.HasProduction ⟨r.production.name, b ++ i.symbol :: rest⟩ := hsplit ▸ hprod
  have hwalk : (automatonOf g).walk? q b = some i.state := by
    obtain ⟨t, ht, hw⟩ := hrec.states_eq b.length (by simp [hsplit])
    rw [hstate] at ht
    rw [hsplit, List.take_left] at hw
    exact Option.some.inj ht ▸ hw
  refine ⟨⟨r.production.name, q⟩, hrec.instance_eq, fun s hs => ?_, ⟨γ, tail, hctx, hγ⟩, ?_⟩
  · exact hg.visible_of_mem hrule (by simp [hs])
  · intro d' tail' hctx' hd'
    refine ⟨d' ++ b, hctx'.step hrule, ?_⟩
    rw [Automaton.walk?_append, hd']
    exact hwalk

/-- What follows an instance can come next in a context that leads to its state. -/
theorem exists_context_of_follows (hc : Analysed g c) {i : Instance}
    (h : Follows c.extended g.terminalNames c.firsts i t) :
    ∃ d tail, g.Context d i.symbol tail ∧ (automatonOf g).walk? 0 d = some i.state ∧
      g.Produces.Begins tail [t] := by
  have hg := hc.wellFormed
  have hne {rest : List Symbol} (hvis : ∀ s ∈ rest, Grammar.WellFormed.Visible g s) :
      ∀ s ∈ rest, s ≠ startSymbol := fun s hs => hg.ne_start (hvis s hs)
  induction h with
  | ending => exact ⟨[], [endMarker], .start, rfl, .keep (.done _)⟩
  | direct hr hi hε ht =>
      obtain ⟨owner, -, hvis, ⟨d, tail, hctx, hd⟩, hstep⟩ := hc.exists_context_of_occursIn hr hi
      obtain ⟨d', hctx', hd'⟩ := hstep d tail hctx hd
      obtain ⟨rfl, -⟩ | ⟨-, -, hbegins⟩ := (hc.sequenceHas_iff (hne hvis)).1 ht
      · exact absurd rfl hε
      · exact ⟨d', _, hctx', hd', begins_append_singleton_iff.2 (.inl hbegins)⟩
  | inherit hr howner hi hε _ ih =>
      obtain ⟨owner, howner', hvis, -, hstep⟩ := hc.exists_context_of_occursIn hr hi
      obtain rfl := Option.some.inj (howner.symm.trans howner')
      obtain ⟨d, tail, hctx, hd, hbegins⟩ := ih
      obtain ⟨d', hctx', hd'⟩ := hstep d tail hctx hd
      obtain ⟨-, hnil⟩ | ⟨-, hne, -⟩ := (hc.sequenceHas_iff (hne hvis)).1 hε
      · exact ⟨d', _, hctx', hd', begins_append_singleton_iff.2 (.inr ⟨hnil, hbegins⟩)⟩
      · exact absurd rfl hne

/-- Only terminals and the end follow an instance. -/
theorem terminal_of_follows (hc : Analysed g c) {i : Instance}
    (h : Follows c.extended g.terminalNames c.firsts i t) : t ∈ g.terminalNames ∨ t = endMarker := by
  induction h with
  | ending => exact .inr rfl
  | direct hr hi hε ht =>
      obtain ⟨-, -, hvis, -⟩ := hc.exists_context_of_occursIn hr hi
      have hne := fun s hs => hc.wellFormed.ne_start (hvis s hs)
      obtain ⟨rfl, -⟩ | ⟨hterm, -⟩ := (hc.sequenceHas_iff hne).1 ht
      · exact absurd rfl hε
      · exact .inl hterm
  | inherit _ _ _ _ _ ih => exact ih

/-- What can come next in a context follows the instance that the context leads to. -/
theorem follows_of_context (hc : Analysed g c) (hctx : g.Context d A tail) (hA : A ∉ g.terminalNames)
    (hd : (automatonOf g).walk? 0 d = some e) (ht : t ∈ g.terminalNames ∨ t = endMarker)
    (hb : g.Produces.Begins tail [t]) :
    Follows c.extended g.terminalNames c.firsts ⟨A, e⟩ t := by
  have hg := hc.wellFormed
  induction hctx generalizing e with
  | start =>
      obtain rfl : 0 = e := by simpa [Automaton.walk?] using hd
      obtain ⟨rest, hr⟩ := hb.derives
      obtain ⟨rfl, -⟩ : t = endMarker ∧ rest = [] := by
        simpa using hr.eq_of_irreducible hg.not_produces_end
      exact .ending
  | @step d tail b r B A hctx hp ih =>
      -- The production around the nonterminal is recognised from where the outer context leads.
      obtain ⟨q, hq, hqe⟩ := Option.bind_eq_some_iff.1
        ((Automaton.walk?_append _ 0 d b).symm.trans hd)
      have hholds : (automatonOf g).Holds q (.fresh ⟨B, b ++ A :: r⟩) :=
        (Automaton.holds_iff hg hq).2 (hctx.validItem_fresh hg hp)
      obtain ⟨rule, hrule, hprod, hrec⟩ := Automaton.exists_extendedRule hc.extended hholds
      have hocc : OccursIn g.terminalNames rule ⟨A, e⟩ r := by
        refine occurs_iff.2 ⟨b, by rw [hprod], hA, ?_⟩
        obtain ⟨s, hs, hw⟩ := hrec.states_eq b.length (by simp [hprod])
        rw [hprod, List.take_left, hqe] at hw
        exact hs.trans hw.symm
      have howner : rule.instance? = some ⟨B, q⟩ := by rw [hrec.instance_eq, hprod]
      have hB : B ∉ g.terminalNames := by
        rcases hp with heq | hmem
        · rw [hg.startProduction_eq] at heq
          obtain ⟨rfl, -⟩ := Production.mk.inj heq
          exact fun h => hg.ne_start (.inl h) rfl
        · exact hg.not_terminal (Grammar.WellFormed.name_mem hmem)
      have hvis : ∀ s ∈ r, Grammar.WellFormed.Visible g s := fun s hs =>
        hg.visible_of_mem hp (by simp [hs])
      have hne : ∀ s ∈ r, s ≠ startSymbol := fun s hs => hg.ne_start (hvis s hs)
      rcases begins_append_singleton_iff.1 hb with hb | ⟨hnil, hb⟩
      · have hmem : t ∈ g.terminalNames := ht.resolve_right fun e =>
          not_begins_end hg hvis (e ▸ hb)
        have hε : t ≠ epsilon := hg.ne_epsilon (.inl hmem)
        exact .direct hrule hocc hε ((hc.sequenceHas_iff hne).2 (.inr ⟨hmem, hε, hb⟩))
      · exact .inherit hrule howner hocc ((hc.sequenceHas_iff hne).2 (.inl ⟨rfl, hnil⟩))
          (ih hB hq hb)

/-- A terminal follows an instance if it can come next in a context that leads to the state of the
instance. -/
theorem follows_iff (hc : Analysed g c) (hA : A ∉ g.terminalNames)
    (ht : t ∈ g.terminals.map Terminal.name ∨ t = endMarker) :
    c.follows.sets.Has ⟨A, e⟩ t ↔ ∃ d tail, g.Context d A tail ∧
      (automatonOf g).walk? 0 d = some e ∧ g.Produces.Begins tail [t] := by
  rw [has_sets_iff hc.follows]
  constructor
  · exact fun h => hc.exists_context_of_follows h
  · rintro ⟨d, tail, hctx, hd, hb⟩
    exact hc.follows_of_context hctx hA hd (terminal_of_begins hc.wellFormed hctx ht hb) hb

/-- Where a production is reduced, a context with the symbols of the production behind it leads there,
and what is looked at can come next. -/
theorem exists_context_of_reduces (hc : Analysed g c) {p : Production}
    (h : Built.Reduces g c q t p) : (t ∈ g.terminalNames ∨ t = endMarker) ∧
      ∃ d tail, g.Context d p.name tail ∧ (automatonOf g).walk? 0 (d ++ p.symbols) = some q ∧
        g.Produces.Begins tail [t] := by
  obtain ⟨e, -, hw, hs⟩ := h
  have hfollows := (has_sets_iff hc.follows).1 hs
  obtain ⟨d, tail, hctx, hd, hb⟩ := hc.exists_context_of_follows hfollows
  refine ⟨hc.terminal_of_follows hfollows, d, tail, hctx, ?_, hb⟩
  rw [Automaton.walk?_append, hd]
  exact hw

/-- A production is reduced in a state if a context, with the symbols of the production behind it,
leads there, and the terminal can come next. -/
theorem reduces_iff (hc : Analysed g c) {p : Production} (hp : p ∈ g.productionList)
    (ht : t ∈ g.terminals.map Terminal.name ∨ t = endMarker) :
    Built.Reduces g c q t p ↔ ∃ d tail, g.Context d p.name tail ∧
      (automatonOf g).walk? 0 (d ++ p.symbols) = some q ∧ g.Produces.Begins tail [t] := by
  have hg := hc.wellFormed
  have hA : p.name ∉ g.terminalNames := hg.not_terminal (Grammar.WellFormed.name_mem hp)
  refine ⟨fun h => (hc.exists_context_of_reduces h).2, ?_⟩
  rintro ⟨d, tail, hctx, hw, hb⟩
  rw [Automaton.walk?_append] at hw
  obtain ⟨e, he, hw⟩ := Option.bind_eq_some_iff.1 hw
  exact ⟨e, (Automaton.holds_iff hg he).2 (hctx.validItem_fresh hg (.inr hp)), hw,
    (hc.follows_iff hA ht).2 ⟨d, tail, hctx, he, hb⟩⟩

end Analysed

/-! ## what the table has in the context of a production -/

/-- In front of a terminal of a production, the table shifts it. -/
theorem Built.exists_shift_of_context (hc : Built g c) (hctx : g.Context d B tail)
    (hp : g.HasProduction ⟨B, b ++ t :: r⟩) {q : Nat}
    (hq : (automatonOf g).walk? 0 (d ++ b) = some q) (ht : t ∈ g.terminalNames) :
    ∃ q', (automatonOf g).target? q t = some q' ∧ c.table.action? q t = some (.shift q') := by
  obtain ⟨q', hq'⟩ := Automaton.exists_target_of_context hc.wellFormed hctx hp hq
  exact ⟨q', hq', hc.shift_iff.2 ⟨hq', ht⟩⟩

/-- In front of a nonterminal of a production, the table goes on with it. -/
theorem Built.exists_goto_of_context (hc : Built g c) (hctx : g.Context d B tail)
    (hp : g.HasProduction ⟨B, b ++ A :: r⟩) {q : Nat}
    (hq : (automatonOf g).walk? 0 (d ++ b) = some q) (hA : A ∈ g.nonterminalNames) :
    ∃ q', (automatonOf g).target? q A = some q' ∧ c.table.action? q A = some (.goto q') := by
  obtain ⟨q', hq'⟩ := Automaton.exists_target_of_context hc.wellFormed hctx hp hq
  exact ⟨q', hq', hc.goto_iff.2 ⟨hq', hc.wellFormed.not_terminal hA⟩⟩

/-- Where a context of a nonterminal leads, the table goes on with the nonterminal. -/
theorem Built.exists_goto (hc : Built g c) (hctx : g.Context d A tail) (hA : A ∈ g.nonterminalNames)
    {q : Nat} (hq : (automatonOf g).walk? 0 d = some q) :
    ∃ q', c.table.action? q A = some (.goto q') := by
  cases hctx with
  | start => exact absurd rfl (hc.wellFormed.ne_start (.inr hA))
  | step houter hp =>
      obtain ⟨q', -, hgoto⟩ := hc.exists_goto_of_context houter hp hq hA
      exact ⟨q', hgoto⟩

/-- Terminals of the grammar and the end may be looked at. -/
theorem lookahead_of_terminal {t : Symbol} (h : t ∈ g.terminalNames ∨ t = endMarker) :
    t ∈ g.terminals.map Terminal.name ∨ t = endMarker :=
  h.imp_left Grammar.mem_terminalNames_subset

/-- At the end of a production in a context, the table reduces it on what can come next. -/
theorem Built.action?_of_context (hc : Built g c) {k : Nat} (hk : g.productionList[k]? = some ⟨A, w⟩)
    (hctx : g.Context d A tail) {q : Nat} (hq : (automatonOf g).walk? 0 (d ++ w) = some q) {t : Symbol}
    (ht : t ∈ g.terminalNames ∨ t = endMarker) (hb : g.Produces.Begins tail [t]) :
    c.table.action? q t = some (.reduce k A w.length) :=
  (hc.action?_reduce_iff hk).2 <|
    (hc.reduces_iff (List.mem_of_getElem? hk) (lookahead_of_terminal ht)).2 ⟨d, tail, hctx, hq, hb⟩

/-- Where the table reduces a production, a context with the symbols of the production behind it leads
there, and what is looked at can come next. -/
theorem Built.exists_context_of_action? (hc : Built g c) {n : Nat}
    (h : c.table.action? q t = some (.reduce k A n)) :
    ∃ p d tail, g.productionList[k]? = some p ∧ A = p.name ∧ n = p.length ∧
      (t ∈ g.terminalNames ∨ t = endMarker) ∧ g.Context d p.name tail ∧
      (automatonOf g).walk? 0 (d ++ p.symbols) = some q ∧ g.Produces.Begins tail [t] := by
  obtain ⟨p, hk, hA, hn, hreduces⟩ := hc.reduce_iff.1 h
  obtain ⟨ht, d, tail, hctx, hw, hb⟩ := hc.exists_context_of_reduces hreduces
  exact ⟨p, d, tail, hk, hA, hn, ht, hctx, hw, hb⟩

end Construction

end Lalr
