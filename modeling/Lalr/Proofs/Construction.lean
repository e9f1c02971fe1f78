import Lalr.Lexer.Token
import Lalr.Proofs.Extended
import Lalr.Proofs.Follow.Solution
import Lalr.Proofs.Table

/-!
# Lalr.Proofs.Construction

What a construction that succeeds is made of, in the terms of its grammar: FIRST sets by derivations,
and the cells of the table by transitions, items and FOLLOW sets (`Built.action?_iff`).
-/

namespace Lalr.Construction

variable {g : Grammar} {c : Construction} {w α β : List Symbol} {p : Production} {q e k : Nat}
  {s t A : Symbol} {action : Action}

/-- Everything that a construction has but its table comes from a grammar. -/
structure Analysed (g : Grammar) (c : Construction) : Prop where
  wellFormed : g.WellFormed
  automaton : c.automaton = automatonOf g
  extended : (automatonOf g).extendedRules = .ok c.extended
  firsts : FirstSets.ofGrammar (augmented g) g.terminalNames = .ok c.firsts
  follows : FollowSets.ofRules c.extended g.terminalNames c.firsts = .ok c.follows

/-- A construction was built from a grammar. -/
structure Built (g : Grammar) (c : Construction) : Prop extends Analysed g c where
  table : tableOf g (automatonOf g) c.extended c.follows = .ok c.table

theorem built_of_ofGrammar (h : ofGrammar g = .ok c) : Built g c := by
  obtain ⟨_, hcheck, h⟩ := bind_eq_ok_iff.1 h
  obtain ⟨extended, hextended, h⟩ := bind_eq_ok_iff.1 h
  obtain ⟨firsts, hfirsts, h⟩ := bind_eq_ok_iff.1 h
  obtain ⟨follows, hfollows, h⟩ := bind_eq_ok_iff.1 h
  obtain ⟨table, htable, h⟩ := bind_eq_ok_iff.1 h
  obtain rfl : ⟨automatonOf g, extended, firsts, follows, table⟩ = c := by
    simpa [pure, Except.pure] using h
  exact ⟨⟨Grammar.wellFormed_of_validate (mapError_eq_ok_iff.1 hcheck), rfl,
    mapError_eq_ok_iff.1 hextended, mapError_eq_ok_iff.1 hfirsts, mapError_eq_ok_iff.1 hfollows⟩,
    htable⟩

/-! ## derivations with and without the start production -/

theorem augmented_produces_iff (hg : g.WellFormed) :
    (augmented g).Produces A w ↔ g.HasProduction ⟨A, w⟩ := by
  constructor
  · rintro ⟨p, hp, rfl⟩
    obtain ⟨hprod, rfl⟩ := hg.augmented_lists_iff.1 hp
    exact hprod
  · exact fun h => ⟨_, hg.augmented_lists_iff.2 ⟨h, rfl⟩, rfl⟩

/-- Without the start symbol, the start production is of no use. -/
theorem derives_augmented_iff (hg : g.WellFormed) (hα : ∀ s ∈ α, s ≠ startSymbol) :
    (augmented g).Produces.Derives α β ↔ g.Produces.Derives α β := by
  have hsymbols {X : Symbol} {w : List Symbol} (h : g.HasProduction ⟨X, w⟩) :
      ∀ s ∈ w, s ≠ startSymbol := fun s hs => hg.ne_start (hg.visible_of_mem h hs)
  constructor
  · refine fun h => (h.restrict (P := (· ≠ startSymbol)) (fun X w hX hw => ?_) hα).1
    have hprod := (augmented_produces_iff hg).1 hw
    exact ⟨hg.mem_productionList hprod hX, hsymbols hprod⟩
  · refine fun h => (h.restrict (P := (· ≠ startSymbol)) (fun X w hX hw => ?_) hα).1
    exact ⟨(augmented_produces_iff hg).2 (.inr hw), hsymbols (.inr hw)⟩

theorem terminalNames_disjoint (hg : g.WellFormed) : ∀ t ∈ g.terminalNames, t ∉ (augmented g).keys := by
  intro t ht hkey
  obtain ⟨rules, hr⟩ := Keyed.mem_keys_iff.1 hkey
  have hget : (augmented g).get? t = (g.productions.get? t).or
      (if startSymbol = t then some [startProduction g] else none) := by
    rw [augmented, Keyed.get?_union, Keyed.get?_ofList (by simp)]
    rfl
  rw [hget, if_neg (hg.ne_start (.inl ht)).symm, Option.or_none] at hr
  exact hg.not_terminal (Keyed.mem_keys_iff.2 ⟨rules, hr⟩) ht

/-- The FIRST set of a string holds what the string can begin with. -/
theorem Analysed.sequenceHas_iff (hc : Analysed g c) (hw : ∀ s ∈ w, s ≠ startSymbol) :
    c.firsts.SequenceHas w t ↔ g.Produces.Shows g.terminalNames w t := by
  have hε : epsilon ∉ g.terminalNames := fun h => hc.wellFormed.ne_epsilon (.inl h) rfl
  rw [FirstSets.sequenceHas_iff hε (terminalNames_disjoint hc.wellFormed) hc.firsts]
  simp only [RuleSet.Shows, RuleSet.begins_iff, derives_augmented_iff hc.wellFormed hw]

/-! ## what asks for a cell of the table -/

/-- The start production is recognised only from state 0. -/
theorem eq_zero_of_holds_start (hg : g.WellFormed)
    (h : (automatonOf g).Holds e (.fresh (startProduction g))) : e = 0 := by
  obtain ⟨γ, hγ⟩ := Automaton.exists_walk h
  obtain ⟨d, tail, hctx, -, -, rfl⟩ := (Grammar.validItem_iff hg).1 (Automaton.validItem_of_holds hg hγ h)
  rw [show (Item.fresh (startProduction g)).production.name = startSymbol by
    rw [Item.fresh, hg.startProduction_eq]] at hctx
  obtain ⟨rfl, -⟩ := hctx.eq_start hg
  simpa [Item.fresh, Automaton.walk?] using hγ.symm

theorem idxOf?_productionList_iff (hg : g.WellFormed) :
    g.productionList.idxOf? p = some k ↔ g.productionList[k]? = some p := by
  rw [List.idxOf?_eq_some_iff, List.getElem?_eq_some_iff]
  refine exists_congr fun hk => and_iff_left_of_imp ?_
  rintro rfl j hj heq
  exact absurd ((List.Nodup.getElem_inj_iff hg.nodup_productions).1 heq) (Nat.ne_of_lt hj)

/-- A production is reduced where its symbols lead from a state that recognises it, on the terminals
that follow it there. -/
def Built.Reduces (g : Grammar) (c : Construction) (q : Nat) (s : Symbol) (p : Production) : Prop :=
  ∃ e, (automatonOf g).Holds e (.fresh p) ∧ (automatonOf g).walk? e p.symbols = some q ∧
    c.follows.sets.Has ⟨p.name, e⟩ s

namespace Analysed

theorem exists_acceptRequest_iff (hc : Analysed g c) :
    (∃ r ∈ c.extended, AcceptRequest r q s action) ↔
      (automatonOf g).target? 0 g.start = some q ∧ s = endMarker ∧ action = .accept := by
  have hg := hc.wellFormed
  have hsymbols : (startProduction g).symbols = [g.start] := by rw [hg.startProduction_eq]
  constructor
  · rintro ⟨r, hr, hname, hq, hs, haction⟩
    obtain ⟨e, he, hrec⟩ := Automaton.exists_holds_of_mem_extendedRules hc.extended hr
    have hstart : r.production = startProduction g :=
      hg.eq_startProduction (he.hasProduction hg).1 hname
    obtain rfl := eq_zero_of_holds_start hg (hstart ▸ he)
    obtain ⟨t, ht, hwalk⟩ := hrec.reduce_eq
    obtain rfl : t = q := Option.some.inj (ht.symm.trans hq)
    rw [hstart, hsymbols, Automaton.walk?_singleton] at hwalk
    exact ⟨hwalk, hs, haction⟩
  · rintro ⟨ht, rfl, rfl⟩
    have hzero : (automatonOf g).Holds 0 (.fresh (startProduction g)) :=
      Automaton.holds_zero_iff.2 (.seed (List.mem_singleton_self _))
    obtain ⟨r, hr, hprod, hrec⟩ := Automaton.exists_extendedRule hc.extended hzero
    obtain ⟨t, hreduce, hwalk⟩ := hrec.reduce_eq
    rw [hprod, hsymbols, Automaton.walk?_singleton, ht] at hwalk
    refine ⟨r, hr, ?_, hreduce.trans hwalk.symm, rfl, rfl⟩
    rw [hprod, hg.startProduction_eq]

theorem exists_reduceRequest_iff (hc : Analysed g c) :
    (∃ r ∈ c.extended, ReduceRequest g.productionList c.follows r q s action) ↔
      ∃ k p, g.productionList[k]? = some p ∧ action = .reduce k p.name p.length ∧
        Built.Reduces g c q s p := by
  have hg := hc.wellFormed
  constructor
  · rintro ⟨r, hr, -, hq, ⟨i, hi, hs⟩, k, hk, haction⟩
    obtain ⟨e, he, hrec⟩ := Automaton.exists_holds_of_mem_extendedRules hc.extended hr
    obtain rfl : ⟨r.production.name, e⟩ = i := Option.some.inj (hrec.instance_eq.symm.trans hi)
    obtain ⟨t, ht, hwalk⟩ := hrec.reduce_eq
    obtain rfl : t = q := Option.some.inj (ht.symm.trans hq)
    exact ⟨k, r.production, (idxOf?_productionList_iff hg).1 hk, haction, e, he, hwalk, hs⟩
  · rintro ⟨k, p, hk, haction, e, he, hwalk, hs⟩
    obtain ⟨r, hr, rfl, hrec⟩ := Automaton.exists_extendedRule hc.extended he
    obtain ⟨t, ht, hwalk'⟩ := hrec.reduce_eq
    have hname := hg.name_ne_start (List.mem_of_getElem? hk)
    exact ⟨r, hr, hname, ht.trans (hwalk'.symm.trans hwalk), ⟨_, hrec.instance_eq, hs⟩, k,
      (idxOf?_productionList_iff hg).2 hk, haction⟩

end Analysed

/-! ## the cells of the table -/

namespace Built

/-- What the cells of the table hold: transitions, the acceptance of the whole input, and the
reductions of recognised productions on what follows them. -/
theorem action?_iff (hc : Built g c) : c.table.action? q s = some action ↔
    TransitionRequest g.terminalNames (automatonOf g) q s action ∨
    ((automatonOf g).target? 0 g.start = some q ∧ s = endMarker ∧ action = .accept) ∨
    ∃ k p, g.productionList[k]? = some p ∧ action = .reduce k p.name p.length ∧
      Reduces g c q s p := by
  rw [(gains_tableOf hc.table).2, hc.exists_acceptRequest_iff, hc.exists_reduceRequest_iff]

/-- The table has a row for every state. -/
theorem length_rows (hc : Built g c) : c.table.rows.length = (automatonOf g).itemSets.length :=
  (gains_tableOf hc.table).1.trans (Automaton.explored_automatonOf g).2

theorem shift_iff (hc : Built g c) : c.table.action? q s = some (.shift e) ↔
    (automatonOf g).target? q s = some e ∧ s ∈ g.terminalNames := by
  rw [hc.action?_iff]
  simp [TransitionRequest]

theorem goto_iff (hc : Built g c) : c.table.action? q s = some (.goto e) ↔
    (automatonOf g).target? q s = some e ∧ s ∉ g.terminalNames := by
  rw [hc.action?_iff]
  simp [TransitionRequest]

theorem accept_iff (hc : Built g c) : c.table.action? q s = some .accept ↔
    (automatonOf g).target? 0 g.start = some q ∧ s = endMarker := by
  rw [hc.action?_iff]
  simp [TransitionRequest]

theorem reduce_iff (hc : Built g c) {n : Nat} : c.table.action? q s = some (.reduce k A n) ↔
    ∃ p, g.productionList[k]? = some p ∧ A = p.name ∧ n = p.length ∧ Reduces g c q s p := by
  rw [hc.action?_iff]
  constructor
  · rintro (⟨target, -, haction⟩ | ⟨-, -, haction⟩ | ⟨k', p, hk, haction, hred⟩)
    · simp at haction
    · contradiction
    · obtain ⟨rfl, rfl, rfl⟩ := Action.reduce.inj haction
      exact ⟨p, hk, rfl, rfl, hred⟩
  · rintro ⟨p, hk, rfl, rfl, hred⟩
    exact .inr (.inr ⟨k, p, hk, rfl, hred⟩)

/-- The table reduces a production exactly where it is to be reduced. -/
theorem action?_reduce_iff (hc : Built g c) (hk : g.productionList[k]? = some p) :
    c.table.action? q s = some (.reduce k p.name p.length) ↔ Reduces g c q s p := by
  rw [hc.reduce_iff]
  constructor
  · rintro ⟨p', hp', -, -, hred⟩
    obtain rfl : p = p' := Option.some.inj (hk.symm.trans hp')
    exact hred
  · exact fun hred => ⟨p, hk, rfl, rfl, hred⟩

end Built

/-! ## a small grammar -/

/-- Rows of `a`, longer or shorter: a grammar with an empty production, to try results on. -/
def rowGrammar : Grammar where
  rules := [⟨⟨"S", ["a", "S"]⟩, "$1", "t"⟩, ⟨⟨"S", []⟩, "0", "t"⟩]
  terminals := [{ name := "a", pattern := "a" }]
  start := "S"

/-- A token of a row. -/
def rowToken : Token := ⟨"a", "a", .start⟩

end Lalr.Construction
