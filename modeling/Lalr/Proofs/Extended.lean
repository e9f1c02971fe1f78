import Lalr.Extended
import Lalr.Proofs.Automaton.Validity
import Lalr.Proofs.Fallible

/-!
# Lalr.Proofs.Extended

The extended grammar of an automaton has a rule for every state and every production that is fresh
there, and no other; the states of the rule are those that the production's symbols lead through
(`mem_extendedRules_iff`).
-/

namespace Lalr

/-- The rule is its production recognised from the state: it is entered there, and its further
states are where the symbols of the production lead. -/
structure ExtendedRule.RecognisedFrom (a : Automaton) (q : Nat) (r : ExtendedRule) : Prop where
  instance_eq : r.instance? = some ⟨r.production.name, q⟩
  states_eq : ∀ n ≤ r.production.symbols.length, ∃ t,
    r.states[n]? = some t ∧ a.walk? q (r.production.symbols.take n) = some t
  reduce_eq : ∃ t, r.reduceState? = some t ∧ a.walk? q r.production.symbols = some t

/-- The states of a rule are those that the parser passes through from a state: it follows the symbols
of the production, and then goes where the nonterminal leads.  The start production stays where it is
accepted. -/
structure ExtendedRule.Traces (a : Automaton) (q : Nat) (r : ExtendedRule) : Prop where
  length_eq : r.states.length = r.production.length + 2
  path : ∀ n ≤ r.production.length, r.states[n]? = a.walk? q (r.production.symbols.take n)
  exit : r.states[r.production.length + 1]? =
    if r.production.name = startSymbol then a.walk? q r.production.symbols
    else a.target? q r.production.name

theorem ExtendedRule.Traces.entry_eq {a : Automaton} {q : Nat} {r : ExtendedRule} (h : r.Traces a q) :
    r.entry? = some q := by
  unfold entry?
  rw [List.head?_eq_getElem?, h.path 0 (Nat.zero_le _)]
  rfl

theorem ExtendedRule.Traces.reduceState_eq {a : Automaton} {q : Nat} {r : ExtendedRule}
    (h : r.Traces a q) : r.reduceState? = a.walk? q r.production.symbols := by
  have hlast := h.path _ (Nat.le_refl _)
  rw [Production.length, List.take_length] at hlast
  rw [reduceState?, List.getLast?_eq_getElem?, List.length_dropLast, h.length_eq,
    List.getElem?_dropLast, ← hlast, h.length_eq, if_pos (by omega)]
  rfl

theorem ExtendedRule.Traces.exists_state {a : Automaton} {q n : Nat} {r : ExtendedRule}
    (h : r.Traces a q) (hn : n ≤ r.production.length) : ∃ t,
      r.states[n]? = some t ∧ a.walk? q (r.production.symbols.take n) = some t := by
  have hlt : n < r.states.length := by
    rw [h.length_eq]
    omega
  have hget := List.getElem?_eq_getElem hlt
  exact ⟨_, hget, (h.path n hn).symm.trans hget⟩

/-- A rule that passes through the states of its production is the production recognised from there. -/
theorem ExtendedRule.Traces.recognisedFrom {a : Automaton} {q : Nat} {r : ExtendedRule}
    (h : r.Traces a q) : r.RecognisedFrom a q where
  instance_eq := by rw [instance?, h.entry_eq, Option.map_some]
  states_eq := fun _ hn => h.exists_state hn
  reduce_eq := by
    obtain ⟨t, -, ht⟩ := h.exists_state (Nat.le_refl _)
    rw [Production.length, List.take_length] at ht
    exact ⟨t, h.reduceState_eq.trans ht, ht⟩

namespace Automaton

variable {a : Automaton} {q t : Nat} {γ : List Symbol} {p : Production} {r : ExtendedRule}

theorem step_eq_ok_iff {X : Symbol} : a.step q X = .ok t ↔ a.target? q X = some t := by
  unfold step
  split <;> simp_all

/-- A trail lists the states after each symbol. -/
theorem trail_eq_ok {path : List Nat} (h : a.trail q γ = .ok path) :
    path.length = γ.length ∧
      ∀ n ≤ γ.length, ∃ t, (q :: path)[n]? = some t ∧ a.walk? q (γ.take n) = some t := by
  induction γ generalizing q path with
  | nil =>
      obtain rfl : [] = path := by simpa [trail] using h
      refine ⟨rfl, fun n hn => ?_⟩
      obtain rfl : n = 0 := Nat.le_zero.1 hn
      exact ⟨q, rfl, rfl⟩
  | cons X γ ih =>
      rw [trail, bind_eq_ok_iff] at h
      obtain ⟨next, hnext, h⟩ := h
      obtain ⟨path', hpath', h⟩ := bind_eq_ok_iff.1 h
      obtain rfl : next :: path' = path := by simpa [pure, Except.pure] using h
      obtain ⟨hlen, hall⟩ := ih hpath'
      refine ⟨by simp [hlen], fun n hn => ?_⟩
      cases n with
      | zero => exact ⟨q, rfl, rfl⟩
      | succ n =>
          obtain ⟨t, ht, hw⟩ := hall n (Nat.le_of_succ_le_succ hn)
          exact ⟨t, ht, by simp [walk?, step_eq_ok_iff.1 hnext, hw]⟩

/-- The last state of a trail is where the symbols lead. -/
theorem getLastD_of_trail {γ : List Symbol} {path : List Nat} (h : a.trail q γ = .ok path) :
    a.walk? q γ = some (path.getLastD q) := by
  obtain ⟨hlen, hall⟩ := trail_eq_ok h
  obtain ⟨t, ht, hw⟩ := hall _ (Nat.le_refl _)
  rw [List.take_length] at hw
  rw [hw, ← ht, ← hlen]
  cases path with
  | nil => rfl
  | cons s path => simp [List.getLastD_eq_getLast?, List.getLast?_eq_getElem?]

/-- A rule that is built passes through the states of its production. -/
theorem traces_of_extendedRule (h : a.extendedRule q p = .ok r) : r.production = p ∧ r.Traces a q := by
  rw [extendedRule, bind_eq_ok_iff] at h
  obtain ⟨path, hpath, h⟩ := h
  obtain ⟨hlen, hall⟩ := trail_eq_ok hpath
  have hexit : ∃ exit, (⟨p, q :: path ++ [exit]⟩ : ExtendedRule) = r ∧
      (if p.name = startSymbol then a.walk? q p.symbols else a.target? q p.name) = some exit := by
    simp only at h
    split at h
    · next hname => exact ⟨_, Except.ok.inj h, by rw [if_pos hname, getLastD_of_trail hpath]⟩
    · next hname =>
        obtain ⟨exit, hexit, h⟩ := bind_eq_ok_iff.1 h
        exact ⟨exit, Except.ok.inj h, by rw [if_neg hname, step_eq_ok_iff.1 hexit]⟩
  obtain ⟨exit, rfl, hexit⟩ := hexit
  refine ⟨rfl, by simp [hlen, Production.length], fun n hn => ?_, ?_⟩
  · obtain ⟨t, ht, hw⟩ := hall n hn
    rw [hw, ← ht]
    refine List.getElem?_append_left ?_
    rw [List.length_cons, hlen]
    exact Nat.lt_succ_of_le hn
  · rw [hexit]
    simp [Production.length, ← hlen]

/-- A rule that is built is its production recognised from its state. -/
theorem recognisedFrom_of_extendedRule (h : a.extendedRule q p = .ok r) :
    r.production = p ∧ r.RecognisedFrom a q :=
  ⟨(traces_of_extendedRule h).1, (traces_of_extendedRule h).2.recognisedFrom⟩

/-- There is a trail along every string that leads somewhere. -/
theorem exists_trail (h : a.walk? q γ = some t) : ∃ path, a.trail q γ = .ok path := by
  induction γ generalizing q with
  | nil => exact ⟨[], rfl⟩
  | cons X γ ih =>
      obtain ⟨next, hnext, h⟩ := Option.bind_eq_some_iff.1 h
      obtain ⟨path, hpath⟩ := ih h
      refine ⟨next :: path, ?_⟩
      rw [trail, step_eq_ok_iff.2 hnext]
      show (a.trail next γ >>= _) = _
      rw [hpath]
      rfl

theorem mem_freshProductions_iff {items : List Item} :
    p ∈ freshProductions items ↔ Item.fresh p ∈ items := by
  simp only [freshProductions, List.mem_map, List.mem_filter, decide_eq_true_eq]
  constructor
  · rintro ⟨⟨p', n⟩, ⟨hi, rfl⟩, rfl⟩
    exact hi
  · exact fun h => ⟨_, ⟨h, rfl⟩, rfl⟩

/-- The extended grammar has a rule for every state and every production fresh in it. -/
theorem mem_extendedRules_iff {rules : List ExtendedRule} (h : a.extendedRules = .ok rules) :
    r ∈ rules ↔ ∃ q p, a.Holds q (.fresh p) ∧ a.extendedRule q p = .ok r := by
  rw [extendedRules, bind_eq_ok_iff] at h
  obtain ⟨perState, hper, h⟩ := h
  obtain rfl : perState.flatten = rules := by simpa [pure, Except.pure] using h
  rw [List.mem_flatten]
  constructor
  · rintro ⟨rs, hrs, hr⟩
    obtain ⟨⟨items, q⟩, hmem, hrs⟩ := (mem_of_mapM_eq_ok hper).1 hrs
    obtain ⟨p, hp, hpr⟩ := (mem_of_mapM_eq_ok hrs).1 hr
    exact ⟨q, p, ⟨items, List.mem_zipIdx_iff_getElem?.1 hmem, mem_freshProductions_iff.1 hp⟩, hpr⟩
  · rintro ⟨q, p, ⟨items, hget, hp⟩, hpr⟩
    have hmem : (items, q) ∈ a.itemSets.zipIdx := List.mem_zipIdx_iff_getElem?.2 hget
    obtain ⟨rs, hrs, hrun⟩ := exists_of_mapM_eq_ok hper hmem
    exact ⟨rs, hrs, (mem_of_mapM_eq_ok hrun).2 ⟨p, mem_freshProductions_iff.2 hp, hpr⟩⟩

/-- Every production that is fresh in a state is recognised from it. -/
theorem exists_extendedRule {rules : List ExtendedRule} (h : a.extendedRules = .ok rules)
    (hp : a.Holds q (.fresh p)) : ∃ r ∈ rules, r.production = p ∧ r.RecognisedFrom a q := by
  have hall := h
  rw [extendedRules, bind_eq_ok_iff] at h
  obtain ⟨perState, hper, -⟩ := h
  obtain ⟨items, hget, hmem⟩ := id hp
  have hzip : (items, q) ∈ a.itemSets.zipIdx := List.mem_zipIdx_iff_getElem?.2 hget
  obtain ⟨rs, -, hrun⟩ := exists_of_mapM_eq_ok hper hzip
  obtain ⟨r, -, hr⟩ := exists_of_mapM_eq_ok hrun (mem_freshProductions_iff.2 hmem)
  exact ⟨r, (mem_extendedRules_iff hall).2 ⟨q, p, hp, hr⟩, recognisedFrom_of_extendedRule hr⟩

/-- The automaton of a grammar has an extended grammar: no production leads out of it. -/
theorem exists_extendedRules {g : Grammar} (hg : g.WellFormed) :
    ∃ rules, (Construction.automatonOf g).extendedRules = .ok rules := by
  have hrule {q : Nat} {p : Production} (hp : (Construction.automatonOf g).Holds q (.fresh p)) :
      ∃ r, (Construction.automatonOf g).extendedRule q p = .ok r := by
    obtain ⟨t, ht⟩ := hp.exists_walk_symbols hg
    obtain ⟨path, hpath⟩ := exists_trail ht
    rw [extendedRule, hpath]
    by_cases hname : p.name = startSymbol
    · exact ⟨⟨p, q :: path ++ [path.getLastD q]⟩, by simp [hname, bind, Except.bind, pure, Except.pure]⟩
    · obtain ⟨exit, hexit⟩ := hp.exists_target_name hg hname
      rw [← step_eq_ok_iff] at hexit
      exact ⟨⟨p, q :: path ++ [exit]⟩, by simp [hname, hexit, bind, Except.bind, pure, Except.pure]⟩
  have hrow : ∀ e ∈ (Construction.automatonOf g).itemSets.zipIdx, ∃ rs,
      (freshProductions e.1).mapM ((Construction.automatonOf g).extendedRule e.2) = .ok rs := by
    rintro ⟨items, q⟩ he
    refine exists_mapM_eq_ok fun p hp => hrule ⟨items, ?_, mem_freshProductions_iff.1 hp⟩
    exact List.mem_zipIdx_iff_getElem?.1 he
  obtain ⟨perState, hper⟩ := exists_mapM_eq_ok hrow
  exact ⟨perState.flatten, bind_eq_ok_iff.2 ⟨perState, hper, rfl⟩⟩

/-- Every rule of the extended grammar is a fresh production recognised from its state. -/
theorem exists_holds_of_mem_extendedRules {rules : List ExtendedRule}
    (h : a.extendedRules = .ok rules) (hr : r ∈ rules) :
    ∃ q, a.Holds q (.fresh r.production) ∧ r.RecognisedFrom a q := by
  obtain ⟨q, p, hp, hpr⟩ := (mem_extendedRules_iff h).1 hr
  obtain ⟨rfl, hrec⟩ := recognisedFrom_of_extendedRule hpr
  exact ⟨q, hp, hrec⟩

end Automaton

end Lalr
