import Lalr.Proofs.Automaton.Path
import Lalr.Proofs.Totality
import Mathlib

/-!
# Lalr.Proofs.Conflicts

A conflict is reported exactly when there is one (`conflict_iff`).  What every cell is asked to hold is
said without the construction: transitions of the automaton, acceptance, and the reductions of the
LALR(1) method (`Demands`).  If no cell is asked for two actions, the table holds what they are asked
for; otherwise the error shows two actions that one cell is asked for (`Reported`).

Which of several conflicts is reported depends on the order of installation.  Its kind does not:
transitions come first, so a shift that is asked for is always what the incoming action meets.
-/

namespace Lalr

namespace Construction

variable {g : Grammar} {c : Construction} {q : Nat} {s : Symbol} {action existing incoming : Action}
  {b : TableBuilder}

open TableBuilder (Clashes Gains)

/-- What a cell of the table is asked to hold. -/
inductive Demands (g : Grammar) (q : Nat) : Symbol → Action → Prop
  | shift {s : Symbol} {target : Nat} (ht : (automatonOf g).target? q s = some target)
      (hs : s ∈ g.terminalNames) : Demands g q s (.shift target)
  | goto {s : Symbol} {target : Nat} (ht : (automatonOf g).target? q s = some target)
      (hs : s ∉ g.terminalNames) : Demands g q s (.goto target)
  | accept (hq : (automatonOf g).walk? 0 [g.start] = some q) : Demands g q endMarker .accept
  | reduce {t : Symbol} {k : Nat} {p : Production} {d tail rest : List Symbol}
      (ht : t ∈ g.terminals.map Terminal.name ∨ t = endMarker) (hk : g.productionList[k]? = some p)
      (hctx : g.Context d p.name tail) (hw : (automatonOf g).walk? 0 (d ++ p.symbols) = some q)
      (hr : g.Produces.Derives tail (t :: rest)) : Demands g q t (.reduce k p.name p.length)

/-- Some cell is asked for two different actions. -/
def Contested (g : Grammar) : Prop :=
  ∃ q s action action', Demands g q s action ∧ Demands g q s action' ∧ action ≠ action'

/-- A conflict shows two different actions that its cell is asked for, in words, a path to its state,
and whether one of the actions is a shift. -/
structure Reported (g : Grammar) (conflict : Conflict) : Prop where
  existing : Demands g conflict.state conflict.symbol conflict.existing
  incoming : Demands g conflict.state conflict.symbol conflict.incoming
  ne : conflict.existing ≠ conflict.incoming
  existingText : TableBuilder.describe g.productionList conflict.existing = .ok conflict.existingText
  incomingText : TableBuilder.describe g.productionList conflict.incoming = .ok conflict.incomingText
  path : (automatonOf g).walk? 0 conflict.path = some conflict.state
  kind : conflict.kind = "shift/reduce" ∧
      (∃ target, Demands g conflict.state conflict.symbol (.shift target)) ∨
    conflict.kind = "reduce/reduce" ∧
      ¬ ∃ target, Demands g conflict.state conflict.symbol (.shift target)

/-! ## what is asked for -/

/-- No transition is on the end of the stream. -/
theorem target?_endMarker (hg : g.WellFormed) (q : Nat) :
    (automatonOf g).target? q endMarker = none := by
  refine Option.eq_none_iff_forall_ne_some.2 fun t ht => ?_
  exact hg.ne_end (Automaton.visible_of_target hg ht) rfl

theorem TransitionRequest.demands (h : TransitionRequest g.terminalNames (automatonOf g) q s action) :
    Demands g q s action := by
  obtain ⟨target, ht, rfl⟩ := h
  unfold transitionAction
  split
  · next hs => exact .shift ht hs
  · next hs => exact .goto ht hs

/-- What is installed is what the cells are asked to hold. -/
theorem Analysed.demands_iff (hc : Analysed g c) : Demands g q s action ↔
    (TransitionRequest g.terminalNames (automatonOf g) q s action ∨
      ∃ r ∈ c.extended, AcceptRequest r q s action) ∨
    ∃ r ∈ c.extended, ReduceRequest g.productionList c.follows r q s action := by
  rw [hc.exists_acceptRequest_iff, hc.exists_reduceRequest_iff]
  constructor
  · rintro (⟨ht, hs⟩ | ⟨ht, hs⟩ | hq | ⟨ht, hk, hctx, hw, hr⟩)
    · exact .inl (.inl ⟨_, ht, (if_pos hs).symm⟩)
    · exact .inl (.inl ⟨_, ht, (if_neg hs).symm⟩)
    · exact .inl (.inr ⟨Automaton.walk?_singleton .. ▸ hq, rfl, rfl⟩)
    · refine .inr ⟨_, _, hk, rfl, (hc.reduces_iff (List.mem_of_getElem? hk) ht).2 ⟨_, _, hctx, hw, ?_⟩⟩
      exact RuleSet.begins_iff.2 ⟨_, hr⟩
  · rintro ((h | ⟨hq, rfl, rfl⟩) | ⟨k, p, hk, rfl, hred⟩)
    · exact h.demands
    · exact .accept (by rwa [Automaton.walk?_singleton])
    · obtain ⟨ht, d, tail, hctx, hw, hb⟩ := hc.exists_context_of_reduces hred
      obtain ⟨rest, hr⟩ := hb.derives
      exact .reduce (lookahead_of_terminal ht) hk hctx hw hr

/-- A cell that is asked to hold something belongs to a state that can be reached. -/
theorem Demands.exists_walk (h : Demands g q s action) :
    ∃ γ, (automatonOf g).walk? 0 γ = some q := by
  cases h with
  | shift ht hs => exact Automaton.exists_walk_of_target ht
  | goto ht hs => exact Automaton.exists_walk_of_target ht
  | accept hq => exact ⟨_, hq⟩
  | reduce ht hk hctx hw hr => exact ⟨_, hw⟩

/-- What a cell is asked to hold can be put in words. -/
theorem Demands.exists_describe (h : Demands g q s action) :
    ∃ text, TableBuilder.describe g.productionList action = .ok text := by
  cases h with
  | shift ht hs => exact ⟨_, rfl⟩
  | goto ht hs => exact ⟨_, rfl⟩
  | accept hq => exact ⟨_, rfl⟩
  | reduce ht hk hctx hw hr => exact ⟨_, by rw [TableBuilder.describe, hk]⟩

/-! ## the report -/

/-- Two actions that a cell is asked to hold can be reported as a conflict. -/
theorem exists_conflictError (hg : g.WellFormed) (hb : b.transitions = (automatonOf g).transitions)
    (hb' : b.rules = g.productionList) (hexisting : Demands g q s existing)
    (hincoming : Demands g q s incoming) :
    ∃ path existingText incomingText,
      b.conflictError q s existing incoming =
        .conflict ⟨q, s, path, existing, incoming, existingText, incomingText⟩ ∧
      (automatonOf g).walk? 0 path = some q ∧
      TableBuilder.describe g.productionList existing = .ok existingText ∧
      TableBuilder.describe g.productionList incoming = .ok incomingText := by
  have hsize := (Automaton.explored_automatonOf g).2
  obtain ⟨γ, hγ⟩ := hexisting.exists_walk
  obtain ⟨path, hpath, hwalk⟩ := Transitions.pathTo?_eq_ok
    (fun q X t ht => hsize ▸ Automaton.target?_lt_size ht) (hsize ▸ Automaton.walk?_lt_size hg hγ) hγ
  obtain ⟨existingText, hexistingText⟩ := hexisting.exists_describe
  obtain ⟨incomingText, hincomingText⟩ := hincoming.exists_describe
  refine ⟨path, existingText, incomingText, ?_, hwalk, hexistingText, hincomingText⟩
  rw [TableBuilder.conflictError, hb, hb', hpath, hexistingText, hincomingText]

/-- If a shift that is asked for can only be the existing action, the kind of that action says whether
there is one. -/
theorem Demands.isShift_iff (h : Demands g q s existing)
    (hshift : ∀ target, Demands g q s (.shift target) → existing = .shift target) :
    existing.isShift ↔ ∃ target, Demands g q s (.shift target) := by
  constructor
  · intro hkind
    cases existing with
    | shift target => exact ⟨target, h⟩
    | reduce => contradiction
    | goto => contradiction
    | accept => contradiction
  · rintro ⟨target, htarget⟩
    rw [hshift target htarget]
    rfl

/-- If the table of an analysed grammar cannot be built, the error reports a conflict. -/
theorem Analysed.exists_reported (hc : Analysed g c) {e : BuildError}
    (h : tableOf g (automatonOf g) c.extended c.follows = .error e) :
    ∃ conflict, e = .table (.conflict conflict) ∧ Reported g conflict := by
  have hg := hc.wellFormed
  obtain ⟨b, -, hgains, rfl, q, s, existing, incoming, hclash, rfl⟩ :=
    exists_clashes_of_tableOf (fun r hr => hc.placed hr) (target?_endMarker hg) h
  have hcell {action : Action} : b.table.action? q s = some action ↔
      TransitionRequest g.terminalNames (automatonOf g) q s action ∨
        ∃ r ∈ c.extended, AcceptRequest r q s action := by
    rw [hgains.cell, action?_start, or_iff_right (by simp)]
  have hexisting : Demands g q s existing :=
    hc.demands_iff.2 (hclash.existing.imp_left hcell.1)
  have hincoming : Demands g q s incoming := hc.demands_iff.2 (.inr hclash.incoming)
  obtain ⟨path, existingText, incomingText, hreport, hpath, hexistingText, hincomingText⟩ :=
    exists_conflictError hg hgains.transitions hgains.rules hexisting hincoming
  refine ⟨⟨q, s, path, existing, incoming, existingText, incomingText⟩, by rw [hreport], hexisting,
    hincoming, hclash.ne, hexistingText, hincomingText, hpath, ?_⟩
  -- A shift that is asked for is in the cell already, so it is the existing action.
  have hkind := hexisting.isShift_iff fun target htarget => by
    obtain ⟨ht, hs⟩ := htarget
    exact (hclash.first _ (hcell.2 (.inl ⟨target, ht, (if_pos hs).symm⟩))).symm
  rw [← hkind, Conflict.kind]
  cases existing.isShift <;> simp

/-! ## the outcome -/

/-- Once it is checked and analysed, a grammar is left to its table. -/
theorem Analysed.ofGrammar_eq (hc : Analysed g c) (h : g.validate = .ok ()) :
    ofGrammar g = (tableOf g (automatonOf g) c.extended c.follows).map
      fun table => ⟨automatonOf g, c.extended, c.firsts, c.follows, table⟩ := by
  simp only [ofGrammar, h, ofChecked, extendedOf, hc.extended, firstsOf, hc.firsts, followsOf,
    hc.follows, Except.mapError, bind, Except.bind]
  cases tableOf g (automatonOf g) c.extended c.follows <;> rfl

/-- A grammar that passes its check gets the table that is asked for, or a conflict is reported. -/
theorem exists_table_or_reported (h : g.validate = .ok ()) :
    (∃ c, ofGrammar g = .ok c ∧
      ∀ q s action, c.table.action? q s = some action ↔ Demands g q s action) ∨
    ∃ conflict, ofGrammar g = .error (.table (.conflict conflict)) ∧ Reported g conflict := by
  obtain ⟨c, hc⟩ := exists_analysed (Grammar.wellFormed_of_validate h)
  rw [hc.ofGrammar_eq h]
  cases htable : tableOf g (automatonOf g) c.extended c.follows with
  | ok table =>
      refine .inl ⟨_, rfl, fun q s action => ?_⟩
      rw [(gains_tableOf htable).2, hc.demands_iff, or_assoc]
  | error e =>
      obtain ⟨conflict, rfl, hreported⟩ := hc.exists_reported htable
      exact .inr ⟨conflict, rfl, hreported⟩

/-- A conflict is reported if and only if some cell is asked for two different actions; otherwise the
table has exactly the actions that its cells are asked for. -/
theorem conflict_iff {g : Grammar} (h : g.validate = .ok ()) :
    ((∃ conflict, ofGrammar g = .error (.table (.conflict conflict))) ↔ Contested g) ∧
    (¬ Contested g → ∃ c, ofGrammar g = .ok c ∧
      ∀ q s action, c.table.action? q s = some action ↔ Demands g q s action) ∧
    ∀ conflict, ofGrammar g = .error (.table (.conflict conflict)) → Reported g conflict := by
  rcases exists_table_or_reported h with ⟨c, hc, hcells⟩ | ⟨conflict, hconflict, hreported⟩
  · have hcontested : ¬ Contested g := by
      rintro ⟨q, s, action, action', h, h', hne⟩
      rw [← hcells] at h h'
      exact hne (Option.some.inj (h.symm.trans h'))
    rw [hc]
    exact ⟨⟨nofun, fun h => absurd h hcontested⟩, fun _ => ⟨c, rfl, hcells⟩, nofun⟩
  · have hcontested : Contested g := ⟨_, _, _, _, hreported.existing, hreported.incoming, hreported.ne⟩
    rw [hconflict]
    refine ⟨⟨fun _ => hcontested, fun _ => ⟨conflict, rfl⟩⟩, fun h => absurd hcontested h, ?_⟩
    rintro conflict' ⟨⟩
    exact hreported

/-- Differences without parentheses: after a difference, another minus could belong to its right side or
have the difference as its left side. -/
def differenceGrammar : Grammar where
  rules := [⟨⟨"S", ["S", "minus", "S"]⟩, "$2", "t"⟩, ⟨⟨"S", ["one"]⟩, "$0", "t"⟩]
  terminals := [{ name := "minus", pattern := "-" }, { name := "one", pattern := "1" }]
  start := "S"

/-- The conflict that a construction ends with, if it does. -/
def conflict? : Except BuildError Construction → Option Conflict
  | .error (.table (.conflict conflict)) => some conflict
  | _ => none

theorem eq_error_of_conflict? {x : Except BuildError Construction} {conflict : Conflict}
    (h : conflict? x = some conflict) : x = .error (.table (.conflict conflict)) := by
  unfold conflict? at h
  split at h
  · rw [Option.some.inj h]
  · contradiction

set_option maxRecDepth 20000 in
/-- Without parentheses, differences are ambiguous, and that is reported. -/
theorem contested_difference : differenceGrammar.validate = .ok () ∧ Contested differenceGrammar := by
  have hvalid : differenceGrammar.validate = .ok () := by cbv
  have hreport : (conflict? (ofGrammar differenceGrammar)).isSome := by cbv
  obtain ⟨conflict, hconflict⟩ := Option.isSome_iff_exists.1 hreport
  exact ⟨hvalid, (conflict_iff hvalid).1.1 ⟨conflict, eq_error_of_conflict? hconflict⟩⟩

end Construction

end Lalr
