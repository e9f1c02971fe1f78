import Lalr.Construction
import Lalr.Proofs.Fallible
import Lalr.Proofs.Keyed

/-!
# Lalr.Proofs.Table

What a table that is built without an error contains: exactly the actions that were installed
(`gains_tableOf`).  A cell keeps its first action and no other is ever installed there, so nothing
depends on the order.
-/

namespace Lalr

namespace TableBuilder

variable {b b' b'' : TableBuilder} {q q' : Nat} {s s' : Symbol} {a a' : Action}
  {R R' : Nat → Symbol → Action → Prop}

/-- Going from one builder to another, some actions come in and nothing else changes. -/
structure Gains (R : Nat → Symbol → Action → Prop) (b b' : TableBuilder) : Prop where
  cell : ∀ q s a, b'.table.action? q s = some a ↔ b.table.action? q s = some a ∨ R q s a
  size : b'.rows.length = b.rows.length
  rules : b'.rules = b.rules
  transitions : b'.transitions = b.transitions

theorem Gains.none (hR : ∀ q s a, ¬ R q s a) : Gains R b b :=
  ⟨fun _ _ _ => by simp [hR], rfl, rfl, rfl⟩

theorem Gains.trans (h : Gains R b b') (h' : Gains R' b' b'') :
    Gains (fun q s a => R q s a ∨ R' q s a) b b'' where
  cell := fun q s a => by rw [h'.cell, h.cell, or_assoc]
  size := h'.size.trans h.size
  rules := h'.rules.trans h.rules
  transitions := h'.transitions.trans h.transitions

theorem Gains.congr (h : Gains R b b') (hR : ∀ q s a, R q s a ↔ R' q s a) : Gains R' b b' where
  cell := fun q s a => by rw [h.cell, hR]
  size := h.size
  rules := h.rules
  transitions := h.transitions

/-! ## installing -/

theorem action?_set (hq : q < b.rows.length) (row : Row) :
    (Table.mk (b.rows.set q row)).action? q' s =
      if q = q' then row.get? s else b.table.action? q' s := by
  simp only [Table.action?, table, List.getElem?_set, hq, if_true]
  split <;> rfl

/-- Installing an action puts it into its cell. -/
theorem gains_install (h : b.install q s a = .ok b') :
    Gains (fun q' s' a' => q' = q ∧ s' = s ∧ a' = a) b b' := by
  unfold install at h
  split at h
  · contradiction
  · next row hrow =>
      have hcell : b.table.action? q s = row.get? s := by
        rw [Table.action?, table, hrow]
        rfl
      split at h
      · next hnone =>
          rw [← Except.ok.inj h]
          refine ⟨fun q' s' a' => ?_, by simp, rfl, rfl⟩
          have hq : q < b.rows.length := (List.getElem?_eq_some_iff.1 hrow).1
          rw [table, action?_set hq]
          by_cases hq' : q = q'
          · subst hq'
            rw [if_pos rfl, Keyed.get?_set]
            have hrow' : b.table.action? q s' = row.get? s' := by
              rw [Table.action?, table, hrow]
              rfl
            by_cases hs : s = s'
            · subst hs
              rw [if_pos rfl, hcell, hnone]
              simp [eq_comm]
            · have hs' : ¬ s' = s := fun e => hs e.symm
              simp [hs, hs', hrow']
          · have hq'' : ¬ q' = q := fun e => hq' e.symm
            simp [hq', hq'']
      · next existing hsome =>
          split at h
          · next heq =>
              rw [← Except.ok.inj h]
              refine ⟨fun q' s' a' => ?_, rfl, rfl, rfl⟩
              refine (or_iff_left_of_imp ?_).symm
              rintro ⟨rfl, rfl, rfl⟩
              rw [hcell, hsome, heq]
          · contradiction

/-- What is gained in a run over a list is what is gained for its members. -/
theorem gains_foldlM {α ε : Type} {f : TableBuilder → α → Except ε TableBuilder} {xs : List α}
    {R : α → Nat → Symbol → Action → Prop} (h : xs.foldlM f b = .ok b')
    (hstep : ∀ x ∈ xs, ∀ b₁ b₂, b₁.rules = b.rules → f b₁ x = .ok b₂ → Gains (R x) b₁ b₂) :
    Gains (fun q s a => ∃ x ∈ xs, R x q s a) b b' := by
  have hrun := foldlM_induction
    (P := fun done b₁ => (∀ x ∈ done, x ∈ xs) → Gains (fun q s a => ∃ x ∈ done, R x q s a) b b₁)
    (fun done x b₁ b₂ hgains hx hsub => ?_) (fun _ => Gains.none (by simp)) h
  · exact hrun fun _ => id
  · have hgains := hgains fun x hx => hsub x (List.mem_append_left _ hx)
    have hone := hstep x (hsub x (by simp)) b₁ b₂ hgains.rules hx
    refine (hgains.trans hone).congr fun q s a => ?_
    simp only [List.mem_append, List.mem_singleton, or_and_right, exists_or, exists_eq_left]

end TableBuilder

namespace Construction

open TableBuilder

variable {g : Grammar} {a : Automaton} {extended : List ExtendedRule} {follows : FollowSets}
  {table : Table} {b b' : TableBuilder} {r : ExtendedRule} {terminals : List Symbol}

/-! ## requests -/

/-- The action of a transition: a shift on a terminal, a goto on any other symbol. -/
def transitionAction (terminals : List Symbol) (s : Symbol) (target : Nat) : Action :=
  if s ∈ terminals then .shift target else .goto target

@[simp] theorem shift_eq_transitionAction_iff {s : Symbol} {q target : Nat} :
    .shift q = transitionAction terminals s target ↔ target = q ∧ s ∈ terminals := by
  unfold transitionAction
  split <;> simp_all [eq_comm]

@[simp] theorem goto_eq_transitionAction_iff {s : Symbol} {q target : Nat} :
    .goto q = transitionAction terminals s target ↔ target = q ∧ s ∉ terminals := by
  unfold transitionAction
  split <;> simp_all [eq_comm]

@[simp] theorem accept_ne_transitionAction {s : Symbol} {target : Nat} :
    Action.accept ≠ transitionAction terminals s target := by
  unfold transitionAction
  split <;> simp

@[simp] theorem reduce_ne_transitionAction {s A : Symbol} {target k n : Nat} :
    Action.reduce k A n ≠ transitionAction terminals s target := by
  unfold transitionAction
  split <;> simp

/-- The actions that the transitions of an automaton ask for. -/
def TransitionRequest (terminals : List Symbol) (a : Automaton) (q : Nat) (s : Symbol)
    (action : Action) : Prop :=
  ∃ target, a.target? q s = some target ∧ action = transitionAction terminals s target

/-- The acceptance that a rule asks for. -/
def AcceptRequest (r : ExtendedRule) (q : Nat) (s : Symbol) (action : Action) : Prop :=
  r.production.name = startSymbol ∧ r.reduceState? = some q ∧ s = endMarker ∧ action = .accept

/-- The reductions that a rule asks for. -/
def ReduceRequest (rules : List Production) (follows : FollowSets) (r : ExtendedRule) (q : Nat)
    (s : Symbol) (action : Action) : Prop :=
  r.production.name ≠ startSymbol ∧ r.reduceState? = some q ∧
    (∃ i, r.instance? = some i ∧ follows.sets.Has i s) ∧
    ∃ k, rules.idxOf? r.production = some k ∧
      action = .reduce k r.production.name r.production.length

/-- A row is installed action by action. -/
theorem installRow_eq (row : Transitions × Nat) : installRow terminals b row =
    row.1.entries.foldlM (fun b e => b.install row.2 e.1 (transitionAction terminals e.1 e.2)) b := by
  unfold installRow transitionAction
  congr 1
  funext b e
  split <;> rfl

theorem gains_installRow {row : Transitions × Nat} (h : installRow terminals b row = .ok b') :
    Gains (fun q s action => ∃ e ∈ row.1.entries,
      q = row.2 ∧ s = e.1 ∧ action = transitionAction terminals e.1 e.2) b b' := by
  rw [installRow_eq] at h
  exact gains_foldlM h fun _ _ _ _ _ => gains_install

/-- The rows together ask for what the transitions of the automaton ask for. -/
theorem rowRequest_iff {q : Nat} {s : Symbol} {action : Action} :
    (∃ row ∈ a.transitions.zipIdx, ∃ e ∈ row.1.entries,
      q = row.2 ∧ s = e.1 ∧ action = transitionAction terminals e.1 e.2) ↔
      TransitionRequest terminals a q s action := by
  constructor
  · rintro ⟨⟨row, q⟩, hrow, ⟨s, target⟩, he, rfl, rfl, rfl⟩
    have hget : a.transitions[q]? = some row := List.mem_zipIdx_iff_getElem?.1 hrow
    refine ⟨target, ?_, rfl⟩
    rw [Automaton.target?, hget]
    exact Keyed.mem_entries_iff.1 he
  · rintro ⟨target, ht, rfl⟩
    obtain ⟨row, hrow, hget⟩ := Option.bind_eq_some_iff.1 ht
    exact ⟨(row, q), List.mem_zipIdx_iff_getElem?.2 hrow, (s, target),
      Keyed.mem_entries_iff.2 hget, rfl, rfl, rfl⟩

theorem gains_transitions
    (h : a.transitions.zipIdx.foldlM (installRow terminals) b = .ok b') :
    Gains (TransitionRequest terminals a) b b' :=
  (gains_foldlM h fun _ _ _ _ _ => gains_installRow).congr fun _ _ _ => rowRequest_iff

theorem gains_installAccept (h : installAccept b r = .ok b') : Gains (AcceptRequest r) b b' := by
  unfold installAccept at h
  split at h
  · next hname =>
      split at h
      · contradiction
      · next q hq =>
          refine (gains_install (mapError_eq_ok_iff.1 h)).congr fun q' s action => ?_
          simp only [AcceptRequest, hname, hq, Option.some.injEq, true_and, eq_comm (a := q)]
  · next hname =>
      obtain rfl := Except.ok.inj h
      exact Gains.none fun q s action h => hname h.1

theorem gains_setReduce {q k : Nat} {s : Symbol} {p : Production} (hk : b.rules[k]? = some p)
    (h : b.setReduce q s k = .ok b') :
    Gains (fun q' s' action => q' = q ∧ s' = s ∧ action = .reduce k p.name p.length) b b' := by
  unfold setReduce at h
  rw [hk] at h
  exact gains_install h

/-- The members of the set of its instance are what a rule asks for reductions on. -/
theorem memberRequest_iff {rules : List Production} (hname : r.production.name ≠ startSymbol) {k q : Nat}
    {i : Instance} {set : SymbolSet} (hk : rules.idxOf? r.production = some k)
    (hi : r.instance? = some i) (hq : r.reduceState? = some q)
    (hset : follows.sets.get? i = some set) {q' : Nat} {s' : Symbol} {action : Action} :
    (∃ s ∈ set.toList, q' = q ∧ s' = s ∧
        action = .reduce k r.production.name r.production.length) ↔
      ReduceRequest rules follows r q' s' action := by
  constructor
  · rintro ⟨s, hs, rfl, rfl, rfl⟩
    exact ⟨hname, hq, ⟨i, hi, set, hset, hs⟩, k, hk, rfl⟩
  · rintro ⟨-, hq', ⟨i', hi', set', hset', hs⟩, k', hk', rfl⟩
    obtain rfl : i = i' := Option.some.inj (hi.symm.trans hi')
    obtain rfl : set = set' := Option.some.inj (hset.symm.trans hset')
    obtain rfl : k = k' := Option.some.inj (hk.symm.trans hk')
    exact ⟨s', hs, Option.some.inj (hq'.symm.trans hq), rfl, rfl⟩

theorem getElem?_of_idxOf? {rules : List Production} {p : Production} {k : Nat}
    (hk : rules.idxOf? p = some k) : rules[k]? = some p := by
  obtain ⟨hlt, hget, -⟩ := List.idxOf?_eq_some_iff.1 hk
  rw [List.getElem?_eq_getElem hlt, hget]

theorem gains_installReduces (h : installReduces follows b r = .ok b') :
    Gains (ReduceRequest b.rules follows r) b b' := by
  unfold installReduces at h
  split at h
  · next hname =>
      obtain rfl := Except.ok.inj h
      exact Gains.none fun q s action h => h.1 hname
  · next hname =>
      split at h
      · contradiction
      · contradiction
      · contradiction
      · next k i q hk hi hq =>
          split at h
          · contradiction
          · next set hset =>
              exact (gains_foldlM (mapError_eq_ok_iff.1 h) fun s _ b₁ b₂ hrules hs =>
                gains_setReduce (hrules ▸ getElem?_of_idxOf? hk) hs).congr fun q' s' action =>
                  memberRequest_iff hname hk hi hq hset

/-! ## the table -/

theorem action?_start (transitions : List Transitions) (rules : List Production) (q : Nat)
    (s : Symbol) : (start transitions rules).table.action? q s = none := by
  rw [Table.action?, TableBuilder.table, start, List.getElem?_map]
  cases transitions[q]? <;> rfl

/-- The actions of a table are those that its automaton and its extended grammar ask for. -/
theorem gains_tableOf (h : tableOf g a extended follows = .ok table) :
    table.rows.length = a.transitions.length ∧
      ∀ q s action, table.action? q s = some action ↔
        TransitionRequest g.terminalNames a q s action ∨
        (∃ r ∈ extended, AcceptRequest r q s action) ∨
        ∃ r ∈ extended, ReduceRequest g.productionList follows r q s action := by
  rw [tableOf] at h
  obtain ⟨b₁, h₁, h⟩ := bind_eq_ok_iff.1 h
  obtain ⟨b₂, h₂, h⟩ := bind_eq_ok_iff.1 h
  obtain ⟨b₃, h₃, h⟩ := bind_eq_ok_iff.1 h
  obtain rfl : b₃.table = table := by simpa [pure, Except.pure] using h
  have htrans := gains_transitions (mapError_eq_ok_iff.1 h₁)
  have haccept := gains_foldlM h₂ fun _ _ _ _ _ => gains_installAccept
  have hrules : b₂.rules = g.productionList := haccept.rules.trans htrans.rules
  have hreduce := gains_foldlM (R := ReduceRequest g.productionList follows) h₃
    fun r _ b b' hb hr => by
      rw [← hrules, ← hb]
      exact gains_installReduces hr
  have hall := (htrans.trans haccept).trans hreduce
  refine ⟨hall.size.trans (by simp [start]), fun q s action => ?_⟩
  rw [hall.cell, action?_start, or_iff_right (by simp), or_assoc]

end Construction

end Lalr
