import Lalr.Proofs.Table

/-!
# Lalr.Proofs.Table.Clash

Why a table cannot be built: two different actions are asked for in one cell
(`exists_clashes_of_tableOf`).  Transitions never clash, nor does acceptance; so if anything does, it is
a reduction that comes in, and what it meets is the transition or the acceptance, if the cell has one.

What is looked up on the way has to be there (`Placed`).
-/

namespace Lalr

namespace TableBuilder

variable {b b' : TableBuilder} {q : Nat} {s : Symbol} {a a' : Action} {e : TableError}
  {R R' R'' : Nat → Symbol → Action → Prop}

/-- Two different actions meet in a cell: one that it has, or else is asked for, and one that is asked
for. -/
structure Clash (R : Nat → Symbol → Action → Prop) (b : TableBuilder) (q : Nat) (s : Symbol)
    (a a' : Action) : Prop where
  existing : b.table.action? q s = some a ∨ R q s a
  first : ∀ a₀, b.table.action? q s = some a₀ → a₀ = a
  incoming : R q s a'
  ne : a ≠ a'

/-- An error reports two different actions that meet in a cell. -/
def Clashes (R : Nat → Symbol → Action → Prop) (b : TableBuilder) (e : TableError) : Prop :=
  ∃ q s a a', Clash R b q s a a' ∧ e = b.conflictError q s a a'

/-- What clashes with what has come in clashes before that. -/
theorem Clashes.of_gains (h : Clashes R' b' e) (hgains : Gains R b b')
    (hR : ∀ q s a, R q s a → R'' q s a) (hR' : ∀ q s a, R' q s a → R'' q s a) :
    Clashes R'' b e := by
  obtain ⟨q, s, a, a', hclash, rfl⟩ := h
  refine ⟨q, s, a, a', ⟨?_, ?_, hR' q s a' hclash.incoming, hclash.ne⟩, ?_⟩
  · rcases hclash.existing with hcell | ha
    · exact ((hgains.cell q s a).1 hcell).imp_right (hR q s a)
    · exact .inr (hR' q s a ha)
  · exact fun a₀ h₀ => hclash.first a₀ ((hgains.cell q s a₀).2 (.inl h₀))
  · rw [conflictError, conflictError, hgains.rules, hgains.transitions]

theorem Clashes.congr (h : Clashes R b e) (hR : ∀ q s a, R q s a ↔ R' q s a) : Clashes R' b e := by
  obtain ⟨q, s, a, a', hclash, rfl⟩ := h
  exact ⟨q, s, a, a', ⟨hclash.existing.imp_right (hR q s a).1, hclash.first,
    (hR q s a').1 hclash.incoming, hclash.ne⟩, rfl⟩

/-- Installing an action fails if the cell has another one. -/
theorem clashes_install (hq : q < b.rows.length) (h : b.install q s a = .error e) :
    Clashes (fun q' s' a' => q' = q ∧ s' = s ∧ a' = a) b e := by
  have hrow := List.getElem?_eq_getElem hq
  unfold install at h
  rw [hrow] at h
  simp only at h
  split at h
  · contradiction
  · next existing hget =>
      split at h
      · contradiction
      · next hne =>
          have hcell : b.table.action? q s = some existing := by
            rw [Table.action?, table, hrow]
            exact hget
          exact ⟨q, s, existing, a, ⟨.inl hcell, fun a₀ h₀ => Option.some.inj (h₀.symm.trans hcell),
            ⟨rfl, rfl, rfl⟩, hne⟩, (Except.error.inj h).symm⟩

/-- A run over a list fails with a clash between what its members ask for, or with what was there. -/
theorem clashes_foldlM {α ε : Type} {f : TableBuilder → α → Except ε TableBuilder} {xs : List α}
    {R : α → Nat → Symbol → Action → Prop} {e : ε} (wrap : TableError → ε)
    (h : xs.foldlM f b = .error e)
    (hstep : ∀ x ∈ xs, ∀ b₁ b₂, b₁.rules = b.rules → f b₁ x = .ok b₂ → Gains (R x) b₁ b₂)
    (herror : ∀ x ∈ xs, ∀ b₁ e, b₁.rules = b.rules → b₁.rows.length = b.rows.length →
      f b₁ x = .error e → ∃ e', e = wrap e' ∧ Clashes (R x) b₁ e') :
    ∃ e', e = wrap e' ∧ Clashes (fun q s a => ∃ x ∈ xs, R x q s a) b e' := by
  obtain ⟨done, x, rest, b₁, rfl, hdone, hx⟩ := exists_of_foldlM_eq_error h
  have hgains := gains_foldlM (R := R) hdone fun x hx => hstep x (List.mem_append_left _ hx)
  obtain ⟨e', rfl, hclash⟩ := herror x (by simp) b₁ e hgains.rules hgains.size hx
  refine ⟨e', rfl, hclash.of_gains hgains ?_ ?_⟩
  · rintro q s a ⟨x', hx', ha⟩
    exact ⟨x', List.mem_append_left _ hx', ha⟩
  · exact fun q s a ha => ⟨x, by simp, ha⟩

end TableBuilder

namespace Construction

open TableBuilder

variable {g : Grammar} {a : Automaton} {extended : List ExtendedRule} {follows : FollowSets}
  {b b' : TableBuilder} {r : ExtendedRule} {terminals : List Symbol} {e : BuildError}

/-- What is looked up to install the reductions of a rule is there: the state where it is reduced, and
its production and FOLLOW set. -/
structure Placed (rules : List Production) (follows : FollowSets) (size : Nat) (r : ExtendedRule) :
    Prop where
  state : ∃ q, r.reduceState? = some q ∧ q < size
  rule : r.production.name ≠ startSymbol → ∃ k, rules.idxOf? r.production = some k
  follow : ∃ i set, r.instance? = some i ∧ follows.sets.get? i = some set

theorem clashes_transitions {e : TableError} (hsize : b.rows.length = a.transitions.length)
    (h : a.transitions.zipIdx.foldlM (installRow terminals) b = .error e) :
    Clashes (TransitionRequest terminals a) b e := by
  obtain ⟨e', rfl, hclash⟩ := clashes_foldlM id h (fun _ _ _ _ _ => gains_installRow)
    fun row hrow b₁ e _ hlen he => by
      have hq : row.2 < b₁.rows.length := by
        rw [hlen, hsize]
        exact (List.getElem?_eq_some_iff.1 (List.mem_zipIdx_iff_getElem?.1 hrow)).1
      rw [installRow_eq] at he
      refine clashes_foldlM id he (fun _ _ _ _ _ => gains_install) ?_
      exact fun entry _ b₂ e' _ hlen' he' => ⟨e', rfl, clashes_install (hlen' ▸ hq) he'⟩
  exact hclash.congr fun _ _ _ => rowRequest_iff

theorem clashes_installAccept (hr : Placed b.rules follows b.rows.length r)
    (h : installAccept b r = .error e) : ∃ e', e = .table e' ∧ Clashes (AcceptRequest r) b e' := by
  obtain ⟨q, hq, hlt⟩ := hr.state
  unfold installAccept at h
  split at h
  · next hname =>
      rw [hq] at h
      obtain ⟨e', he', rfl⟩ := mapError_eq_error_iff.1 h
      refine ⟨e', rfl, (clashes_install hlt he').congr fun q' s action => ?_⟩
      simp only [AcceptRequest, hname, hq, Option.some.injEq, true_and, eq_comm (a := q)]
  · contradiction

theorem clashes_installReduces (hr : Placed b.rules follows b.rows.length r)
    (h : installReduces follows b r = .error e) :
    ∃ e', e = .table e' ∧ Clashes (ReduceRequest b.rules follows r) b e' := by
  obtain ⟨q, hq, hlt⟩ := hr.state
  obtain ⟨i, set, hi, hset⟩ := hr.follow
  unfold installReduces at h
  split at h
  · contradiction
  · next hname =>
      obtain ⟨k, hk⟩ := hr.rule hname
      rw [hk, hi, hq] at h
      simp only [hset] at h
      obtain ⟨e', he', rfl⟩ := mapError_eq_error_iff.1 h
      obtain ⟨e', rfl, hclash⟩ := clashes_foldlM id he'
        (fun _ _ _ _ hrules => gains_setReduce (hrules ▸ getElem?_of_idxOf? hk))
        fun s _ b₁ e₁ hrules hlen he₁ => by
          rw [setReduce, hrules, getElem?_of_idxOf? hk] at he₁
          exact ⟨e₁, rfl, clashes_install (hlen ▸ hlt) he₁⟩
      exact ⟨e', rfl, hclash.congr fun _ _ _ => memberRequest_iff hname hk hi hq hset⟩

/-! ## the table -/

/-- Transitions do not clash. -/
theorem not_clashes_transitions {transitions : List Transitions} {rules : List Production}
    {e : TableError} : ¬ Clashes (TransitionRequest terminals a) (start transitions rules) e := by
  rintro ⟨q, s, action, action', hclash, -⟩
  obtain ⟨t', ht', rfl⟩ := hclash.incoming
  rcases hclash.existing with hcell | ⟨t, ht, rfl⟩
  · exact absurd (hcell.symm.trans (action?_start ..)) (by simp)
  · obtain rfl : t = t' := Option.some.inj (ht.symm.trans ht')
    exact hclash.ne rfl

/-- A table cannot be built because a reduction comes in where a different action is asked for.
Before the reductions, the table has all transitions and the acceptance. -/
theorem exists_clashes_of_tableOf
    (hrules : ∀ r ∈ extended, Placed g.productionList follows a.transitions.length r)
    (hend : ∀ q, a.target? q endMarker = none) (h : tableOf g a extended follows = .error e) :
    ∃ b e', Gains (fun q s action => TransitionRequest g.terminalNames a q s action ∨
        ∃ r ∈ extended, AcceptRequest r q s action) (start a.transitions g.productionList) b ∧
      e = .table e' ∧
      Clashes (fun q s action => ∃ r ∈ extended, ReduceRequest g.productionList follows r q s action)
        b e' := by
  rw [tableOf, bind_eq_error_iff] at h
  rcases h with h | ⟨b₁, h₁, h⟩
  · obtain ⟨e', he', -⟩ := mapError_eq_error_iff.1 h
    exact absurd (clashes_transitions (by simp [start]) he') not_clashes_transitions
  have htrans := gains_transitions (mapError_eq_ok_iff.1 h₁)
  have hsize₁ : b₁.rows.length = a.transitions.length := htrans.size.trans (by simp [start])
  rcases bind_eq_error_iff.1 h with h | ⟨b₂, h₂, h⟩
  · obtain ⟨e', -, q, s, action, action', hclash, -⟩ := clashes_foldlM BuildError.table h
      (fun _ _ _ _ _ => gains_installAccept) fun r hr b' e hrules' hlen he =>
        clashes_installAccept (by rw [hrules', hlen, hsize₁, htrans.rules]; exact hrules r hr) he
    obtain ⟨-, -, -, -, rfl, rfl⟩ := hclash.incoming
    -- No transition is on the end, so only acceptance can be there.
    rcases hclash.existing with hcell | ⟨-, -, -, -, -, rfl⟩
    · rw [htrans.cell, action?_start, or_iff_right (by simp)] at hcell
      obtain ⟨t, ht, -⟩ := hcell
      exact absurd (ht.symm.trans (hend q)) (by simp)
    · exact absurd rfl hclash.ne
  have haccept := gains_foldlM h₂ fun _ _ _ _ _ => gains_installAccept
  have hgains := htrans.trans haccept
  have hrules₂ : b₂.rules = g.productionList := hgains.rules
  rcases bind_eq_error_iff.1 h with h | ⟨b₃, -, h⟩
  · obtain ⟨e', rfl, hclash⟩ := clashes_foldlM BuildError.table h
      (R := ReduceRequest g.productionList follows)
      (fun r _ b' b'' hrules' hr => by
        rw [← hrules₂, ← hrules']
        exact gains_installReduces hr)
      fun r hr b' e hrules' hlen he => by
        have hb' : b'.rules = g.productionList := hrules'.trans hrules₂
        rw [← hb']
        refine clashes_installReduces ?_ he
        rw [hb', hlen, hgains.size, start, List.length_map]
        exact hrules r hr
    exact ⟨b₂, e', hgains, rfl, hclash⟩
  · contradiction

end Construction

end Lalr
