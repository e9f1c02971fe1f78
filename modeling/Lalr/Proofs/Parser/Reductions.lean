import Lalr.Table.Basic
import Mathlib.Algebra.GroupWithZero.Nat
import Mathlib.Data.List.Perm.Subperm

/-!
# Lalr.Proofs.Parser.Reductions

Reductions in a row, at one lookahead.  Values play no part in them, so stacks are lists of states
here, the top first.

A sequence of reductions that ends repeats no stack.  What it puts on top of the stack that it starts
from repeats no state either (`Grown.nodup`): what happens above a state depends on nothing below it,
so a state that comes back on top of itself comes back for ever.  That leaves finitely many stacks to
go through (`Lasts.le_bound`).
-/

namespace Lalr.Parser

variable {t : Table} {actions : Nat} {a : Symbol} {qs qs' qs'' base X : List Nat} {k m n : Nat}

/-- A reduction, by a table for which a number of actions are bound, at a lookahead. -/
inductive Reduces (t : Table) (actions : Nat) (a : Symbol) : List Nat → List Nat → Prop
  | mk {q p r k n : Nat} {A : Symbol} {qs below : List Nat}
      (h : t.action? q a = some (.reduce k A n)) (hk : k < actions)
      (hdrop : (q :: qs).drop n = p :: below) (hgoto : t.action? p A = some (.goto r)) :
      Reduces t actions a (q :: qs) (r :: p :: below)

/-- A number of reductions in a row. -/
inductive After (t : Table) (actions : Nat) (a : Symbol) : Nat → List Nat → List Nat → Prop
  | zero {qs : List Nat} : After t actions a 0 qs qs
  | succ {k : Nat} {qs qs' qs'' : List Nat} (h : After t actions a k qs qs')
      (hr : Reduces t actions a qs' qs'') : After t actions a (k + 1) qs qs''

/-- Exactly so many reductions can be made in a row. -/
inductive Lasts (t : Table) (actions : Nat) (a : Symbol) : List Nat → Nat → Prop
  | stuck {qs : List Nat} (h : ∀ qs', ¬ Reduces t actions a qs qs') : Lasts t actions a qs 0
  | step {qs qs' : List Nat} {n : Nat} (h : Reduces t actions a qs qs')
      (h' : Lasts t actions a qs' n) : Lasts t actions a qs (n + 1)

/-- What a reduction of a stack looks up, by the state on top. -/
theorem Reduces.exists_action {q : Nat} (h : Reduces t actions a (q :: qs) qs') :
    ∃ k A n p r below, t.action? q a = some (.reduce k A n) ∧ k < actions ∧
      (q :: qs).drop n = p :: below ∧ t.action? p A = some (.goto r) ∧ qs' = r :: p :: below := by
  generalize hs : q :: qs = s at h
  obtain ⟨haction, hk, hdrop, hgoto⟩ := h
  obtain ⟨rfl, -⟩ := List.cons.inj hs
  exact ⟨_, _, _, _, _, _, haction, hk, hdrop, hgoto, rfl⟩

/-! ## determinism -/

theorem Reduces.unique (h : Reduces t actions a qs qs') (h' : Reduces t actions a qs qs'') :
    qs' = qs'' := by
  obtain ⟨haction, -, hdrop, hgoto⟩ := h
  obtain ⟨haction', -, hdrop', hgoto'⟩ := h'
  obtain ⟨-, rfl, rfl⟩ := Action.reduce.inj (Option.some.inj (haction.symm.trans haction'))
  obtain ⟨rfl, rfl⟩ := List.cons.inj (hdrop.symm.trans hdrop')
  rw [Action.goto.inj (Option.some.inj (hgoto.symm.trans hgoto'))]

theorem Lasts.unique (h : Lasts t actions a qs m) (h' : Lasts t actions a qs n) : m = n := by
  induction h generalizing n with
  | stuck h =>
      cases h' with
      | stuck => rfl
      | step hr _ => exact absurd hr (h _)
  | step hr _ ih =>
      cases h' with
      | stuck h => exact absurd hr (h _)
      | step hr' h' =>
          obtain rfl := hr.unique hr'
          rw [ih h']

theorem After.lasts (h : After t actions a k qs qs') (h' : Lasts t actions a qs' n) :
    Lasts t actions a qs (k + n) := by
  induction h generalizing n with
  | zero => rwa [Nat.zero_add]
  | @succ k _ _ _ _ hr ih =>
      rw [show k + 1 + n = k + (n + 1) by omega]
      exact ih (.step hr h')

theorem After.prepend (h : After t actions a k qs' qs'') (hr : Reduces t actions a qs qs') :
    After t actions a (k + 1) qs qs'' := by
  induction h with
  | zero => exact .succ .zero hr
  | succ _ hr' ih => exact .succ (ih hr) hr'

theorem After.trans (h : After t actions a k qs qs') (h' : After t actions a n qs' qs'') :
    After t actions a (k + n) qs qs'' := by
  induction h' with
  | zero => exact h
  | succ _ hr ih => exact (ih h).succ hr

/-! ## what lies below plays no part -/

theorem Reduces.append (h : Reduces t actions a qs qs') (base : List Nat) :
    Reduces t actions a (qs ++ base) (qs' ++ base) := by
  obtain ⟨haction, hk, hdrop, hgoto⟩ := h
  rename_i q p r k n A qs below
  have hn : n ≤ (q :: qs).length := by
    have := congrArg List.length hdrop
    simp only [List.length_drop, List.length_cons] at this ⊢
    omega
  have hdrop' : (q :: qs ++ base).drop n = p :: (below ++ base) := by
    rw [List.drop_append_of_le_length hn, hdrop]
    rfl
  exact .mk haction hk hdrop' hgoto

/-- The top part of a stack, alone, makes no more reductions than the whole stack. -/
theorem Lasts.of_append (h : Lasts t actions a (qs ++ base) n) :
    ∃ m ≤ n, Lasts t actions a qs m := by
  generalize hs : qs ++ base = s at h
  induction h generalizing qs with
  | stuck h =>
      refine ⟨0, Nat.le_refl 0, .stuck fun qs' hr => ?_⟩
      exact h _ (hs ▸ hr.append base)
  | @step s s' n hr _ ih =>
      by_cases hone : ∃ qs', Reduces t actions a qs qs'
      · obtain ⟨qs', hr'⟩ := hone
        obtain ⟨m, hm, hlasts⟩ := ih ((hr'.append base).unique (hs ▸ hr))
        exact ⟨m + 1, Nat.succ_le_succ hm, .step hr' hlasts⟩
      · exact ⟨0, Nat.zero_le _, .stuck fun qs' hr' => hone ⟨qs', hr'⟩⟩

theorem After.append (h : After t actions a k qs qs') (base : List Nat) :
    After t actions a k (qs ++ base) (qs' ++ base) := by
  induction h with
  | zero => exact .zero
  | succ _ hr ih => exact ih.succ (hr.append base)

theorem Reduces.two_le_length (h : Reduces t actions a qs qs') : 2 ≤ qs'.length := by
  obtain ⟨-, -, -, -⟩ := h
  exact Nat.succ_le_succ (Nat.succ_le_succ (Nat.zero_le _))

theorem After.ne_nil (h : After t actions a k qs qs') (hqs : qs ≠ []) : qs' ≠ [] := by
  cases h with
  | zero => exact hqs
  | succ _ hr =>
      rintro rfl
      exact absurd hr.two_le_length (by simp)

/-- A reduction of a stack is one of its top part, alone, or takes all of that off. -/
theorem Reduces.of_append {s : List Nat} (h : Reduces t actions a (qs ++ base) s) (hqs : qs ≠ []) :
    (∃ qs', Reduces t actions a qs qs' ∧ s = qs' ++ base) ∨
      ∃ r j, j < base.length ∧ s = r :: base.drop j := by
  obtain ⟨q', rest', rfl⟩ := List.exists_cons_of_ne_nil hqs
  generalize hall : q' :: rest' ++ base = all at h
  obtain ⟨haction, hk, hdrop, hgoto⟩ := h
  rename_i q p r k n A rest below
  obtain ⟨rfl, rfl⟩ := List.cons.inj hall
  change (q' :: rest' ++ base).drop n = p :: below at hdrop
  rw [List.drop_append] at hdrop
  by_cases hn : n < (q' :: rest').length
  · obtain ⟨p', below', hX⟩ := List.exists_cons_of_ne_nil
      (show (q' :: rest').drop n ≠ [] by rw [Ne, List.drop_eq_nil_iff]; omega)
    rw [hX, Nat.sub_eq_zero_of_le (Nat.le_of_lt hn), List.drop_zero, List.cons_append] at hdrop
    obtain ⟨rfl, rfl⟩ := List.cons.inj hdrop
    exact .inl ⟨_, .mk haction hk hX hgoto, rfl⟩
  · rw [List.drop_eq_nil_of_le (Nat.le_of_not_lt hn), List.nil_append] at hdrop
    have hne : base.drop (n - (q' :: rest').length) ≠ [] := hdrop ▸ List.cons_ne_nil p below
    rw [Ne, List.drop_eq_nil_iff, Nat.not_le] at hne
    exact .inr ⟨r, _, hne, by rw [hdrop]⟩

/-! ## where reductions lead -/

/-- Reductions that end lead to a stack where none can be made. -/
theorem Lasts.exists_after (h : Lasts t actions a qs n) :
    ∃ qs', After t actions a n qs qs' ∧ ∀ s, ¬ Reduces t actions a qs' s := by
  induction h with
  | stuck h => exact ⟨_, .zero, h⟩
  | step hr _ ih =>
      obtain ⟨s, hafter, hstuck⟩ := ih
      exact ⟨s, hafter.prepend hr, hstuck⟩

/-- Reductions that end do not come back to where they began. -/
theorem After.eq_zero (h : After t actions a k qs qs) (hlasts : Lasts t actions a qs n) : k = 0 := by
  have := (h.lasts hlasts).unique hlasts
  omega

theorem Reduces.of_le {actions' : Nat} (h : Reduces t actions a qs qs') (hle : actions ≤ actions') :
    Reduces t actions' a qs qs' := by
  obtain ⟨haction, hk, hdrop, hgoto⟩ := h
  exact .mk haction (Nat.lt_of_lt_of_le hk hle) hdrop hgoto

/-- With fewer actions bound, no more reductions can be made. -/
theorem Lasts.of_le {actions' : Nat} (h : Lasts t actions' a qs n) (hle : actions ≤ actions') :
    ∃ m ≤ n, Lasts t actions a qs m := by
  induction h with
  | stuck h => exact ⟨0, Nat.le_refl 0, .stuck fun s hr => h s (hr.of_le hle)⟩
  | @step qs s n hr _ ih =>
      obtain ⟨m, hm, hlasts⟩ := ih
      by_cases hone : ∃ s', Reduces t actions a qs s'
      · obtain ⟨s', hr'⟩ := hone
        obtain rfl := (hr'.of_le hle).unique hr
        exact ⟨m + 1, Nat.succ_le_succ hm, .step hr' hlasts⟩
      · exact ⟨0, Nat.zero_le _, .stuck fun s' hr' => hone ⟨s', hr'⟩⟩

/-! ## what reductions put on a stack -/

/-- What reductions have put on a stack.  Every state in it has an age, the number of reductions since
it came on top; these have made what is on it now.  All states but the top one have a row. -/
structure Grown (t : Table) (actions : Nat) (a : Symbol) (X : List Nat) : Prop where
  ages : ∃ age : Nat → Nat, (∀ i j, i < j → j < X.length → age i < age j) ∧
    ∀ i (h : i < X.length), After t actions a (age i) [X[i]] (X.take (i + 1))
  rows : ∀ q ∈ X.tail, q < t.rows.length

theorem grown_nil : Grown t actions a [] := ⟨⟨id, by simp, by simp⟩, by simp⟩

theorem grown_singleton (r : Nat) : Grown t actions a [r] where
  ages := by
    refine ⟨id, fun i j hij hj => hij, fun i hi => ?_⟩
    obtain rfl : i = 0 := by simpa using hi
    exact .zero
  rows := by simp

theorem lt_length_of_action? {q : Nat} {s : Symbol} {action : Action}
    (h : t.action? q s = some action) : q < t.rows.length := by
  obtain ⟨row, hrow, -⟩ := Option.bind_eq_some_iff.1 h
  exact (List.getElem?_eq_some_iff.1 hrow).1

/-- A reduction that takes nothing off below a state is one of what is on the state. -/
theorem reduces_take {p r i : Nat} {A : Symbol} {below : List Nat}
    (haction : ∀ q ∈ X.head?, t.action? q a = some (.reduce k A n)) (hk : k < actions)
    (hdrop : X.drop n = p :: below) (hgoto : t.action? p A = some (.goto r)) (hi : n + i < X.length) :
    Reduces t actions a (X.take (n + i + 1)) (r :: (p :: below).take (i + 1)) := by
  have htake : (X.take (n + i + 1)).drop n = (p :: below).take (i + 1) := by
    rw [List.drop_take, hdrop]
    congr 1
    omega
  cases X with
  | nil => simp at hi
  | cons q X =>
      rw [List.take_succ_cons] at htake ⊢
      rw [List.take_succ_cons]
      exact .mk (haction q rfl) hk htake hgoto

/-- A reduction that takes only part of it off makes it grow on. -/
theorem Grown.push (h : Grown t actions a X) {p r : Nat} {A : Symbol} {below : List Nat}
    (haction : ∀ q ∈ X.head?, t.action? q a = some (.reduce k A n)) (hk : k < actions)
    (hdrop : X.drop n = p :: below) (hgoto : t.action? p A = some (.goto r)) :
    Grown t actions a (r :: p :: below) := by
  obtain ⟨age, hage, hafter⟩ := h.ages
  have hlen : (p :: below).length = X.length - n := by rw [← hdrop, List.length_drop]
  refine ⟨⟨fun i => match i with | 0 => 0 | i + 1 => age (n + i) + 1, ?_, ?_⟩, ?_⟩
  · intro i j hij hj
    rw [List.length_cons, hlen] at hj
    cases j with
    | zero => omega
    | succ j =>
        cases i with
        | zero => exact Nat.succ_pos _
        | succ i => exact Nat.succ_lt_succ (hage (n + i) (n + j) (by omega) (by omega))
  · intro i hi
    cases i with
    | zero => exact .zero
    | succ i =>
        rw [List.length_cons, hlen] at hi
        have hni : n + i < X.length := by omega
        have hlt : i + 1 < (r :: p :: below).length := by
          rw [List.length_cons, hlen]
          omega
        have hget : (r :: p :: below)[i + 1] = X[n + i] := by
          simp only [List.getElem_cons_succ, ← hdrop, List.getElem_drop]
        rw [hget, List.take_succ_cons]
        exact (hafter (n + i) hni).succ (reduces_take haction hk hdrop hgoto hni)
  · intro q hq
    rw [List.tail_cons] at hq
    rcases List.mem_cons.1 hq with rfl | hq
    · exact lt_length_of_action? hgoto
    · have hbelow : below = X.tail.drop n := by
        rw [List.drop_tail, ← List.tail_drop, hdrop, List.tail_cons]
      exact h.rows q (List.mem_of_mem_drop (hbelow ▸ hq))

/-- What reductions that end have put on a stack holds no state twice. -/
theorem Grown.nodup (h : Grown t actions a X) (hlasts : Lasts t actions a (X ++ base) n) :
    X.Nodup := by
  obtain ⟨age, hage, hafter⟩ := h.ages
  rw [List.Nodup, List.pairwise_iff_getElem]
  intro i j hi hj hij heq
  -- Both would go through the same reductions, and the lower one comes first.
  have hcut (l : Nat) : X.take l ++ (X.drop l ++ base) = X ++ base := by
    rw [← List.append_assoc, List.take_append_drop]
  obtain ⟨mj, -, hj'⟩ := (hcut (j + 1) ▸ hlasts).of_append
  have hsub : X.take (i + 1) ++ (X.take (j + 1)).drop (i + 1) = X.take (j + 1) := by
    have := List.take_append_drop (i + 1) (X.take (j + 1))
    rwa [List.take_take, Nat.min_eq_left (by omega)] at this
  obtain ⟨mi, hle, hi'⟩ := (hsub ▸ hj').of_append
  have := ((hafter i hi).lasts hi').unique (heq ▸ (hafter j hj).lasts hj')
  have := hage i j hij hj
  omega

/-! ## stacks on the way -/

/-- A stack on the way from another: what reductions have put on what is left of it. -/
def OnWay (t : Table) (actions : Nat) (a : Symbol) (base qs : List Nat) : Prop :=
  ∃ X j, Grown t actions a X ∧ j ≤ base.length ∧ qs = X ++ base.drop j

theorem onWay_refl (base : List Nat) : OnWay t actions a base base :=
  ⟨[], 0, grown_nil, Nat.zero_le _, rfl⟩

theorem OnWay.reduces (h : OnWay t actions a base qs) (hr : Reduces t actions a qs qs') :
    OnWay t actions a base qs' := by
  obtain ⟨X, j, hgrown, hj, rfl⟩ := h
  generalize hs : X ++ base.drop j = s at hr
  obtain ⟨haction, hk, hdrop, hgoto⟩ := hr
  rename_i q p r k n A qs below
  rw [← hs, List.drop_append] at hdrop
  by_cases hn : n < X.length
  · have hne : X.drop n ≠ [] := by
      rw [Ne, List.drop_eq_nil_iff]
      omega
    obtain ⟨p', below', hX⟩ := List.exists_cons_of_ne_nil hne
    rw [hX, Nat.sub_eq_zero_of_le (Nat.le_of_lt hn), List.drop_zero, List.cons_append] at hdrop
    obtain ⟨rfl, rfl⟩ := List.cons.inj hdrop
    refine ⟨r :: p' :: below', j, hgrown.push (fun q' hq' => ?_) hk hX hgoto, hj, rfl⟩
    cases X with
    | nil => simp at hn
    | cons x X =>
        obtain ⟨rfl, -⟩ := List.cons.inj hs
        obtain rfl : x = q' := by simpa using hq'
        exact haction
  · have hX : X.drop n = [] := List.drop_eq_nil_iff.2 (Nat.le_of_not_lt hn)
    rw [hX, List.nil_append, List.drop_drop] at hdrop
    have hlen := congrArg List.length hdrop
    rw [List.length_drop, List.length_cons] at hlen
    exact ⟨[r], j + (n - X.length), grown_singleton r, by omega, by rw [hdrop]; rfl⟩

/-- Reductions that end repeat no stack. -/
theorem Lasts.exists_orbit (h : Lasts t actions a qs n) (hway : OnWay t actions a base qs) :
    ∃ orbit : List (List Nat), orbit.length = n ∧ orbit.Nodup ∧ ∀ s ∈ orbit,
      OnWay t actions a base s ∧ (∃ s', Reduces t actions a s s') ∧
        ∃ m ≤ n, Lasts t actions a s m := by
  induction h with
  | stuck => exact ⟨[], rfl, List.nodup_nil, by simp⟩
  | @step qs qs' n hr hlasts ih =>
      obtain ⟨orbit, hlen, hnd, hall⟩ := ih (hway.reduces hr)
      refine ⟨qs :: orbit, by simp [hlen], List.nodup_cons.2 ⟨fun hmem => ?_, hnd⟩, ?_⟩
      · obtain ⟨-, -, m, hm, hlasts'⟩ := hall qs hmem
        have := hlasts'.unique (.step hr hlasts)
        omega
      · intro s hs
        rcases List.mem_cons.1 hs with rfl | hs
        · exact ⟨hway, ⟨qs', hr⟩, n + 1, Nat.le_refl _, .step hr hlasts⟩
        · obtain ⟨hs₁, hs₂, m, hm, hs₃⟩ := hall s hs
          exact ⟨hs₁, hs₂, m, Nat.le_succ_of_le hm, hs₃⟩

/-! ## counting -/

/-- The lists of at most `m` numbers below `N`. -/
def words (N : Nat) : Nat → List (List Nat)
  | 0 => [[]]
  | m + 1 => [] :: (List.range N).flatMap fun q => (words N m).map (q :: ·)

theorem mem_words {N : Nat} (hlen : X.length ≤ m) (hall : ∀ q ∈ X, q < N) : X ∈ words N m := by
  induction m generalizing X with
  | zero =>
      obtain rfl : X = [] := List.length_eq_zero_iff.1 (Nat.le_zero.1 hlen)
      exact List.mem_cons_self
  | succ m ih =>
      cases X with
      | nil => exact List.mem_cons_self
      | cons q X =>
          refine List.mem_cons_of_mem _ (List.mem_flatMap.2 ⟨q, ?_, ?_⟩)
          · exact List.mem_range.2 (hall q List.mem_cons_self)
          · exact List.mem_map_of_mem
              (ih (Nat.le_of_succ_le_succ hlen) fun p hp => hall p (List.mem_cons_of_mem q hp))

theorem length_words_le (N m : Nat) : (words N m).length ≤ (N + 1) ^ m := by
  induction m with
  | zero => simp [words]
  | succ m ih =>
      have hone : 1 ≤ (N + 1) ^ m := Nat.one_le_pow _ _ (Nat.succ_pos N)
      have hmul : N * (words N m).length ≤ N * (N + 1) ^ m := Nat.mul_le_mul_left N ih
      have hlen : (words N (m + 1)).length = N * (words N m).length + 1 := by
        simp [words, List.length_flatMap]
      rw [hlen, Nat.pow_succ]
      calc N * (words N m).length + 1 ≤ N * (N + 1) ^ m + (N + 1) ^ m := Nat.add_le_add hmul hone
        _ = (N + 1) ^ m * (N + 1) := by rw [Nat.mul_add, Nat.mul_one, Nat.mul_comm]

/-- States that are distinct and have a row are no more than rows. -/
theorem length_le_of_rows (hnd : X.Nodup) (hrows : ∀ q ∈ X, q < t.rows.length) :
    X.length ≤ t.rows.length := by
  have hsub := List.subperm_of_subset hnd fun q hq => List.mem_range.2 (hrows q hq)
  simpa using hsub.length_le

theorem Grown.length_le (h : Grown t actions a X) (hlasts : Lasts t actions a (X ++ base) n) :
    X.length ≤ t.rows.length + 1 := by
  have hnd := h.nodup hlasts
  cases X with
  | nil => exact Nat.zero_le _
  | cons q X => exact Nat.succ_le_succ (length_le_of_rows (List.nodup_cons.1 hnd).2 h.rows)

/-- Reductions in a row are no more than there are stacks to go through. -/
theorem Lasts.le_bound (h : Lasts t actions a qs n) :
    n ≤ (qs.length + 1) * (t.rows.length + 1) ^ t.rows.length := by
  obtain ⟨orbit, hlen, hnd, hall⟩ := h.exists_orbit (onWay_refl qs)
  let candidates := (List.range (qs.length + 1)).flatMap fun j =>
    (words t.rows.length t.rows.length).map (· ++ qs.drop j)
  have hsub : ∀ s ∈ orbit, s ∈ candidates := by
    intro s hs
    obtain ⟨⟨X, j, hgrown, hj, rfl⟩, ⟨s', hr⟩, m, -, hlasts⟩ := hall s hs
    have hrows : ∀ q ∈ X, q < t.rows.length := by
      intro q hq
      cases X with
      | nil => simp at hq
      | cons x X =>
          rcases List.mem_cons.1 hq with rfl | hq
          · obtain ⟨_, _, _, _, _, _, haction, -⟩ := Reduces.exists_action hr
            exact lt_length_of_action? haction
          · exact hgrown.rows q hq
    refine List.mem_flatMap.2 ⟨j, List.mem_range.2 (Nat.lt_succ_of_le hj), List.mem_map_of_mem ?_⟩
    exact mem_words (length_le_of_rows (hgrown.nodup hlasts) hrows) hrows
  have hle := (List.subperm_of_subset hnd hsub).length_le
  rw [hlen] at hle
  refine Nat.le_trans hle ?_
  have hlength : candidates.length = (qs.length + 1) * (words t.rows.length t.rows.length).length := by
    simp [candidates, List.length_flatMap]
  rw [hlength]
  exact Nat.mul_le_mul_left _ (length_words_le _ _)

/-- Reductions in a row, if they end, make a stack higher by no more than the number of states and
one. -/
theorem After.length_le (h : After t actions a k qs qs') (hlasts : Lasts t actions a qs' n) :
    qs'.length ≤ qs.length + t.rows.length + 1 := by
  have hway : OnWay t actions a qs qs' := by
    clear hlasts
    induction h with
    | zero => exact onWay_refl _
    | succ _ hr ih => exact ih.reduces hr
  obtain ⟨X, j, hgrown, -, rfl⟩ := hway
  have := hgrown.length_le hlasts
  rw [List.length_append, List.length_drop]
  omega

end Lalr.Parser
