import Lalr.Automaton.Path
import Lalr.Proofs.Automaton.Exploration
import Lalr.Proofs.Keyed

/-!
# Lalr.Proofs.Automaton.Path

The search for a path finds a shortest one to every state that can be reached, and tells of every other
target that it cannot (`pathTo?_cases`), provided that all transitions lead to states that there are.

While it searches, every queued state comes with symbols that lead there, the shorter strings first, and
the lengths of two queued strings differ by one at most.  Whatever a followed state leads to has been
followed or is queued, with a string that is no longer than it need be.  So the string of the first state
in the queue, if that has not been followed, is a shortest one.
-/

namespace Lalr.Transitions

variable {a : Automaton} {target : Int} {q t : Nat} {X : Symbol} {path γ : List Symbol}
  {unvisited : List Nat} {rest queue : List (Nat × List Symbol)} {row : Transitions}

/-- A shortest string of symbols that leads from state 0 to a state. -/
structure Shortest (a : Automaton) (q : Nat) (path : List Symbol) : Prop where
  leads : a.walk? 0 path = some q
  le : ∀ γ, a.walk? 0 γ = some q → path.length ≤ γ.length

/-- The transitions of a state have been followed. -/
def Followed (a : Automaton) (unvisited : List Nat) (q : Nat) : Prop :=
  q < a.transitions.length ∧ q ∉ unvisited

/-- What holds while the target is searched for. -/
structure Searching (a : Automaton) (target : Int) (unvisited : List Nat)
    (queue : List (Nat × List Symbol)) : Prop where
  nodup : unvisited.Nodup
  queued : ∀ e ∈ queue, e.1 < a.transitions.length ∧ a.walk? 0 e.2 = some e.1
  sorted : queue.Pairwise fun e e' => e.2.length ≤ e'.2.length
  close : ∀ e ∈ queue, ∀ e' ∈ queue, e'.2.length ≤ e.2.length + 1
  start : Followed a unvisited 0 ∨ (0, []) ∈ queue
  leads : ∀ q γ X t, Followed a unvisited q → a.walk? 0 γ = some q → a.target? q X = some t →
    Followed a unvisited t ∨ ∃ path, (t, path) ∈ queue ∧ path.length ≤ γ.length + 1
  target : ∀ q, Followed a unvisited q → (q : Int) ≠ target

namespace Searching

/-- For a state that can be reached and has not been followed, a string is queued that is no longer than
any that leads there. -/
theorem exists_queued (h : Searching a target unvisited queue) (hq : ¬ Followed a unvisited q)
    (hw : a.walk? 0 γ = some q) : ∃ e ∈ queue, e.2.length ≤ γ.length := by
  induction γ using List.reverseRecOn generalizing q with
  | nil =>
      obtain rfl : 0 = q := by simpa [Automaton.walk?] using hw
      exact ⟨(0, []), h.start.resolve_left hq, Nat.le_refl _⟩
  | append_singleton γ X ih =>
      rw [Automaton.walk?_snoc] at hw
      obtain ⟨p, hp, ht⟩ := Option.bind_eq_some_iff.1 hw
      rw [List.length_append, List.length_singleton]
      by_cases hfollowed : Followed a unvisited p
      · obtain ⟨path, hpath, hle⟩ := (h.leads p γ X q hfollowed hp ht).resolve_left hq
        exact ⟨_, hpath, hle⟩
      · obtain ⟨e, he, hle⟩ := ih hfollowed hp
        exact ⟨e, he, Nat.le_succ_of_le hle⟩

/-- The string of the first state in the queue is a shortest one, unless the state has been followed. -/
theorem shortest (h : Searching a target unvisited ((q, path) :: rest))
    (hq : ¬ Followed a unvisited q) : Shortest a q path := by
  refine ⟨(h.queued _ List.mem_cons_self).2, fun γ hw => ?_⟩
  obtain ⟨e, he, hle⟩ := h.exists_queued hq hw
  rcases List.mem_cons.1 he with rfl | he
  · exact hle
  · exact Nat.le_trans ((List.pairwise_cons.1 h.sorted).1 e he) hle

/-- A state that has been followed is passed over. -/
theorem skip (h : Searching a target unvisited ((q, path) :: rest)) (hq : Followed a unvisited q) :
    Searching a target unvisited rest where
  nodup := h.nodup
  queued := fun e he => h.queued e (List.mem_cons_of_mem _ he)
  sorted := (List.pairwise_cons.1 h.sorted).2
  close := fun e he e' he' => h.close e (List.mem_cons_of_mem _ he) e' (List.mem_cons_of_mem _ he')
  start := by
    rcases h.start with h0 | h0
    · exact .inl h0
    · rcases List.mem_cons.1 h0 with heq | h0
      · exact .inl ((Prod.mk.inj heq).1 ▸ hq)
      · exact .inr h0
  leads := by
    intro p γ X t hp hw ht
    rcases h.leads p γ X t hp hw ht with hdone | ⟨path', hmem, hle⟩
    · exact .inl hdone
    · rcases List.mem_cons.1 hmem with heq | hmem
      · exact .inl ((Prod.mk.inj heq).1 ▸ hq)
      · exact .inr ⟨path', hmem, hle⟩
  target := h.target

/-- A state that has not been followed is, by queueing where its transitions lead. -/
theorem follow (h : Searching a target unvisited ((q, path) :: rest))
    (hvalid : ∀ q X t, a.target? q X = some t → t < a.transitions.length)
    (hrow : a.transitions[q]? = some row) (hq : q ∈ unvisited) (hne : (q : Int) ≠ target) :
    Searching a target (unvisited.erase q)
      (rest ++ row.entries.map fun e => (e.2, path ++ [e.1])) := by
  have hqueued := h.queued (q, path) List.mem_cons_self
  have hshortest : Shortest a q path := h.shortest fun hfollowed => hfollowed.2 hq
  have hmore : ∀ e ∈ row.entries.map fun e => (e.2, path ++ [e.1]), e.2.length = path.length + 1 := by
    intro e he
    obtain ⟨e', -, rfl⟩ := List.mem_map.1 he
    rw [List.length_append, List.length_singleton]
  have hle : ∀ e ∈ rest, path.length ≤ e.2.length := (List.pairwise_cons.1 h.sorted).1
  have hclose : ∀ e ∈ rest, e.2.length ≤ path.length + 1 := fun e he =>
    h.close _ List.mem_cons_self e (List.mem_cons_of_mem _ he)
  have htarget {X : Symbol} {t : Nat} : a.target? q X = some t ↔ (X, t) ∈ row.entries := by
    rw [Automaton.target?, hrow, Option.bind_some, Keyed.mem_entries_iff]
  have hfollowed {t : Nat} : Followed a (unvisited.erase q) t ↔
      t = q ∨ Followed a unvisited t := by
    unfold Followed
    rw [h.nodup.mem_erase_iff]
    by_cases ht : t = q
    · simp [ht, hqueued.1]
    · simp [ht]
  exact {
    nodup := h.nodup.erase q
    queued := by
      intro e he
      rcases List.mem_append.1 he with he | he
      · exact h.queued e (List.mem_cons_of_mem _ he)
      · obtain ⟨⟨X, t⟩, hmem, rfl⟩ := List.mem_map.1 he
        have ht := htarget.2 hmem
        refine ⟨hvalid q X t ht, ?_⟩
        rw [Automaton.walk?_snoc, hqueued.2]
        exact ht
    sorted := by
      refine List.pairwise_append.2 ⟨(List.pairwise_cons.1 h.sorted).2, ?_, fun e he e' he' => ?_⟩
      · exact List.pairwise_of_forall_mem_list fun e he e' he' =>
          Nat.le_of_eq ((hmore e he).trans (hmore e' he').symm)
      · rw [hmore e' he']
        exact hclose e he
    close := by
      intro e he e' he'
      have hlow : path.length ≤ e.2.length := by
        rcases List.mem_append.1 he with he | he
        · exact hle e he
        · rw [hmore e he]
          exact Nat.le_succ _
      rcases List.mem_append.1 he' with he' | he'
      · exact Nat.le_trans (hclose e' he') (Nat.succ_le_succ hlow)
      · rw [hmore e' he']
        exact Nat.succ_le_succ hlow
    start := by
      rcases h.start with h0 | h0
      · exact .inl (hfollowed.2 (.inr h0))
      · rcases List.mem_cons.1 h0 with heq | h0
        · exact .inl (hfollowed.2 (.inl (Prod.mk.inj heq).1))
        · exact .inr (List.mem_append_left _ h0)
    leads := by
      intro p γ X t hp hw ht
      rcases hfollowed.1 hp with rfl | hp
      · -- The string that comes with the state is a shortest one, so one symbol more is short enough.
        refine .inr ⟨path ++ [X], ?_, ?_⟩
        · exact List.mem_append_right _ (List.mem_map.2 ⟨(X, t), htarget.1 ht, rfl⟩)
        · rw [List.length_append, List.length_singleton]
          exact Nat.succ_le_succ (hshortest.le γ hw)
      · rcases h.leads p γ X t hp hw ht with hdone | ⟨path', hmem, hle'⟩
        · exact .inl (hfollowed.2 (.inr hdone))
        · rcases List.mem_cons.1 hmem with heq | hmem
          · exact .inl (hfollowed.2 (.inl (Prod.mk.inj heq).1))
          · exact .inr ⟨path', List.mem_append_left _ hmem, hle'⟩
    target := by
      intro p hp
      rcases hfollowed.1 hp with rfl | hp
      · exact hne
      · exact h.target p hp }

/-- The search ends with a shortest string to the target, or nothing leads there. -/
theorem searchFrom_cases (h : Searching a target unvisited queue)
    (hvalid : ∀ q X t, a.target? q X = some t → t < a.transitions.length) :
    (∃ (q : Nat) (path : List Symbol), (q : Int) = target ∧ searchFrom a.transitions target unvisited queue = .ok path ∧
      Shortest a q path) ∨
    (searchFrom a.transitions target unvisited queue = .error (.unreachable target) ∧
      ∀ (q : Nat) γ, a.walk? 0 γ = some q → (q : Int) ≠ target) := by
  fun_induction Transitions.searchFrom a.transitions target unvisited queue with
  | case1 =>
      refine .inr ⟨rfl, fun q γ hw heq => ?_⟩
      obtain ⟨e, he, -⟩ := h.exists_queued (fun hq => h.target q hq heq) hw
      exact absurd he List.not_mem_nil
  | case2 unvisited q path rest heq =>
      exact .inl ⟨q, path, heq, rfl, h.shortest fun hq => h.target q hq heq⟩
  | case3 unvisited q path rest _ hrow =>
      have hlt := (h.queued _ List.mem_cons_self).1
      exact absurd (List.getElem?_eq_none_iff.1 hrow) (Nat.not_le.2 hlt)
  | case4 unvisited q path rest hne row hrow hq ih =>
      rw [List.map_attach_eq_pmap, List.pmap_eq_map] at ih
      exact ih (h.follow hvalid hrow hq hne)
  | case5 unvisited q path rest _ row hrow hq ih =>
      exact ih (h.skip ⟨(h.queued _ List.mem_cons_self).1, hq⟩)

end Searching

/-- The search for a path finds a shortest one, or nothing leads to the target. -/
theorem pathTo?_cases (hvalid : ∀ q X t, a.target? q X = some t → t < a.transitions.length)
    (hstart : 0 < a.transitions.length) (target : Int) :
    (∃ (q : Nat) (path : List Symbol), (q : Int) = target ∧ pathTo? a.transitions target = .ok path ∧ Shortest a q path) ∨
    (pathTo? a.transitions target = .error (.unreachable target) ∧
      ∀ (q : Nat) γ, a.walk? 0 γ = some q → (q : Int) ≠ target) := by
  have hnone (q : Nat) : ¬ Followed a (List.range a.transitions.length) q := fun hq =>
    hq.2 (List.mem_range.2 hq.1)
  have hinit : Searching a target (List.range a.transitions.length) [(0, [])] := {
    nodup := List.nodup_range
    queued := by simpa [Automaton.walk?] using hstart
    sorted := List.pairwise_singleton _ _
    close := by simp
    start := .inr List.mem_cons_self
    leads := fun q γ X t hq => absurd hq (hnone q)
    target := fun q hq => absurd hq (hnone q) }
  exact hinit.searchFrom_cases hvalid

/-- There is a path to every state that can be reached, and it leads there. -/
theorem pathTo?_eq_ok {target : Nat}
    (hvalid : ∀ q X t, a.target? q X = some t → t < a.transitions.length)
    (htarget : target < a.transitions.length) (hreach : a.walk? 0 γ = some target) :
    ∃ path, pathTo? a.transitions target = .ok path ∧ a.walk? 0 path = some target := by
  rcases pathTo?_cases hvalid (Nat.zero_lt_of_lt htarget) target with
    ⟨q, path, heq, hpath, hshortest⟩ | ⟨-, hnone⟩
  · exact ⟨path, hpath, Int.ofNat.inj heq ▸ hshortest.leads⟩
  · exact absurd rfl (hnone target γ hreach)

end Lalr.Transitions
