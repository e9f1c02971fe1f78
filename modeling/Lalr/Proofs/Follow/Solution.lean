import Lalr.Proofs.Follow.Condensation
import Lalr.Proofs.Follow.Equations

/-!
# Lalr.Proofs.Follow.Solution

FOLLOW sets are the least solution of what the rules say (`has_sets_iff`): a symbol follows an
instance if that takes finitely many contributions and dependencies to see, and not otherwise.

One sweep in dependency order resolves the groups (`has_sweep`), and the group of an instance
reaches the groups of the instances that it depends on, directly or not.
-/

namespace Lalr.FollowSets

variable {terminals : List Symbol} {firsts : FirstSets} {rules : List ExtendedRule}
  {g graph : Digraph Instance} {c : Condensation} {groups : Groups Instance} {i j n : Instance}
  {t : Symbol} {sets sets' base direct : Keyed Instance SymbolSet} {f : FollowSets}

/-- A symbol follows an instance: the end follows the start, whatever can begin the rest of a rule
follows an occurrence in front of that rest, and if the rest can vanish then what follows the
instance that the rule recognises follows the occurrence too. -/
inductive Follows (rules : List ExtendedRule) (terminals : List Symbol) (firsts : FirstSets) :
    Instance → Symbol → Prop
  | ending : Follows rules terminals firsts ⟨startSymbol, 0⟩ endMarker
  | direct {r : ExtendedRule} {i : Instance} {rest : List Symbol} {t : Symbol} (hr : r ∈ rules)
      (hi : OccursIn terminals r i rest) (hne : t ≠ epsilon) (ht : firsts.SequenceHas rest t) :
      Follows rules terminals firsts i t
  | inherit {r : ExtendedRule} {i owner : Instance} {rest : List Symbol} {t : Symbol}
      (hr : r ∈ rules) (howner : r.instance? = some owner) (hi : OccursIn terminals r i rest)
      (hε : firsts.SequenceHas rest epsilon) (ht : Follows rules terminals firsts owner t) :
      Follows rules terminals firsts i t

/-! ## resolution in order -/

theorem lookUp_eq_ok_iff {S : SymbolSet} : lookUp sets i = .ok S ↔ sets.get? i = some S := by
  unfold lookUp
  split <;> simp_all

/-- A group has what its members are contributed. -/
theorem has_gather : (gather groups direct).Has i t ↔ ∃ j, groups.root j = i ∧ direct.Has j t := by
  have hfold (es : List (Instance × SymbolSet)) (m : Keyed Instance SymbolSet) :
      (es.foldl (fun m e => m.update (groups.root e.1) ∅ (·.union e.2)) m).Has i t ↔
        m.Has i t ∨ ∃ e ∈ es, i = groups.root e.1 ∧ t ∈ e.2 := by
    induction es generalizing m with
    | nil => simp
    | cons e es ih =>
        rw [List.foldl_cons, ih, Keyed.has_update_union, or_assoc]
        simp only [List.exists_mem_cons_iff]
  have hempty : ¬ (∅ : Keyed Instance SymbolSet).Has i t := by simp [Keyed.Has]
  rw [gather, hfold, or_iff_right hempty]
  simp only [Prod.exists, Keyed.mem_entries_iff, Keyed.Has]
  constructor
  · rintro ⟨j, S, hS, hi, ht⟩
    exact ⟨j, hi.symm, S, hS, ht⟩
  · rintro ⟨j, hi, S, hS, ht⟩
    exact ⟨j, S, hS, hi.symm, ht⟩

/-- Resolving a node adds to its set the sets of its targets. -/
theorem has_resolveNode (h : resolveNode graph sets i = .ok sets') :
    sets'.Has j t ↔ sets.Has j t ∨ (j = i ∧ ∃ n, graph.HasEdge i n ∧ sets.Has n t) := by
  have hrun := foldlM_induction
    (P := fun done m => ∀ j t, Keyed.Has m j t ↔
      sets.Has j t ∨ (j = i ∧ ∃ n ∈ done, sets.Has n t))
    (fun done n m m' hm hstep j t => ?_) (fun j t => by simp) h
  · exact hrun j t
  · obtain ⟨own, hown, hstep⟩ := bind_eq_ok_iff.1 hstep
    obtain ⟨more, hmore, hstep⟩ := bind_eq_ok_iff.1 hstep
    rw [lookUp_eq_ok_iff] at hown hmore
    obtain rfl : m.set i (own.union more) = m' := by simpa [pure, Except.pure] using hstep
    have hset : (m.set i (own.union more)).Has j t ↔ m.Has j t ∨ (j = i ∧ m.Has n t) := by
      by_cases hj : i = j
      · subst hj
        rw [Keyed.has_iff (by rw [Keyed.get?_set, if_pos rfl]), SymbolSet.mem_union,
          Keyed.has_iff hown, Keyed.has_iff hmore]
        simp
      · have hj' : ¬ j = i := fun e => hj e.symm
        simp [Keyed.Has, Keyed.get?_set, hj, hj']
    rw [hset, hm, hm]
    simp only [List.mem_append, List.mem_singleton]
    grind

/-- What a node is to have after the sweep: the contributions to all nodes that it reaches. -/
def Collects (graph : Digraph Instance) (base : Keyed Instance SymbolSet) (i : Instance)
    (t : Symbol) : Prop :=
  ∃ j, graph.Reaches i j ∧ base.Has j t

theorem collects_iff :
    Collects graph base i t ↔ base.Has i t ∨ ∃ n, graph.HasEdge i n ∧ Collects graph base n t := by
  constructor
  · rintro ⟨j, hij, hj⟩
    rcases Relation.ReflTransGen.cases_head hij with rfl | ⟨n, hin, hnj⟩
    · exact .inl hj
    · exact .inr ⟨n, hin, j, hnj, hj⟩
  · rintro (hi | ⟨n, hin, j, hnj, hj⟩)
    · exact ⟨i, .refl, hi⟩
    · exact ⟨j, .head hin hnj, hj⟩

/-- The sweep: nodes that had their turn have everything, and the others what they had before. -/
theorem has_foldlM_resolveNode {order : List Instance} (horder : graph.Ordered order.reverse)
    (h : order.foldlM (resolveNode graph) base = .ok sets) :
    ∀ i t, sets.Has i t ↔ if i ∈ order then Collects graph base i t else base.Has i t := by
  have hrun := foldlM_induction
    (P := fun done m => graph.Ordered done.reverse → ∀ i t, Keyed.Has m i t ↔
      if i ∈ done then Collects graph base i t else base.Has i t)
    (fun done x m m' hm hstep => ?_) (fun _ i t => by simp) h
  · exact hrun horder
  · intro hdone i t
    rw [List.reverse_append, List.reverse_singleton, List.singleton_append] at hdone
    obtain _ | ⟨hx, hdone⟩ := hdone
    have hm := hm hdone
    -- The targets of `x` had their turn before it.
    have htargets : (∃ n, graph.HasEdge x n ∧ Keyed.Has m n t) ↔
        ∃ n, graph.HasEdge x n ∧ Collects graph base n t := by
      refine exists_congr fun n => and_congr_right fun hn => ?_
      rw [hm n t, if_pos (List.mem_reverse.1 (hx n hn))]
    rw [has_resolveNode hstep, htargets, hm i t]
    by_cases hix : i = x
    · subst hix
      rw [if_pos (List.mem_append_right _ (List.mem_singleton_self i)), and_iff_right rfl]
      split
      · exact or_iff_left_of_imp fun hn => collects_iff.2 (.inr hn)
      · exact collects_iff.symm
    · simp [hix]

/-- One sweep in the order of leaving gives every node the contributions to all nodes that it reaches. -/
theorem has_sweep (hacyclic : graph.findCycle = none)
    (h : graph.postOrder.foldlM (resolveNode graph) base = .ok sets) :
    sets.Has i t ↔ Collects graph base i t := by
  obtain ⟨horder, hkeys⟩ := Digraph.ordered_postOrder hacyclic
  rw [has_foldlM_resolveNode horder h]
  split
  · rfl
  · next hi =>
      have hnone : ∀ n, ¬ graph.HasEdge i n := fun n hn =>
        hi (hkeys i (Digraph.mem_keys_of_hasEdge hn))
      rw [collects_iff]
      simp [hnone]

/-! ## back from groups to instances -/

/-- What an instance reaches, its group reaches. -/
theorem Merges.reaches_root (h : Merges g c) (hij : g.Reaches i j) :
    c.graph.Reaches (c.groups.root i) (c.groups.root j) := by
  induction hij with
  | refl => exact .refl
  | @tail j k _ hedge ih =>
      by_cases hjk : c.groups.root j = c.groups.root k
      · exact hjk ▸ ih
      · exact ih.tail ((h.edges _ _).2 ⟨hjk, j, k, hedge, rfl, rfl⟩)

theorem Merges.collects_root_iff (h : Merges g c) :
    Collects c.graph (gather c.groups direct) (c.groups.root i) t ↔ Collects g direct i t := by
  constructor
  · rintro ⟨r, hr, hgather⟩
    obtain ⟨j, rfl, hj⟩ := has_gather.1 hgather
    exact ⟨j, h.reaches hr rfl rfl, hj⟩
  · rintro ⟨j, hij, hj⟩
    exact ⟨_, h.reaches_root hij, has_gather.2 ⟨j, rfl, hj⟩⟩

/-- Collecting contributions along dependencies gives what follows. -/
theorem Equations.Reads.collects_iff {eqs : Equations}
    (h : Equations.Reads terminals firsts rules eqs) :
    Collects eqs.dependencies eqs.direct i t ↔ Follows rules terminals firsts i t := by
  constructor
  · rintro ⟨j, hij, hj⟩
    induction hij using Relation.ReflTransGen.head_induction_on with
    | refl =>
        obtain ⟨rfl, rfl⟩ | ⟨r, hr, rest, hocc, hne, ht⟩ := (h.direct _ _).1 hj
        · exact .ending
        · exact .direct hr hocc hne ht
    | head hedge _ ih =>
        obtain ⟨-, r, hr, howner, rest, hocc, hε⟩ := (h.edges _ _).1 hedge
        exact .inherit hr howner hocc hε ih
  · intro hf
    induction hf with
    | ending => exact ⟨_, .refl, (h.direct _ _).2 (.inl ⟨rfl, rfl⟩)⟩
    | direct hr hi hne ht =>
        exact ⟨_, .refl, (h.direct _ _).2 (.inr ⟨_, hr, _, hi, hne, ht⟩)⟩
    | @inherit r i owner rest t hr howner hi hε _ ih =>
        obtain ⟨j, hj, ht⟩ := ih
        by_cases hio : i = owner
        · exact ⟨j, hio ▸ hj, ht⟩
        · exact ⟨j, .head ((h.edges _ _).2 ⟨hio, r, hr, howner, rest, hi, hε⟩) hj, ht⟩

theorem Equations.Reads.mem_keys_of_follows {eqs : Equations}
    (h : Equations.Reads terminals firsts rules eqs) (ht : Follows rules terminals firsts i t) :
    i ∈ eqs.direct.keys := by
  rw [h.keys]
  cases ht with
  | ending => exact .inl rfl
  | direct hr hi _ _ => exact .inr ⟨_, hr, .inr ⟨_, hi⟩⟩
  | inherit hr _ hi _ _ => exact .inr ⟨_, hr, .inr ⟨_, hi⟩⟩

/-! ## the sets -/

/-- The set of an instance is that of its group. -/
theorem get?_ofList_lookUp {keys : List Instance} (hkeys : keys.Nodup)
    {es : List (Instance × SymbolSet)}
    (h : keys.mapM (fun i => do return (i, ← lookUp base (groups.root i))) = .ok es)
    {S : SymbolSet} :
    (Keyed.ofList es).get? i = some S ↔ i ∈ keys ∧ base.get? (groups.root i) = some S := by
  have hone {i : Instance} {e : Instance × SymbolSet} :
      (do return (i, ← lookUp base (groups.root i)) : Except FollowError _) = .ok e ↔
        e.1 = i ∧ base.get? (groups.root i) = some e.2 := by
    rw [bind_eq_ok_iff, ← lookUp_eq_ok_iff]
    obtain ⟨i', S⟩ := e
    simp [pure, Except.pure, and_comm, eq_comm]
  have hfst : es.map Prod.fst = keys := by
    clear hkeys
    induction keys generalizing es with
    | nil =>
        obtain rfl : [] = es := by simpa [pure, Except.pure] using h
        rfl
    | cons k keys ih =>
        rw [List.mapM_cons, bind_eq_ok_iff] at h
        obtain ⟨e, he, h⟩ := h
        obtain ⟨es', hes', h⟩ := bind_eq_ok_iff.1 h
        obtain rfl : e :: es' = es := by simpa [pure, Except.pure] using h
        rw [List.map_cons, ih hes', (hone.1 he).1]
  have hnd : (es.map Prod.fst).Nodup := hfst ▸ hkeys
  have hget : (Keyed.ofList es).get? i = some S ↔ (i, S) ∈ es := by
    rw [Keyed.get?_ofList hnd]
    exact (Keyed.mem_entries_iff (m := ⟨es, hnd⟩)).symm
  simp only [hget, mem_of_mapM_eq_ok h, hone]
  constructor
  · rintro ⟨k, hk, rfl, hS⟩
    exact ⟨hk, hS⟩
  · rintro ⟨hi, hS⟩
    exact ⟨i, hi, rfl, hS⟩

/-- What the computation of FOLLOW sets goes through. -/
theorem exists_of_ofRules (h : ofRules rules terminals firsts = .ok f) : ∃ eqs resolved es,
    Equations.ofRules rules terminals firsts = .ok eqs ∧
      resolve (condensation eqs.dependencies) eqs.direct = .ok resolved ∧
      eqs.direct.keys.mapM (fun i => do
        return (i, ← lookUp resolved ((condensation eqs.dependencies).groups.root i))) = .ok es ∧
      f = ⟨Keyed.ofList es, (condensation eqs.dependencies).merged⟩ := by
  rw [ofRules, bind_eq_ok_iff] at h
  obtain ⟨eqs, heqs, h⟩ := h
  obtain ⟨resolved, hresolved, h⟩ := bind_eq_ok_iff.1 h
  obtain ⟨es, hes, h⟩ := bind_eq_ok_iff.1 h
  exact ⟨eqs, resolved, es, heqs, hresolved, hes, by simpa [pure, Except.pure] using h.symm⟩

/-- FOLLOW sets are the least solution of what the rules say. -/
theorem has_sets_iff (h : ofRules rules terminals firsts = .ok f) :
    f.sets.Has i t ↔ Follows rules terminals firsts i t := by
  obtain ⟨eqs, resolved, es, heqs, hresolved, hes, rfl⟩ := exists_of_ofRules h
  have hreads := Equations.reads_ofRules heqs
  have hloop := hreads.not_hasEdge_self
  have hkeys : eqs.direct.keys.Nodup := eqs.direct.nodup_keys
  have hsets : (Keyed.ofList es).Has i t ↔
      i ∈ eqs.direct.keys ∧ resolved.Has ((condensation eqs.dependencies).groups.root i) t := by
    simp only [Keyed.Has, get?_ofList_lookUp hkeys hes, and_assoc, exists_and_left]
  rw [hsets, has_sweep (findCycle_condensation hloop) hresolved,
    (merges_condensation hloop).collects_root_iff, hreads.collects_iff]
  exact and_iff_right_of_imp hreads.mem_keys_of_follows

/-- The start instance has a set, and so have all instances that a rule recognises or that stand in
one, and no others. -/
theorem mem_keys_sets_iff (h : ofRules rules terminals firsts = .ok f) :
    i ∈ f.sets.keys ↔ i = ⟨startSymbol, 0⟩ ∨
      ∃ r ∈ rules, r.instance? = some i ∨ ∃ rest, OccursIn terminals r i rest := by
  obtain ⟨eqs, resolved, es, heqs, -, hes, rfl⟩ := exists_of_ofRules h
  rw [← (Equations.reads_ofRules heqs).keys, Keyed.mem_keys_iff]
  simp only [get?_ofList_lookUp eqs.direct.nodup_keys hes, exists_and_left]
  refine and_iff_left_of_imp fun hi => ?_
  obtain ⟨e, -, he⟩ := exists_of_mapM_eq_ok hes hi
  obtain ⟨S, hS, -⟩ := bind_eq_ok_iff.1 he
  exact ⟨S, lookUp_eq_ok_iff.1 hS⟩

/-- Every instance that a rule recognises has a set. -/
theorem exists_get?_sets (h : ofRules rules terminals firsts = .ok f) {r : ExtendedRule}
    (hr : r ∈ rules) (hi : r.instance? = some i) : ∃ S, f.sets.get? i = some S :=
  Keyed.mem_keys_iff.1 ((mem_keys_sets_iff h).2 (.inr ⟨r, hr, .inl hi⟩))

end Lalr.FollowSets
