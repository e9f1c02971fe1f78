import Lalr.Proofs.Follow.Solution

/-!
# Lalr.Proofs.Follow.Totality

There are FOLLOW sets whenever the rules have enough states and all their symbols have FIRST sets
(`exists_ofRules`).  Everything that is looked up on the way is there: an instance depends on others only
where it stands in a rule, and then the instances at both ends have contributions of their own, and so
do their groups.
-/

namespace Lalr.FollowSets

variable {terminals : List Symbol} {firsts : FirstSets} {rules : List ExtendedRule}
  {rule : ExtendedRule} {owner i j : Instance} {symbols rest : List Symbol} {states : List Nat}
  {g graph : Digraph Instance} {c : Condensation} {groups : Groups Instance}
  {sets base direct : Keyed Instance SymbolSet}

/-- A rule has an instance and a state for each of its symbols, and the symbols have FIRST sets. -/
structure Readable (firsts : FirstSets) (r : ExtendedRule) : Prop where
  owner : ∃ i, r.instance? = some i
  states : r.production.symbols.length ≤ r.states.length
  symbols : ∀ s ∈ r.production.symbols, s ∈ firsts.keys

/-- One state more than symbols is enough. -/
theorem readable_of_lt {r : ExtendedRule} (hstates : r.production.symbols.length < r.states.length)
    (hsymbols : ∀ s ∈ r.production.symbols, s ∈ firsts.keys) : Readable firsts r where
  owner := by
    obtain ⟨q, states, hq⟩ := List.exists_cons_of_length_pos (Nat.zero_lt_of_lt hstates)
    exact ⟨⟨r.production.name, q⟩, by rw [ExtendedRule.instance?, ExtendedRule.entry?, hq]; rfl⟩
  states := Nat.le_of_lt hstates
  symbols := hsymbols

namespace Equations

variable {eqs : Equations}

theorem exists_addOccurrence (hrest : ∀ s ∈ rest, s ∈ firsts.keys) :
    ∃ eqs', eqs.addOccurrence firsts owner i rest = .ok eqs' := by
  obtain ⟨first, hfirst⟩ := FirstSets.exists_ofSequence hrest
  rw [addOccurrence, hfirst]
  simp only
  split <;> exact ⟨_, rfl⟩

theorem exists_addSymbols (hstates : symbols.length ≤ states.length)
    (hsymbols : ∀ s ∈ symbols, s ∈ firsts.keys) :
    ∃ eqs', eqs.addSymbols terminals firsts rule owner symbols states = .ok eqs' := by
  induction symbols generalizing states eqs with
  | nil => exact ⟨eqs, rfl⟩
  | cons s rest ih =>
      cases states with
      | nil => exact absurd hstates (Nat.not_succ_le_zero _)
      | cons q states =>
          have hrest : ∀ s ∈ rest, s ∈ firsts.keys := fun t ht =>
            hsymbols t (List.mem_cons_of_mem s ht)
          have hlen : rest.length ≤ states.length := Nat.le_of_succ_le_succ hstates
          by_cases hs : s ∈ terminals
          · rw [addSymbols, if_pos hs]
            exact ih hlen hrest
          · obtain ⟨eqs₁, hone⟩ : ∃ eqs₁, eqs.addOccurrence firsts owner ⟨s, q⟩ rest = .ok eqs₁ :=
              exists_addOccurrence hrest
            rw [addSymbols, if_neg hs, hone]
            exact ih hlen hrest

theorem exists_ofRules (terminals : List Symbol) (hrules : ∀ r ∈ rules, Readable firsts r) :
    ∃ eqs, ofRules rules terminals firsts = .ok eqs := by
  obtain ⟨eqs, h, -⟩ := exists_foldlM_eq_ok (P := fun _ => True) (f := addRule terminals firsts)
    (b := initial) trivial fun r hr eqs _ => by
      obtain ⟨owner, howner⟩ := (hrules r hr).owner
      obtain ⟨eqs', h⟩ : ∃ eqs', addRule terminals firsts eqs r = .ok eqs' := by
        rw [addRule, howner]
        exact exists_addSymbols (hrules r hr).states (hrules r hr).symbols
      exact ⟨eqs', h, trivial⟩
  exact ⟨eqs, h⟩

/-- Both ends of a dependency have contributions. -/
theorem Reads.mem_keys_of_hasEdge (h : Reads terminals firsts rules eqs)
    (hedge : eqs.dependencies.HasEdge i j) : i ∈ eqs.direct.keys ∧ j ∈ eqs.direct.keys := by
  obtain ⟨-, r, hr, howner, rest, hi, -⟩ := (h.edges i j).1 hedge
  exact ⟨(h.keys i).2 (.inr ⟨r, hr, .inr ⟨rest, hi⟩⟩), (h.keys j).2 (.inr ⟨r, hr, .inl howner⟩)⟩

end Equations

/-! ## resolution -/

/-- The group of an instance with contributions has some. -/
theorem root_mem_keys_gather (hi : i ∈ direct.keys) : groups.root i ∈ (gather groups direct).keys := by
  have hfold (es : List (Instance × SymbolSet)) (m : Keyed Instance SymbolSet) (k : Instance)
      (hk : k ∈ m.keys ∨ ∃ e ∈ es, k = groups.root e.1) :
      k ∈ (es.foldl (fun m e => m.update (groups.root e.1) ∅ (·.union e.2)) m).keys := by
    induction es generalizing m with
    | nil => simpa using hk
    | cons e es ih =>
        refine ih _ ?_
        rw [Keyed.mem_keys_update]
        simp only [List.exists_mem_cons_iff] at hk
        tauto
  obtain ⟨S, hS⟩ := Keyed.mem_keys_iff.1 hi
  exact hfold _ _ _ (.inr ⟨(i, S), Keyed.mem_entries_iff.2 hS, rfl⟩)

/-- A node can be resolved if it and its targets have sets; no key is added. -/
theorem exists_resolveNode (hedge : ∀ n, graph.HasEdge i n → i ∈ sets.keys ∧ n ∈ sets.keys) :
    ∃ sets', resolveNode graph sets i = .ok sets' ∧ sets'.keys = sets.keys := by
  refine exists_foldlM_eq_ok (P := fun m : Keyed Instance SymbolSet => m.keys = sets.keys) rfl
    fun n hn m hm => ?_
  obtain ⟨hi, hn⟩ := hedge n hn
  rw [← hm] at hi hn
  obtain ⟨own, hown⟩ := Keyed.mem_keys_iff.1 hi
  obtain ⟨more, hmore⟩ := Keyed.mem_keys_iff.1 hn
  refine ⟨m.set i (own.union more), ?_, by rw [Keyed.keys_set, if_pos hi, hm]⟩
  rw [lookUp_eq_ok_iff.2 hown, lookUp_eq_ok_iff.2 hmore]
  rfl

/-- Nodes can be resolved in any order if both ends of every edge have sets. -/
theorem exists_sweep (hedge : ∀ x y, graph.HasEdge x y → x ∈ base.keys ∧ y ∈ base.keys)
    (order : List Instance) :
    ∃ sets, order.foldlM (resolveNode graph) base = .ok sets ∧ sets.keys = base.keys := by
  refine exists_foldlM_eq_ok (P := fun m : Keyed Instance SymbolSet => m.keys = base.keys) rfl
    fun i _ m hm => ?_
  have hi : ∀ n, graph.HasEdge i n → i ∈ m.keys ∧ n ∈ m.keys := fun n hn => hm ▸ hedge i n hn
  obtain ⟨m', hm', hkeys⟩ := exists_resolveNode hi
  exact ⟨m', hm', hkeys.trans hm⟩

theorem exists_resolve (hc : Merges g c)
    (hedge : ∀ x y, g.HasEdge x y → x ∈ direct.keys ∧ y ∈ direct.keys) :
    ∃ sets, resolve c direct = .ok sets ∧ ∀ i ∈ direct.keys, c.groups.root i ∈ sets.keys := by
  have hends : ∀ a b, c.graph.HasEdge a b →
      a ∈ (gather c.groups direct).keys ∧ b ∈ (gather c.groups direct).keys := by
    intro a b hab
    obtain ⟨-, x, y, hxy, rfl, rfl⟩ := (hc.edges a b).1 hab
    exact (hedge x y hxy).imp root_mem_keys_gather root_mem_keys_gather
  obtain ⟨sets, h, hkeys⟩ := exists_sweep hends c.graph.postOrder
  exact ⟨sets, h, fun i hi => hkeys ▸ root_mem_keys_gather hi⟩

/-- Rules that can be read have FOLLOW sets. -/
theorem exists_ofRules (terminals : List Symbol) (hrules : ∀ r ∈ rules, Readable firsts r) :
    ∃ f, ofRules rules terminals firsts = .ok f := by
  obtain ⟨eqs, heqs⟩ := Equations.exists_ofRules terminals hrules
  have hreads := Equations.reads_ofRules heqs
  obtain ⟨resolved, hresolved, hroots⟩ := exists_resolve
    (merges_condensation hreads.not_hasEdge_self) fun x y hxy => hreads.mem_keys_of_hasEdge hxy
  let f (i : Instance) : Except FollowError (Instance × SymbolSet) := do
    return (i, ← lookUp resolved ((condensation eqs.dependencies).groups.root i))
  have hlook : ∀ i ∈ eqs.direct.keys, ∃ e, f i = .ok e := by
    intro i hi
    obtain ⟨S, hS⟩ := Keyed.mem_keys_iff.1 (hroots i hi)
    exact ⟨(i, S), bind_eq_ok_iff.2 ⟨S, lookUp_eq_ok_iff.2 hS, rfl⟩⟩
  obtain ⟨es, hes⟩ := exists_mapM_eq_ok hlook
  exact ⟨_, bind_eq_ok_iff.2 ⟨eqs, heqs, bind_eq_ok_iff.2 ⟨resolved, hresolved,
    bind_eq_ok_iff.2 ⟨es, hes, rfl⟩⟩⟩⟩

end Lalr.FollowSets
