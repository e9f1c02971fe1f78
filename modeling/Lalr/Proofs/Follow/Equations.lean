import Lalr.Follow
import Lalr.Proofs.Digraph
import Lalr.Proofs.First

/-!
# Lalr.Proofs.Follow.Equations

What the rules of an extended grammar say about FOLLOW sets.  Every occurrence of an instance in a
rule contributes what can begin the rest of the rule and, if that rest can vanish, makes the instance
depend on the one that the rule recognises.  `Equations.reads_ofRules` says that reading the rules
collects exactly these contributions and dependencies.
-/

namespace Lalr.FollowSets

/-- An instance stands among symbols that are recognised from the listed states, with `rest` behind
it. -/
inductive Occurs (terminals : List Symbol) :
    List Symbol → List Nat → Instance → List Symbol → Prop
  | here {s : Symbol} {rest : List Symbol} {q : Nat} {states : List Nat} (hs : s ∉ terminals) :
      Occurs terminals (s :: rest) (q :: states) ⟨s, q⟩ rest
  | there {s : Symbol} {symbols rest : List Symbol} {states : List Nat} {i : Instance}
      (h : Occurs terminals symbols states.tail i rest) : Occurs terminals (s :: symbols) states i rest

/-- An instance stands in a rule, with `rest` behind it. -/
def OccursIn (terminals : List Symbol) (r : ExtendedRule) (i : Instance) (rest : List Symbol) :
    Prop :=
  Occurs terminals r.production.symbols r.states i rest

variable {terminals : List Symbol} {firsts : FirstSets} {rules : List ExtendedRule}
  {rule : ExtendedRule} {owner i j : Instance} {symbols rest : List Symbol} {states : List Nat}
  {t : Symbol} {eqs eqs' eqs'' : Equations} {P Q : Instance → List Symbol → Prop}

/-- A symbol is contributed to an instance. -/
def Contributed (rules : List ExtendedRule) (terminals : List Symbol) (firsts : FirstSets)
    (i : Instance) (t : Symbol) : Prop :=
  (i = ⟨startSymbol, 0⟩ ∧ t = endMarker) ∨
    ∃ r ∈ rules, ∃ rest, OccursIn terminals r i rest ∧ t ≠ epsilon ∧ firsts.SequenceHas rest t

/-- An instance depends on another. -/
def Depends (rules : List ExtendedRule) (terminals : List Symbol) (firsts : FirstSets)
    (i j : Instance) : Prop :=
  i ≠ j ∧ ∃ r ∈ rules, r.instance? = some j ∧
    ∃ rest, OccursIn terminals r i rest ∧ firsts.SequenceHas rest epsilon

/-! ## one occurrence, and the occurrences in one rule -/

namespace Equations

/-- What reading some occurrences in a rule adds. -/
structure Adds (firsts : FirstSets) (owner : Instance) (P : Instance → List Symbol → Prop)
    (eqs eqs' : Equations) : Prop where
  direct : ∀ i t, eqs'.direct.Has i t ↔
    eqs.direct.Has i t ∨ ∃ rest, P i rest ∧ t ≠ epsilon ∧ firsts.SequenceHas rest t
  edges : ∀ i j, eqs'.dependencies.HasEdge i j ↔ eqs.dependencies.HasEdge i j ∨
    (i ≠ j ∧ j = owner ∧ ∃ rest, P i rest ∧ firsts.SequenceHas rest epsilon)
  keys : ∀ i, i ∈ eqs'.direct.keys ↔ i ∈ eqs.direct.keys ∨ ∃ rest, P i rest

theorem Adds.none (hP : ∀ i rest, ¬ P i rest) : Adds firsts owner P eqs eqs :=
  ⟨fun _ _ => by simp [hP], fun _ _ => by simp [hP], fun _ => by simp [hP]⟩

theorem Adds.trans (h : Adds firsts owner P eqs eqs') (h' : Adds firsts owner Q eqs' eqs'') :
    Adds firsts owner (fun i rest => P i rest ∨ Q i rest) eqs eqs'' where
  direct := fun i t => by
    rw [h'.direct, h.direct, or_assoc, ← exists_or]
    simp only [or_and_right]
  edges := fun i j => by
    rw [h'.edges, h.edges, or_assoc, ← and_or_left, ← and_or_left, ← exists_or]
    simp only [or_and_right]
  keys := fun i => by rw [h'.keys, h.keys, or_assoc, ← exists_or]

theorem Adds.congr (h : Adds firsts owner P eqs eqs') (hPQ : ∀ i rest, P i rest ↔ Q i rest) :
    Adds firsts owner Q eqs eqs' := by
  have hPQ : P = Q := funext fun i => funext fun rest => propext (hPQ i rest)
  exact hPQ ▸ h

theorem adds_addOccurrence (h : eqs.addOccurrence firsts owner i rest = .ok eqs') :
    Adds firsts owner (fun i' rest' => i' = i ∧ rest' = rest) eqs eqs' := by
  unfold addOccurrence at h
  split at h
  · contradiction
  · next first hfirst =>
      have hmem (t : Symbol) : t ∈ first ↔ firsts.SequenceHas rest t :=
        FirstSets.mem_ofSequence hfirst
      have hdirect : eqs'.direct = eqs.direct.update i ∅ (·.union (first.erase epsilon)) := by
        split at h <;> rw [← Except.ok.inj h]
      have hedges (i' j : Instance) : eqs'.dependencies.HasEdge i' j ↔
          eqs.dependencies.HasEdge i' j ∨
            (i ≠ owner ∧ epsilon ∈ first ∧ i' = i ∧ j = owner) := by
        split at h
        · next hc =>
            rw [← Except.ok.inj h, Digraph.hasEdge_addEdge]
            simp [hc.1, hc.2]
        · next hc =>
            rw [← Except.ok.inj h]
            tauto
      refine ⟨fun i' t => ?_, fun i' j => ?_, fun i' => ?_⟩
      · rw [hdirect, Keyed.has_update_union, SymbolSet.mem_erase, hmem]
        refine or_congr_right ⟨?_, ?_⟩
        · rintro ⟨hi, ht, hne⟩
          exact ⟨rest, ⟨hi, rfl⟩, hne, ht⟩
        · rintro ⟨_, ⟨hi, hr⟩, hne, ht⟩
          exact ⟨hi, hr ▸ ht, hne⟩
      · rw [hedges, hmem]
        refine or_congr_right ⟨?_, ?_⟩
        · rintro ⟨hne, hε, rfl, rfl⟩
          exact ⟨hne, rfl, rest, ⟨rfl, rfl⟩, hε⟩
        · rintro ⟨hne, rfl, rest', ⟨rfl, rfl⟩, hε⟩
          exact ⟨hne, hε, rfl, rfl⟩
      · rw [hdirect, Keyed.mem_keys_update, or_comm]
        simp

theorem adds_addSymbols
    (h : eqs.addSymbols terminals firsts rule owner symbols states = .ok eqs') :
    Adds firsts owner (Occurs terminals symbols states) eqs eqs' := by
  induction symbols generalizing states eqs with
  | nil =>
      obtain rfl : eqs = eqs' := by simpa [addSymbols] using h
      exact .none fun i rest => by rintro ⟨⟩
  | cons s rest ih =>
      unfold addSymbols at h
      split at h
      · next hs =>
          refine (ih h).congr fun i rest' => ⟨.there, fun h => ?_⟩
          cases h with
          | here hs' => exact absurd hs hs'
          | there h => exact h
      · next hs =>
          cases states with
          | nil => contradiction
          | cons q states =>
              obtain ⟨eqs₁, hone, hrest⟩ := bind_eq_ok_iff.1 h
              refine ((adds_addOccurrence hone).trans (ih hrest)).congr fun i rest' => ⟨?_, ?_⟩
              · rintro (⟨rfl, rfl⟩ | h)
                · exact .here hs
                · exact .there h
              · rintro (hs | h)
                · exact .inl ⟨rfl, rfl⟩
                · exact .inr h

/-! ## all rules -/

/-- The equations say what the rules read so far do. -/
structure Reads (terminals : List Symbol) (firsts : FirstSets) (rules : List ExtendedRule)
    (eqs : Equations) : Prop where
  direct : ∀ i t, eqs.direct.Has i t ↔ Contributed rules terminals firsts i t
  edges : ∀ i j, eqs.dependencies.HasEdge i j ↔ Depends rules terminals firsts i j
  keys : ∀ i, i ∈ eqs.direct.keys ↔ i = ⟨startSymbol, 0⟩ ∨
    ∃ r ∈ rules, r.instance? = some i ∨ ∃ rest, OccursIn terminals r i rest

theorem Reads.not_hasEdge_self (h : Reads terminals firsts rules eqs) (i : Instance) :
    ¬ eqs.dependencies.HasEdge i i := fun hi => ((h.edges i i).1 hi).1 rfl

theorem adds_addRule (h : addRule terminals firsts eqs rule = .ok eqs') :
    ∃ owner, rule.instance? = some owner ∧
      Adds firsts owner (OccursIn terminals rule)
        { eqs with direct := eqs.direct.update owner ∅ id } eqs' := by
  unfold addRule at h
  split at h
  · contradiction
  · next owner howner => exact ⟨owner, howner, adds_addSymbols h⟩

theorem Reads.addRule (h : Reads terminals firsts rules eqs)
    (hadd : addRule terminals firsts eqs rule = .ok eqs') :
    Reads terminals firsts (rules ++ [rule]) eqs' := by
  obtain ⟨owner, howner, hadds⟩ := adds_addRule hadd
  have hmem {R : ExtendedRule → Prop} :
      (∃ r ∈ rules ++ [rule], R r) ↔ (∃ r ∈ rules, R r) ∨ R rule := by
    simp only [List.mem_append, List.mem_singleton, or_and_right, exists_or, exists_eq_left]
  refine ⟨fun i t => ?_, fun i j => ?_, fun i => ?_⟩
  · rw [hadds.direct, Keyed.has_update_id, h.direct, Contributed, Contributed, hmem, or_assoc]
  · rw [hadds.edges, h.edges, Depends, Depends, hmem, and_or_left]
    refine or_congr_right (and_congr_right fun _ => and_congr_left fun _ => ?_)
    rw [howner, Option.some.injEq, eq_comm]
  · rw [hadds.keys, Keyed.mem_keys_update, h.keys, hmem, howner, Option.some.injEq]
    grind

/-- The equations of some rules say exactly what the rules do. -/
theorem reads_ofRules (h : ofRules rules terminals firsts = .ok eqs) :
    Reads terminals firsts rules eqs := by
  have hone : ([(⟨startSymbol, 0⟩, SymbolSet.ofList [endMarker])].map
      (Prod.fst : Instance × SymbolSet → Instance)).Nodup := by simp
  have hget (i : Instance) : initial.direct.get? i =
      if ⟨startSymbol, 0⟩ = i then some (SymbolSet.ofList [endMarker]) else none := by
    rw [initial, Keyed.get?_ofList hone]
    rfl
  have hinit : Reads terminals firsts [] initial := by
    refine ⟨fun i t => ?_, fun i j => ?_, fun i => ?_⟩
    · by_cases hi : ⟨startSymbol, 0⟩ = i
      · rw [Keyed.has_iff (by rw [hget, if_pos hi])]
        simp [Contributed, hi]
      · have hi' : ¬ i = ⟨startSymbol, 0⟩ := fun e => hi e.symm
        simp [Keyed.Has, hget, hi, hi', Contributed]
    · simp [Depends, initial, Digraph.HasEdge, Digraph.targets]
    · rw [Keyed.mem_keys_iff]
      simp only [hget]
      by_cases hi : ⟨startSymbol, 0⟩ = i
      · simp [hi]
      · have hi' : ¬ i = ⟨startSymbol, 0⟩ := fun e => hi e.symm
        simp [hi, hi']
  exact foldlM_induction (fun _ _ _ _ hreads hadd => hreads.addRule hadd) hinit h

end Equations

end Lalr.FollowSets
