import Lalr.Keyed
import Lalr.SymbolSet

/-!
# Lalr.Proofs.Keyed

What the operations of a keyed map do to its look-ups, its keys and its entries.  Every look-up of
the construction goes through these lemmas; none of the later proofs opens the list of entries.
-/

namespace Lalr.Keyed

variable {κ β : Type} [DecidableEq κ]

/-! ## entries and keys -/

@[simp] theorem get?_empty (k : κ) : (∅ : Keyed κ β).get? k = none := rfl

/-- A value that a look-up finds is listed. -/
theorem mem_of_find?_eq_some {k : κ} {v : β} {es : List (κ × β)} (h : find? k es = some v) :
    (k, v) ∈ es := by
  induction es with
  | nil => simp [find?] at h
  | cons e rest ih =>
      obtain ⟨k₀, w⟩ := e
      by_cases hk : k₀ = k
      · simp only [find?, hk, if_true, Option.some.injEq] at h
        rw [hk, h]
        exact List.mem_cons_self
      · simp only [find?, hk, if_false] at h
        exact List.mem_cons_of_mem _ (ih h)

/-- The entries are the look-ups that succeed. -/
theorem mem_entries_iff {m : Keyed κ β} {k : κ} {v : β} :
    (k, v) ∈ m.entries ↔ m.get? k = some v :=
  ⟨get?_eq_some_of_mem, mem_of_find?_eq_some⟩

theorem mem_keys_iff {m : Keyed κ β} {k : κ} : k ∈ m.keys ↔ ∃ v, m.get? k = some v := by
  rw [← Option.isSome_iff_exists]
  exact (find?_isSome_iff k m.entries).symm

theorem get?_eq_none_iff {m : Keyed κ β} {k : κ} : m.get? k = none ↔ k ∉ m.keys := by
  rw [mem_keys_iff, Option.eq_none_iff_forall_ne_some]
  exact ⟨fun h ⟨v, hv⟩ => h v hv, fun h v hv => h ⟨v, hv⟩⟩

theorem mem_values_iff {m : Keyed κ β} {v : β} : v ∈ m.values ↔ ∃ k, m.get? k = some v := by
  simp only [values, List.mem_map, ← mem_entries_iff]
  exact ⟨fun ⟨⟨k, _⟩, he, hv⟩ => ⟨k, hv ▸ he⟩, fun ⟨k, he⟩ => ⟨(k, v), he, rfl⟩⟩

theorem mem_keys_set {m : Keyed κ β} {k k' : κ} {v : β} :
    k' ∈ (m.set k v).keys ↔ k' = k ∨ k' ∈ m.keys := by
  rw [keys_set]
  split
  · next h => exact ⟨.inr, fun h' => h'.elim (fun e => e ▸ h) id⟩
  · rw [List.mem_append, List.mem_singleton, or_comm]

/-- A value for a new key comes last. -/
theorem values_set_of_notMem {m : Keyed κ β} {k : κ} {v : β} (h : k ∉ m.keys) :
    (m.set k v).values = m.values ++ [v] := by
  obtain ⟨es, hn⟩ := m
  simp only [keys, set, values] at h ⊢
  clear hn
  induction es with
  | nil => rfl
  | cons e rest ih =>
      obtain ⟨k₀, w⟩ := e
      rw [List.map_cons, List.mem_cons, not_or] at h
      have hk : ¬ k₀ = k := fun e => h.1 e.symm
      simp [put, hk, ih h.2]

/-- A look-up after a change of all values sees the changed value. -/
theorem get?_mapValues {γ : Type} (f : κ → β → γ) (m : Keyed κ β) (k : κ) :
    (m.mapValues f).get? k = (m.get? k).map (f k) := by
  obtain ⟨es, hn⟩ := m
  simp only [get?, mapValues]
  clear hn
  induction es with
  | nil => rfl
  | cons e rest ih =>
      by_cases hk : e.1 = k <;> simp [find?, hk, ih]

/-! ## updates -/

/-- An update changes one look-up and no other. -/
theorem get?_update (m : Keyed κ β) (k k' : κ) (base : β) (f : β → β) :
    (m.update k base f).get? k' =
      if k = k' then some (f ((m.get? k).getD base)) else m.get? k' :=
  get?_set m k k' _

theorem mem_keys_update {m : Keyed κ β} {k k' : κ} {base : β} {f : β → β} :
    k' ∈ (m.update k base f).keys ↔ k' = k ∨ k' ∈ m.keys :=
  mem_keys_set

/-- Giving values to distinct keys: a look-up sees the value that was given, and the old map at all
other keys. -/
theorem get?_foldl_set {es : List (κ × β)} (hn : (es.map Prod.fst).Nodup) (m : Keyed κ β) (k : κ) :
    (es.foldl (fun m e => m.set e.1 e.2) m).get? k = (find? k es).or (m.get? k) := by
  induction es generalizing m with
  | nil => simp [find?]
  | cons e rest ih =>
      rw [List.map_cons, List.nodup_cons] at hn
      rw [List.foldl_cons, ih hn.2, get?_set]
      by_cases h : e.1 = k
      · have hrest : find? k rest = none := by
          rw [← Option.not_isSome_iff_eq_none, find?_isSome_iff]
          exact h ▸ hn.1
        simp [find?, h, hrest]
      · simp [find?, h]

/-- A map from a list of entries with distinct keys looks up those entries. -/
theorem get?_ofList {es : List (κ × β)} (hn : (es.map Prod.fst).Nodup) (k : κ) :
    (ofList es).get? k = find? k es := by
  rw [ofList, get?_foldl_set hn]
  simp

/-- A union sees the second map first. -/
theorem get?_union (m other : Keyed κ β) (k : κ) :
    (m.union other).get? k = (other.get? k).or (m.get? k) :=
  get?_foldl_set other.nodup_keys m k

/-! ## sets by key -/

/-- The set of a key has a member. -/
def Has (m : Keyed κ SymbolSet) (k : κ) (t : Symbol) : Prop := ∃ S, m.get? k = some S ∧ t ∈ S

theorem has_iff {m : Keyed κ SymbolSet} {k : κ} {t : Symbol} {S : SymbolSet}
    (h : m.get? k = some S) : m.Has k t ↔ t ∈ S := by
  simp [Has, h]

/-- Adding to the set of one key adds to no other. -/
theorem has_update_union {m : Keyed κ SymbolSet} {k k' : κ} {t : Symbol} {S : SymbolSet} :
    (m.update k ∅ (·.union S)).Has k' t ↔ m.Has k' t ∨ (k' = k ∧ t ∈ S) := by
  by_cases hk : k' = k
  · subst hk
    rw [has_iff (by rw [get?_update, if_pos rfl]), SymbolSet.mem_union]
    cases hget : m.get? k' <;> simp [Has, hget]
  · have hk' : ¬ k = k' := fun e => hk e.symm
    simp [Has, get?_update, hk, hk']

/-- A key that is given the empty set, if it has none, has no member by that. -/
theorem has_update_id {m : Keyed κ SymbolSet} {k k' : κ} {t : Symbol} :
    (m.update k ∅ id).Has k' t ↔ m.Has k' t := by
  by_cases hk : k = k'
  · subst hk
    rw [has_iff (by rw [get?_update, if_pos rfl])]
    cases hget : m.get? k <;> simp [Has, hget]
  · simp [Has, get?_update, hk]

/-! ## equality -/

/-- Entries of a map are its look-ups in the order of their keys. -/
theorem eq_filterMap_of_subset {m : Keyed κ β} {es : List (κ × β)} (h : ∀ e ∈ es, e ∈ m.entries) :
    es = (es.map Prod.fst).filterMap fun k => (m.get? k).map fun v => (k, v) := by
  induction es with
  | nil => rfl
  | cons e rest ih =>
      have he : m.get? e.1 = some e.2 := get?_eq_some_of_mem (h e List.mem_cons_self)
      have hrest := ih fun e' he' => h e' (List.mem_cons_of_mem _ he')
      simp only [List.map_cons, List.filterMap_cons, he, Option.map_some]
      rw [← hrest]

/-- Maps with the same keys, in the same order, and the same look-ups are equal. -/
theorem ext_get? {m n : Keyed κ β} (hk : m.keys = n.keys) (hv : ∀ k, m.get? k = n.get? k) :
    m = n := by
  have he : m.entries = n.entries := by
    rw [eq_filterMap_of_subset (m := m) fun _ h => h, eq_filterMap_of_subset (m := n) fun _ h => h,
      show m.entries.map Prod.fst = n.entries.map Prod.fst from hk]
    simp only [hv]
  cases m
  cases n
  simpa using he

/-! ## maps from their entries -/

theorem put_of_notMem {k : κ} {es : List (κ × β)} (h : k ∉ es.map Prod.fst) (v : β) :
    put k v es = es ++ [(k, v)] := by
  induction es with
  | nil => rfl
  | cons e rest ih =>
      rw [List.map_cons, List.mem_cons, not_or] at h
      rw [put, if_neg (Ne.symm h.1), ih h.2, List.cons_append]

theorem entries_foldl_set {m : Keyed κ β} {es : List (κ × β)} (h : (m.keys ++ es.map Prod.fst).Nodup) :
    (es.foldl (fun m e => m.set e.1 e.2) m).entries = m.entries ++ es := by
  induction es generalizing m with
  | nil => simp
  | cons e rest ih =>
      rw [List.map_cons] at h
      have hfresh : e.1 ∉ m.keys := fun hmem => (List.nodup_append.1 h).2.2 _ hmem _ List.mem_cons_self rfl
      have hput : (m.set e.1 e.2).entries = m.entries ++ [e] := put_of_notMem hfresh e.2
      have hkeys : (m.set e.1 e.2).keys = m.keys ++ [e.1] := by rw [keys_set, if_neg hfresh]
      rw [List.foldl_cons, ih (by rwa [hkeys, List.append_assoc]), hput, List.append_assoc,
        List.singleton_append]

/-- A map is the one from its entries. -/
theorem ofList_entries (m : Keyed κ β) : ofList m.entries = m := by
  have hentries : (ofList m.entries).entries = m.entries := entries_foldl_set m.nodup_keys
  cases hm : ofList m.entries
  cases m
  simpa [hm] using hentries

end Lalr.Keyed
