/-!
# Lalr.Keyed

Finite maps that remember the order in which their keys were first inserted.  The order is part of
the answer nearly everywhere in this library: states are numbered by it, tables are printed in it,
and error messages list the expected symbols in it.

`Keyed.get?_set` says what an update does to every look-up, and the field `nodup_keys` that no key
is listed twice.
-/

namespace Lalr

/-- A finite map with its entries in order of first insertion. -/
structure Keyed (κ : Type) (β : Type) where
  /-- The entries, oldest key first. -/
  entries : List (κ × β)
  /-- No key is listed twice. -/
  nodup_keys : (entries.map Prod.fst).Nodup

namespace Keyed

variable {κ β : Type}

instance : EmptyCollection (Keyed κ β) := ⟨⟨[], by simp⟩⟩

instance : Inhabited (Keyed κ β) := ⟨∅⟩

instance [DecidableEq κ] [DecidableEq β] : DecidableEq (Keyed κ β) := fun a b =>
  decidable_of_iff (a.entries = b.entries) <| by cases a; cases b; simp

instance [Repr κ] [Repr β] : Repr (Keyed κ β) := ⟨fun m => reprPrec m.entries⟩

/-- The keys, oldest first. -/
def keys (m : Keyed κ β) : List κ := m.entries.map Prod.fst

/-- The values, in the order of their keys. -/
def values (m : Keyed κ β) : List β := m.entries.map Prod.snd

/-- The number of keys. -/
def size (m : Keyed κ β) : Nat := m.entries.length

section

variable [DecidableEq κ]

/-- Look a key up in a list of entries. -/
def find? (k : κ) : List (κ × β) → Option β
  | [] => none
  | (k', v) :: rest => if k' = k then some v else find? k rest

/-- The value of a key. -/
def get? (m : Keyed κ β) (k : κ) : Option β := find? k m.entries

/-- Whether the map has the key. -/
def contains (m : Keyed κ β) (k : κ) : Bool := (m.get? k).isSome

/-- Give the key a value in a list of entries: in place if the key is there, else at the end. -/
def put (k : κ) (v : β) : List (κ × β) → List (κ × β)
  | [] => [(k, v)]
  | (k', w) :: rest => if k' = k then (k', v) :: rest else (k', w) :: put k v rest

/-- Putting a value adds its key, if at all, at the end. -/
theorem map_fst_put (k : κ) (v : β) (es : List (κ × β)) :
    (put k v es).map Prod.fst =
      if k ∈ es.map Prod.fst then es.map Prod.fst else es.map Prod.fst ++ [k] := by
  induction es with
  | nil => simp [put]
  | cons e rest ih =>
    obtain ⟨k', w⟩ := e
    by_cases h : k' = k
    · simp [put, h]
    · have h' : ¬ k = k' := fun e => h e.symm
      simp only [put, h, if_false, List.map_cons, ih, List.mem_cons, h', false_or]
      split <;> simp

/-- Putting a value keeps the keys distinct. -/
theorem nodup_put {k : κ} {v : β} {es : List (κ × β)} (h : (es.map Prod.fst).Nodup) :
    ((put k v es).map Prod.fst).Nodup := by
  rw [map_fst_put]
  split
  · exact h
  · next hk =>
    rw [List.nodup_append]
    refine ⟨h, by simp, ?_⟩
    intro a ha b hb
    rw [List.mem_singleton] at hb
    exact fun e => hk (hb ▸ e ▸ ha)

/-- Give the key a value: in place if the map has the key, else at the end. -/
def set (m : Keyed κ β) (k : κ) (v : β) : Keyed κ β := ⟨put k v m.entries, nodup_put m.nodup_keys⟩

/-- Change the value of a key; a key that the map lacks starts from `base`. -/
def update (m : Keyed κ β) (k : κ) (base : β) (f : β → β) : Keyed κ β :=
  m.set k (f ((m.get? k).getD base))

/-- The map that results from giving values one after the other. -/
def ofList (es : List (κ × β)) : Keyed κ β := es.foldl (fun m e => m.set e.1 e.2) ∅

/-- Give every pair of another map, in its order. -/
def union (m other : Keyed κ β) : Keyed κ β := other.entries.foldl (fun m e => m.set e.1 e.2) m

end

/-- Apply a function to every value. -/
def mapValues {γ : Type} (f : κ → β → γ) (m : Keyed κ β) : Keyed κ γ :=
  ⟨m.entries.map fun e => (e.1, f e.1 e.2), by
    have h : (m.entries.map fun e => (e.1, f e.1 e.2)).map Prod.fst = m.entries.map Prod.fst := by
      simp [List.map_map, Function.comp_def]
    rw [h]; exact m.nodup_keys⟩

/-! ## look-ups -/

section

variable [DecidableEq κ]

/-- A look-up after an update sees the new value at its key and the old map elsewhere. -/
theorem find?_put (k k' : κ) (v : β) (es : List (κ × β)) :
    find? k' (put k v es) = if k = k' then some v else find? k' es := by
  induction es with
  | nil => simp [put, find?]
  | cons e rest ih =>
    obtain ⟨k₀, w⟩ := e
    by_cases h : k₀ = k
    · subst h
      by_cases h' : k₀ = k' <;> simp [put, find?, h']
    · by_cases h' : k₀ = k'
      · subst h'
        have hk : ¬ k = k₀ := fun e => h e.symm
        simp [put, find?, h, hk]
      · simp [put, find?, h, h', ih]

/-- An update changes one look-up and no other. -/
theorem get?_set (m : Keyed κ β) (k k' : κ) (v : β) :
    (m.set k v).get? k' = if k = k' then some v else m.get? k' :=
  find?_put k k' v m.entries

/-- A key has a value exactly if it is listed. -/
theorem find?_isSome_iff (k : κ) (es : List (κ × β)) :
    (find? k es).isSome ↔ k ∈ es.map Prod.fst := by
  induction es with
  | nil => simp [find?]
  | cons e rest ih =>
    by_cases h : e.1 = k
    · simp [find?, h]
    · have h' : ¬ k = e.1 := fun x => h x.symm
      simp only [find?, h, if_false, ih, List.map_cons, List.mem_cons, h', false_or]

/-- The keys after an update: the new key comes last. -/
theorem keys_set (m : Keyed κ β) (k : κ) (v : β) :
    (m.set k v).keys = if k ∈ m.keys then m.keys else m.keys ++ [k] :=
  map_fst_put k v m.entries

/-- An entry that is listed is what its key is looked up as. -/
theorem get?_eq_some_of_mem {m : Keyed κ β} {k : κ} {v : β} (h : (k, v) ∈ m.entries) :
    m.get? k = some v := by
  obtain ⟨es, hn⟩ := m
  simp only [get?] at h ⊢
  induction es with
  | nil => simp at h
  | cons e rest ih =>
    obtain ⟨k₀, w⟩ := e
    rw [List.map_cons, List.nodup_cons] at hn
    rcases List.mem_cons.1 h with h | h
    · cases h; simp [find?]
    · have hne : ¬ k₀ = k := fun e => hn.1 (e ▸ List.mem_map.2 ⟨(k, v), h, rfl⟩)
      simp only [find?, hne, if_false]
      exact ih hn.2 h

end

end Keyed

end Lalr
