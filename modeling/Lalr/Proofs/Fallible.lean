/-!
# Lalr.Proofs.Fallible

Computations that may fail, over lists: what it means that all of them succeeded.
-/

namespace Lalr

variable {ε α β : Type}

/-- A sequence succeeds if both of its parts do. -/
theorem bind_eq_ok_iff {x : Except ε α} {f : α → Except ε β} {b : β} :
    (x >>= f) = .ok b ↔ ∃ a, x = .ok a ∧ f a = .ok b := by
  cases x <;> simp [bind, Except.bind]

theorem mapError_eq_ok_iff {ε' : Type} {x : Except ε α} {f : ε → ε'} {a : α} :
    x.mapError f = .ok a ↔ x = .ok a := by
  cases x with
  | error e => exact ⟨nofun, nofun⟩
  | ok b =>
      exact ⟨fun h => congrArg Except.ok (Except.ok.inj h), fun h => congrArg Except.ok (Except.ok.inj h)⟩

/-- A sequence fails in its first part or in its second one. -/
theorem bind_eq_error_iff {x : Except ε α} {f : α → Except ε β} {e : ε} :
    (x >>= f) = .error e ↔ x = .error e ∨ ∃ a, x = .ok a ∧ f a = .error e := by
  cases x <;> simp [bind, Except.bind]

theorem mapError_eq_error_iff {ε' : Type} {x : Except ε α} {f : ε → ε'} {e' : ε'} :
    x.mapError f = .error e' ↔ ∃ e, x = .error e ∧ f e = e' := by
  cases x with
  | error e =>
      exact ⟨fun h => ⟨e, rfl, Except.error.inj h⟩, fun ⟨_, he, hf⟩ => by
        rw [Except.error.inj he, ← hf]; rfl⟩
  | ok a => exact ⟨nofun, nofun⟩

/-- What comes out of a result comes out of a computation that succeeds. -/
theorem exists_ok_of_map_toOption {x : Except ε α} {f : α → β} {b : β}
    (h : x.toOption.map f = some b) : ∃ a, x = .ok a ∧ f a = b := by
  cases x with
  | error e => contradiction
  | ok a => exact ⟨a, rfl, Option.some.inj h⟩

/-- The results of a list of computations are the results of its members. -/
theorem mem_of_mapM_eq_ok {f : α → Except ε β} {xs : List α} {ys : List β}
    (h : xs.mapM f = .ok ys) {y : β} : y ∈ ys ↔ ∃ x ∈ xs, f x = .ok y := by
  induction xs generalizing ys with
  | nil =>
      obtain rfl : [] = ys := by simpa [pure, Except.pure] using h
      simp
  | cons x xs ih =>
      rw [List.mapM_cons, bind_eq_ok_iff] at h
      obtain ⟨z, hz, h⟩ := h
      obtain ⟨zs, hzs, h⟩ := bind_eq_ok_iff.1 h
      obtain rfl : z :: zs = ys := by simpa [pure, Except.pure] using h
      simp only [List.mem_cons, ih hzs]
      constructor
      · rintro (rfl | ⟨x', hx', hy⟩)
        · exact ⟨x, .inl rfl, hz⟩
        · exact ⟨x', .inr hx', hy⟩
      · rintro ⟨x', rfl | hx', hy⟩
        · exact .inl (Except.ok.inj (hy.symm.trans hz))
        · exact .inr ⟨x', hx', hy⟩

/-- What is known of each result by its member is known of the list of results. -/
theorem map_eq_map_of_mapM_eq_ok {γ : Type} {f : α → Except ε β} {g : β → γ} {k : α → γ} {xs : List α}
    {ys : List β} (h : xs.mapM f = .ok ys) (hg : ∀ x y, f x = .ok y → g y = k x) :
    ys.map g = xs.map k := by
  induction xs generalizing ys with
  | nil =>
      obtain rfl : [] = ys := by simpa [pure, Except.pure] using h
      rfl
  | cons x xs ih =>
      rw [List.mapM_cons, bind_eq_ok_iff] at h
      obtain ⟨z, hz, h⟩ := h
      obtain ⟨zs, hzs, h⟩ := bind_eq_ok_iff.1 h
      obtain rfl : z :: zs = ys := by simpa [pure, Except.pure] using h
      rw [List.map_cons, List.map_cons, hg x z hz, ih hzs]

/-- The results of a list of computations give back its members if each result does. -/
theorem map_of_mapM_eq_ok {f : α → Except ε β} {g : β → α} {xs : List α} {ys : List β}
    (h : xs.mapM f = .ok ys) (hg : ∀ x y, f x = .ok y → g y = x) : ys.map g = xs :=
  (map_eq_map_of_mapM_eq_ok h hg).trans (List.map_id' xs)

/-- All members of a list of computations that succeeds have results. -/
theorem exists_of_mapM_eq_ok {f : α → Except ε β} {xs : List α} {ys : List β}
    (h : xs.mapM f = .ok ys) {x : α} (hx : x ∈ xs) : ∃ y ∈ ys, f x = .ok y := by
  induction xs generalizing ys with
  | nil => simp at hx
  | cons x' xs ih =>
      rw [List.mapM_cons, bind_eq_ok_iff] at h
      obtain ⟨z, hz, h⟩ := h
      obtain ⟨zs, hzs, h⟩ := bind_eq_ok_iff.1 h
      obtain rfl : z :: zs = ys := by simpa [pure, Except.pure] using h
      rcases List.mem_cons.1 hx with rfl | hx
      · exact ⟨z, List.mem_cons_self, hz⟩
      · obtain ⟨y, hy, hxy⟩ := ih hzs hx
        exact ⟨y, List.mem_cons_of_mem z hy, hxy⟩

/-- Computations that all succeed succeed as a list. -/
theorem exists_mapM_eq_ok {f : α → Except ε β} {xs : List α} (h : ∀ x ∈ xs, ∃ y, f x = .ok y) :
    ∃ ys, xs.mapM f = .ok ys := by
  induction xs with
  | nil => exact ⟨[], rfl⟩
  | cons x xs ih =>
      obtain ⟨y, hy⟩ := h x List.mem_cons_self
      obtain ⟨ys, hys⟩ := ih fun x' hx' => h x' (List.mem_cons_of_mem x hx')
      exact ⟨y :: ys, by rw [List.mapM_cons, hy, hys]; rfl⟩

/-- A run succeeds if every step does that starts where a property holds, and keeps it. -/
theorem exists_foldlM_eq_ok {f : β → α → Except ε β} {P : β → Prop} {xs : List α} {b : β} (hb : P b)
    (h : ∀ x ∈ xs, ∀ b, P b → ∃ b', f b x = .ok b' ∧ P b') :
    ∃ b', xs.foldlM f b = .ok b' ∧ P b' := by
  induction xs generalizing b with
  | nil => exact ⟨b, rfl, hb⟩
  | cons x xs ih =>
      obtain ⟨b₁, hb₁, hP⟩ := h x List.mem_cons_self b hb
      obtain ⟨b', hb', hP'⟩ := ih hP fun x' hx' => h x' (List.mem_cons_of_mem x hx')
      refine ⟨b', ?_, hP'⟩
      rw [List.foldlM_cons, hb₁]
      exact hb'

/-- A run that fails fails at one of its members, after a run that succeeds. -/
theorem exists_of_foldlM_eq_error {f : β → α → Except ε β} {xs : List α} {b : β} {e : ε}
    (h : xs.foldlM f b = .error e) : ∃ done x rest b', xs = done ++ x :: rest ∧
      done.foldlM f b = .ok b' ∧ f b' x = .error e := by
  induction xs generalizing b with
  | nil => contradiction
  | cons x xs ih =>
      rw [List.foldlM_cons, bind_eq_error_iff] at h
      rcases h with hx | ⟨b₁, hb₁, h⟩
      · exact ⟨[], x, xs, b, rfl, rfl, hx⟩
      · obtain ⟨done, x', rest, b', rfl, hdone, hx'⟩ := ih h
        refine ⟨x :: done, x', rest, b', rfl, ?_, hx'⟩
        rw [List.foldlM_cons, hb₁]
        exact hdone

theorem foldlM_induction_from {f : β → α → Except ε β} {P : List α → β → Prop}
    (step : ∀ done x b b', P done b → f b x = .ok b' → P (done ++ [x]) b') (rest : List α)
    {done : List α} {b b' : β} (h : P done b) (hrun : rest.foldlM f b = .ok b') :
    P (done ++ rest) b' := by
  induction rest generalizing done b with
  | nil =>
      obtain rfl : b = b' := by simpa [pure, Except.pure] using hrun
      simpa using h
  | cons x rest ih =>
      rw [List.foldlM_cons, bind_eq_ok_iff] at hrun
      obtain ⟨b₁, hb₁, hrun⟩ := hrun
      rw [show done ++ x :: rest = done ++ [x] ++ rest by simp]
      exact ih (step done x b b₁ h hb₁) hrun

/-- A property that grows with the part of a list that has been worked off holds, at the end of a
run that succeeds, for the whole list. -/
theorem foldlM_induction {f : β → α → Except ε β} {P : List α → β → Prop} {xs : List α} {b b' : β}
    (step : ∀ done x b b', P done b → f b x = .ok b' → P (done ++ [x]) b') (h : P [] b)
    (hrun : xs.foldlM f b = .ok b') : P xs b' :=
  foldlM_induction_from step xs h hrun

end Lalr
