import Lalr.Grammar.Basic
import Mathlib.Logic.Relation

/-!
# Lalr.Proofs.Grammar.Derivation

Derivations: strings of symbols that arise from a string by replacing nonterminals.  Two forms are
shown to agree:

* `Derives` replaces nonterminals anywhere, in any order;
* `Begins` expands from the left, and only as far as it takes to see a given beginning.

`begins_iff` says that a string begins with `u`, in the second sense, exactly if it derives some
string that does.  The parser works from the left, so its proofs follow `Begins`.
-/

namespace Lalr

/-- Which strings a symbol may be replaced by. -/
abbrev RuleSet := Symbol → List Symbol → Prop

namespace RuleSet

variable {R : RuleSet} {X t : Symbol} {w x y z α β γ u rest : List Symbol}

/-- One replacement. -/
inductive Rewrites (R : RuleSet) : List Symbol → List Symbol → Prop
  | replace {A : Symbol} {w : List Symbol} (x y : List Symbol) (h : R A w) :
      Rewrites R (x ++ A :: y) (x ++ w ++ y)

/-- Any number of replacements. -/
def Derives (R : RuleSet) : List Symbol → List Symbol → Prop := Relation.ReflTransGen R.Rewrites

/-- Expanding from the left shows the beginning `u`; what stands behind it is not looked at. -/
inductive Begins (R : RuleSet) : List Symbol → List Symbol → Prop
  | done (α : List Symbol) : Begins R α []
  | keep {X : Symbol} {α u : List Symbol} (h : Begins R α u) : Begins R (X :: α) (X :: u)
  | expand {A : Symbol} {w α u : List Symbol} (hA : R A w) (h : Begins R (w ++ α) u) :
      Begins R (A :: α) u

/-! ## derivations in context -/

theorem Derives.refl (α : List Symbol) : R.Derives α α := Relation.ReflTransGen.refl

theorem Derives.trans (h : R.Derives α β) (h' : R.Derives β γ) : R.Derives α γ :=
  Relation.ReflTransGen.trans h h'

theorem Derives.of_rule (h : R X w) : R.Derives [X] w := by
  have hr : R.Rewrites [X] w := by simpa using Rewrites.replace [] [] h
  exact .single hr

theorem Rewrites.append_left (h : R.Rewrites α β) (x : List Symbol) :
    R.Rewrites (x ++ α) (x ++ β) := by
  obtain ⟨a, b, h⟩ := h
  simpa using Rewrites.replace (x ++ a) b h

theorem Rewrites.append_right (h : R.Rewrites α β) (y : List Symbol) :
    R.Rewrites (α ++ y) (β ++ y) := by
  obtain ⟨a, b, h⟩ := h
  simpa using Rewrites.replace a (b ++ y) h

theorem Derives.append_left (h : R.Derives α β) (x : List Symbol) :
    R.Derives (x ++ α) (x ++ β) :=
  Relation.ReflTransGen.lift (x ++ ·) (fun _ _ h => Rewrites.append_left h x) _ _ h

theorem Derives.append_right (h : R.Derives α β) (y : List Symbol) :
    R.Derives (α ++ y) (β ++ y) :=
  Relation.ReflTransGen.lift (· ++ y) (fun _ _ h => Rewrites.append_right h y) _ _ h

theorem Derives.append (h : R.Derives α x) (h' : R.Derives β y) :
    R.Derives (α ++ β) (x ++ y) :=
  (h.append_right β).trans (h'.append_left x)

/-- A replacement in a string of two parts happens in one of them. -/
theorem Rewrites.of_append (h : R.Rewrites (α ++ β) z) :
    (∃ α', R.Rewrites α α' ∧ z = α' ++ β) ∨ (∃ β', R.Rewrites β β' ∧ z = α ++ β') := by
  generalize hs : α ++ β = s at h
  obtain ⟨x, y, hA⟩ := h
  rename_i A w
  rcases List.append_eq_append_iff.1 hs with ⟨m, rfl, rfl⟩ | ⟨m, rfl, hm⟩
  · exact .inr ⟨m ++ w ++ y, .replace m y hA, by simp⟩
  · cases m with
    | nil =>
        have hβ : β = A :: y := by simpa using hm.symm
        subst hβ
        exact .inr ⟨w ++ y, by simpa using Rewrites.replace [] y hA, by simp⟩
    | cons B m =>
        obtain ⟨rfl, rfl⟩ : A = B ∧ y = m ++ β := by simpa using hm
        exact .inl ⟨x ++ w ++ m, .replace x m hA, by simp⟩

/-- What a string of two parts derives is a string of two parts that they derive. -/
theorem Derives.of_append (h : R.Derives (α ++ β) z) :
    ∃ α' β', z = α' ++ β' ∧ R.Derives α α' ∧ R.Derives β β' := by
  generalize hs : α ++ β = s at h
  induction h using Relation.ReflTransGen.head_induction_on generalizing α β with
  | refl => exact ⟨α, β, hs.symm, .refl _, .refl _⟩
  | head hstep _ ih =>
      subst hs
      rcases hstep.of_append with ⟨α₁, hα, rfl⟩ | ⟨β₁, hβ, rfl⟩
      · obtain ⟨α', β', hz, h₁, h₂⟩ := ih rfl
        exact ⟨α', β', hz, .head hα h₁, h₂⟩
      · obtain ⟨α', β', hz, h₁, h₂⟩ := ih rfl
        exact ⟨α', β', hz, h₁, .head hβ h₂⟩

/-- A symbol that cannot be replaced derives only itself. -/
theorem Derives.eq_of_irreducible (ht : ∀ w, ¬ R t w) (h : R.Derives [t] z) : z = [t] := by
  induction h with
  | refl => rfl
  | tail _ hstep ih =>
      subst ih
      generalize hs : [t] = s at hstep
      obtain ⟨x, y, hA⟩ := hstep
      cases x with
      | nil =>
          obtain ⟨rfl, -⟩ : t = _ ∧ _ := by simpa using hs
          exact absurd hA (ht _)
      | cons a x => simp at hs

/-- Derivations from strings of symbols of one kind need only the rules for these, if such rules lead
to strings of the same kind. -/
theorem Derives.restrict {Q : RuleSet} {P : Symbol → Prop}
    (hP : ∀ X w, P X → R X w → Q X w ∧ ∀ s ∈ w, P s) (h : R.Derives α β) (hα : ∀ s ∈ α, P s) :
    Q.Derives α β ∧ ∀ s ∈ β, P s := by
  induction h with
  | refl => exact ⟨.refl _, hα⟩
  | tail _ hstep ih =>
      obtain ⟨hd, hall⟩ := ih
      obtain @⟨A, w, x, y, hA⟩ := hstep
      obtain ⟨hQ, hw⟩ := hP A w (hall A (by simp)) hA
      refine ⟨hd.tail (.replace x y hQ), fun s hs => ?_⟩
      simp only [List.mem_append] at hs
      rcases hs with (hs | hs) | hs
      · exact hall s (by simp [hs])
      · exact hw s hs
      · exact hall s (by simp [hs])

/-! ## beginnings -/

theorem begins_append (u rest : List Symbol) : R.Begins (u ++ rest) u := by
  induction u with
  | nil => exact .done _
  | cons X u ih => exact .keep ih

/-- Undoing a replacement keeps every beginning. -/
theorem Begins.of_replaced {A : Symbol} (hA : R A w) (h : R.Begins (x ++ w ++ y) u) :
    R.Begins (x ++ A :: y) u := by
  generalize hs : x ++ w ++ y = s at h
  -- The replaced part may stand at the very left, where the expansion is undone, or behind a symbol
  -- that the derivation looks at first.
  induction h generalizing x with
  | done => exact .done _
  | @keep X α u h ih =>
      cases x with
      | nil => exact .expand hA (by rw [← List.nil_append w, hs]; exact .keep h)
      | cons B x =>
          obtain ⟨rfl, hα⟩ : B = X ∧ x ++ w ++ y = α := by simpa using hs
          exact .keep (ih hα)
  | @expand B v α u hB h ih =>
      cases x with
      | nil => exact .expand hA (by rw [← List.nil_append w, hs]; exact .expand hB h)
      | cons C x =>
          obtain ⟨rfl, hα⟩ : C = B ∧ x ++ w ++ y = α := by simpa using hs
          have := ih (x := v ++ x) (by simp [← hα])
          exact .expand hB (by simpa using this)

theorem Begins.derives (h : R.Begins α u) : ∃ rest, R.Derives α (u ++ rest) := by
  induction h with
  | done α => exact ⟨α, .refl _⟩
  | @keep X α u _ ih =>
      obtain ⟨rest, h⟩ := ih
      exact ⟨rest, h.append_left [X]⟩
  | @expand A w α u hA _ ih =>
      obtain ⟨rest, h⟩ := ih
      exact ⟨rest, ((Derives.of_rule hA).append_right α).trans h⟩

/-- A string shows a beginning exactly if it derives some string that begins so. -/
theorem begins_iff : R.Begins α u ↔ ∃ rest, R.Derives α (u ++ rest) := by
  refine ⟨Begins.derives, ?_⟩
  rintro ⟨rest, h⟩
  induction h using Relation.ReflTransGen.head_induction_on with
  | refl => exact begins_append u rest
  | head hstep _ ih =>
      obtain ⟨x, y, hA⟩ := hstep
      exact ih.of_replaced hA

theorem Begins.of_derives (h : R.Derives α β) (hβ : R.Begins β u) : R.Begins α u := by
  obtain ⟨rest, hr⟩ := hβ.derives
  exact begins_iff.2 ⟨rest, h.trans hr⟩

/-- The first symbol of a string of two parts comes from the first part, or from the second after
the first has vanished. -/
theorem begins_append_singleton_iff :
    R.Begins (α ++ β) [t] ↔ R.Begins α [t] ∨ (R.Derives α [] ∧ R.Begins β [t]) := by
  constructor
  · intro h
    obtain ⟨rest, hr⟩ := h.derives
    obtain ⟨α', β', hz, hα, hβ⟩ := hr.of_append
    cases α' with
    | nil =>
        obtain rfl : t :: rest = β' := by simpa using hz
        exact .inr ⟨hα, begins_iff.2 ⟨rest, hβ⟩⟩
    | cons X α' =>
        obtain ⟨rfl, -⟩ : t = X ∧ _ := by simpa using hz
        exact .inl (begins_iff.2 ⟨α', hα⟩)
  · rintro (h | ⟨hα, hβ⟩)
    · obtain ⟨rest, hr⟩ := h.derives
      exact begins_iff.2 ⟨rest ++ β, by simpa using hr.append_right β⟩
    · exact .of_derives (by simpa using hα.append_right β) hβ

end RuleSet

/-- The replacements of a grammar: each nonterminal by the symbols of one of its productions. -/
def Grammar.Produces (g : Grammar) : RuleSet := fun A w => ⟨A, w⟩ ∈ g.productionList

end Lalr
