import Lalr.Proofs.Grammar.Productions

/-!
# Lalr.Proofs.Grammar.Context

Contexts of nonterminals and valid items.  A context of `A` is what stands around an occurrence of
`A` in a derivation that has expanded nothing on its left: the string `d` before it, and the string
`tail` of what is still to come after it.  An item is valid for a string if the string can be the
part of a sentence that has been read when the item describes where the parser is.

`validItem_iff` ties the two: the valid items of a string are the productions of a context, with the
part that the string reaches beyond the context seen.
-/

namespace Lalr

namespace Grammar

variable {g : Grammar} {d tail γ : List Symbol} {A X : Symbol} {i : Item} {p : Production}

/-- The contexts of a nonterminal: outermost the whole input with its end, and inside the production
of a context, what that production puts around the nonterminal. -/
inductive Context (g : Grammar) : List Symbol → Symbol → List Symbol → Prop
  | start : Context g [] startSymbol [endMarker]
  | step {d tail b r : List Symbol} {B A : Symbol} (h : Context g d B tail)
      (hp : g.HasProduction ⟨B, b ++ A :: r⟩) : Context g (d ++ b) A (r ++ tail)

/-- The items that are valid for a string of symbols. -/
inductive ValidItem (g : Grammar) : List Symbol → Item → Prop
  | start : ValidItem g [] (.fresh (Construction.startProduction g))
  | expand {γ : List Symbol} {i : Item} {p : Production} (h : ValidItem g γ i)
      (hi : i.next? = some p.name) (hp : g.HasProduction p) : ValidItem g γ (.fresh p)
  | shift {γ : List Symbol} {i : Item} {X : Symbol} (h : ValidItem g γ i)
      (hi : i.next? = some X) : ValidItem g (γ ++ [X]) i.shifted

/-! ## contexts -/

/-- The start symbol stands in no production. -/
theorem Context.eq_start (hg : g.WellFormed) (h : g.Context d startSymbol tail) :
    d = [] ∧ tail = [endMarker] := by
  cases h with
  | start => exact ⟨rfl, rfl⟩
  | step _ hp =>
      have hvis : WellFormed.Visible g startSymbol := hg.visible_of_mem hp (by simp)
      exact absurd rfl (hg.ne_start hvis)

/-- The input derives every context with one of its productions in it. -/
theorem Context.derives (hg : g.WellFormed) (h : g.Context d p.name tail)
    (hp : g.HasProduction p) :
    g.Produces.Derives [g.start, endMarker] (d ++ p.symbols ++ tail) := by
  generalize hA : p.name = A at h
  induction h generalizing p with
  | start =>
      obtain rfl := hg.eq_startProduction hp hA
      rw [hg.startProduction_eq]
      exact .refl _
  | @step d tail b r B A _ houter ih =>
      have hrule : g.Produces A p.symbols := by
        have hvis : WellFormed.Visible g A := hg.visible_of_mem houter (by simp)
        have hmem := hg.mem_productionList hp (hA ▸ hg.ne_start hvis)
        subst hA
        exact hmem
      have hB := ih houter rfl
      have hstep := ((RuleSet.Derives.of_rule hrule).append_right (r ++ tail)).append_left (d ++ b)
      simp only [List.append_assoc, List.cons_append] at hB hstep ⊢
      exact hB.trans hstep

end Grammar

/-! ## items -/

/-- A list is what stands before a place in it, what stands there, and what stands behind. -/
theorem take_append_cons_drop {α : Type} {xs : List α} {i : Nat} {x : α} (h : xs[i]? = some x) :
    xs.take i ++ x :: xs.drop (i + 1) = xs := by
  obtain ⟨hlt, hx⟩ := List.getElem?_eq_some_iff.1 h
  rw [← hx, ← List.drop_eq_getElem_cons hlt, List.take_append_drop]

theorem Item.symbols_eq_of_next? {i : Item} {X : Symbol} (h : i.next? = some X) :
    i.production.symbols =
      i.production.symbols.take i.pointer ++ X :: i.production.symbols.drop (i.pointer + 1) :=
  (take_append_cons_drop h).symm

theorem Item.take_shifted {i : Item} {X : Symbol} (h : i.next? = some X) :
    i.shifted.production.symbols.take i.shifted.pointer =
      i.production.symbols.take i.pointer ++ [X] := by
  obtain ⟨hlt, hX⟩ := List.getElem?_eq_some_iff.1 h
  simp only [Item.shifted, ← hX, List.take_append_getElem]

theorem Item.pointer_lt_of_next? {i : Item} {X : Symbol} (h : i.next? = some X) :
    i.pointer < i.production.symbols.length :=
  (List.getElem?_eq_some_iff.1 h).1

namespace Grammar

variable {g : Grammar} {d tail γ : List Symbol} {A X : Symbol} {i : Item} {p : Production}

/-- An item that is valid stays valid while the symbols after its pointer are read. -/
theorem ValidItem.advance (h : g.ValidItem γ (.fresh p)) {n : Nat} (hn : n ≤ p.length) :
    g.ValidItem (γ ++ p.symbols.take n) ⟨p, n⟩ := by
  induction n with
  | zero =>
      rw [List.take_zero, List.append_nil]
      exact h
  | succ n ih =>
      have hlt : n < p.symbols.length := hn
      have hnext : (⟨p, n⟩ : Item).next? = some p.symbols[n] := List.getElem?_eq_getElem hlt
      have hval := (ih (Nat.le_of_lt hlt)).shift hnext
      rw [List.append_assoc, List.take_append_getElem] at hval
      exact hval

/-- In a context of a nonterminal, its productions are valid with nothing seen. -/
theorem Context.validItem_fresh (hg : g.WellFormed) (h : g.Context d p.name tail)
    (hp : g.HasProduction p) : g.ValidItem d (.fresh p) := by
  generalize hA : p.name = A at h
  induction h generalizing p with
  | start =>
      obtain rfl := hg.eq_startProduction hp hA
      exact .start
  | @step d tail b r B A _ houter ih =>
      have hlen : b.length ≤ (⟨B, b ++ A :: r⟩ : Production).length := by simp [Production.length]
      have hval := (ih houter rfl).advance hlen
      rw [List.take_left] at hval
      refine hval.expand ?_ hp
      simp [Item.next?, hA]

/-- The items valid for a string are the productions of its contexts, with the rest of the string
seen. -/
theorem validItem_iff (hg : g.WellFormed) :
    g.ValidItem γ i ↔ ∃ d tail, g.Context d i.production.name tail ∧
      g.HasProduction i.production ∧ i.pointer ≤ i.production.length ∧
      γ = d ++ i.production.symbols.take i.pointer := by
  constructor
  · intro h
    induction h with
    | start => exact ⟨[], [endMarker], .start, .inl rfl, Nat.zero_le _, by simp [Item.fresh]⟩
    | @expand γ i p _ hi hp ih =>
        obtain ⟨d, tail, hctx, hprod, -, rfl⟩ := ih
        have hsplit := Item.symbols_eq_of_next? hi
        have hprod' : g.HasProduction ⟨i.production.name, i.production.symbols.take i.pointer ++
            p.name :: i.production.symbols.drop (i.pointer + 1)⟩ := by
          rw [← hsplit]
          exact hprod
        exact ⟨_, _, hctx.step hprod', hp, Nat.zero_le _, by simp [Item.fresh]⟩
    | @shift γ i X _ hi ih =>
        obtain ⟨d, tail, hctx, hprod, -, rfl⟩ := ih
        refine ⟨d, tail, hctx, hprod, Item.pointer_lt_of_next? hi, ?_⟩
        rw [Item.take_shifted hi, List.append_assoc]
  · rintro ⟨d, tail, hctx, hprod, hle, rfl⟩
    exact (hctx.validItem_fresh hg hprod).advance hle

end Grammar

end Lalr
