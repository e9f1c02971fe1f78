import Lalr.Code.Reading
import Lalr.Proofs.Code.Lexes

/-!
# Lalr.Proofs.Code.Reading

Readers of lexemes before a closing bracket.  A reader that is given the lexemes of an expression ends at line
ends; inside brackets there are none, and it ends at the closing bracket (`Bracketed`).  Readers that are put
together from such readers are such readers, as long as what they look for is neither.
-/

namespace Lalr.Code

variable {α β : Type} {n m : Nat} {t : Lexeme} {L L' : List Lexeme}

namespace Reading

/-! ## running readers -/

theorem run_bind_eq_some {p : Reading α} {f : α → Reading β} {b : β} :
    (p >>= f).run L = some (b, L') ↔ ∃ a M, p.run L = some (a, M) ∧ (f a).run M = some (b, L') := by
  rw [StateT.run_bind, Option.bind_eq_bind, Option.bind_eq_some_iff]
  exact ⟨fun ⟨⟨a, M⟩, h⟩ => ⟨a, M, h⟩, fun ⟨a, M, h⟩ => ⟨⟨a, M⟩, h⟩⟩

theorem run_bind_of_eq_some {p : Reading α} {f : α → Reading β} {a : α} (h : p.run L = some (a, L')) :
    (p >>= f).run L = (f a).run L' := by
  rw [StateT.run_bind, h]
  rfl

theorem run_bind_of_eq_none {p : Reading α} {f : α → Reading β} (h : p.run L = none) :
    (p >>= f).run L = none := by
  rw [StateT.run_bind, h]
  rfl

theorem run_peek : peek.run L = some (L.head?, L) := rfl

theorem run_followedBy : (followedBy t).run L = some (decide (L[1]? = some t), L) := rfl

theorem run_accept_self : (accept t).run (t :: L) = some (true, L) := by
  rw [accept, run_bind_of_eq_some run_peek, if_pos List.head?_cons]
  rfl

theorem run_accept_of_ne (h : L.head? ≠ some t) : (accept t).run L = some (false, L) := by
  rw [accept, run_bind_of_eq_some run_peek, if_neg h]
  rfl

theorem length_le_of_run_accept {b : Bool} (h : (accept t).run L = some (b, L')) : L'.length ≤ L.length := by
  cases L with
  | nil =>
      rw [run_accept_of_ne (by simp)] at h
      rw [(Prod.mk.inj (Option.some.inj h)).2]
  | cons x L =>
      by_cases hx : x = t
      · subst hx
        rw [run_accept_self] at h
        rw [← (Prod.mk.inj (Option.some.inj h)).2]
        exact Nat.le_succ _
      · rw [run_accept_of_ne (by simpa using hx)] at h
        rw [(Prod.mk.inj (Option.some.inj h)).2]

theorem run_expect_self : (expect t).run (t :: L) = some ((), L) := by
  rw [expect, run_bind_of_eq_some run_accept_self]
  rfl

theorem run_expect_of_ne (h : L.head? ≠ some t) : (expect t).run L = none := by
  rw [expect, run_bind_of_eq_some (run_accept_of_ne h)]
  rfl

theorem run_acceptIf_some {p : Lexeme → Option α} {a : α} (h : p t = some a) :
    (acceptIf p).run (t :: L) = some (some a, L) := by
  rw [acceptIf, run_bind_of_eq_some run_peek, List.head?_cons, Option.bind_some, h]
  rfl

theorem run_acceptIf_none {p : Lexeme → Option α} (h : L.head?.bind p = none) :
    (acceptIf p).run L = some (none, L) := by
  rw [acceptIf, run_bind_of_eq_some run_peek, h]
  rfl

/-- To accept a lexeme is to take it if it is the one. -/
theorem accept_bind_eq (t : Lexeme) (f : Bool → Reading β) :
    accept t >>= f = acceptIf (fun x => if x = t then some () else none) >>= fun
      | some _ => f true
      | none => f false := by
  refine StateT.ext fun L => ?_
  cases L with
  | nil => rfl
  | cons x L =>
      by_cases hx : x = t
      · subst hx
        rw [run_bind_of_eq_some run_accept_self, run_bind_of_eq_some (run_acceptIf_some (if_pos rfl))]
      · rw [run_bind_of_eq_some (run_accept_of_ne (by simpa using hx)),
          run_bind_of_eq_some (run_acceptIf_none (by simpa using hx))]

theorem run_many_none {p : Reading (Option α)} (h : p.run L = some (none, L)) :
    (many p).run L = some ([], L) := by
  have hfuel (fuel : Nat) : (manyFor p fuel).run L = some ([], L) := by
    cases fuel with
    | zero => rfl
    | succ fuel =>
        rw [manyFor, run_bind_of_eq_some h]
        rfl
  exact hfuel L.length

end Reading

open Reading

/-! ## before line ends and before a closing bracket -/

/-- The line ends that may stand behind an expression. -/
def lineEnds (k : Nat) : List Lexeme := List.replicate k .newline

/-- What stands behind an expression that is given by a function. -/
def closing : List Lexeme := [.sign ")", .newline, .dedent]

/-- Whatever `p` reads of at most `n` lexemes before line ends, `p'` reads of the same lexemes before a closing
bracket. -/
def Bracketed (n : Nat) (p p' : Reading α) : Prop :=
  ∀ ⦃k : Nat⦄ ⦃A : List Lexeme⦄ ⦃a : α⦄ ⦃rest : List Lexeme⦄, A.length ≤ n →
    p.run (A ++ lineEnds k) = some (a, rest) →
    ∃ A₁ A₂, A = A₁ ++ A₂ ∧ rest = A₂ ++ lineEnds k ∧ (∀ t ∈ A₁, t.isLayout = false) ∧
      p'.run (A ++ closing) = some (a, A₂ ++ closing)

theorem head?_lineEnds (k : Nat) : (lineEnds k).head? = none ∨ (lineEnds k).head? = some .newline := by
  cases k with
  | zero => exact .inl rfl
  | succ k => exact .inr rfl

theorem run_accept_lineEnds (ht : t ≠ .newline) (k : Nat) :
    (accept t).run (lineEnds k) = some (false, lineEnds k) := by
  refine run_accept_of_ne fun h => ?_
  rcases head?_lineEnds k with hhead | hhead <;> rw [hhead] at h
  · cases h
  · exact ht (Option.some.inj h).symm

theorem run_sign_lineEnds (s : String) (k : Nat) : (sign s).run (lineEnds k) = some (false, lineEnds k) :=
  run_accept_lineEnds (t := .sign s) nofun k

theorem run_keyword_lineEnds (w : String) (k : Nat) : (keyword w).run (lineEnds k) = some (false, lineEnds k) :=
  run_accept_lineEnds (t := .keyword w) nofun k

namespace Bracketed

variable {p p' : Reading α} {f f' : α → Reading β}

theorem mono (hmn : m ≤ n) (h : Bracketed n p p') : Bracketed m p p' :=
  fun _ _ _ _ hlength hrun => h (hlength.trans hmn) hrun

theorem pure (a : α) : Bracketed n (Pure.pure a) (Pure.pure a) := by
  intro k A b rest _ hrun
  obtain ⟨rfl, rfl⟩ := Prod.mk.inj (Option.some.inj hrun)
  exact ⟨[], A, rfl, rfl, nofun, rfl⟩

theorem failure : Bracketed n Alternative.failure p' := fun _ _ _ _ _ hrun => absurd hrun nofun

theorem bind (h : Bracketed n p p') (hf : ∀ a, Bracketed n (f a) (f' a)) :
    Bracketed n (p >>= f) (p' >>= f') := by
  intro k A b rest hlength hrun
  obtain ⟨a, M, hp, hfa⟩ := run_bind_eq_some.1 hrun
  obtain ⟨A₁, A₂, rfl, rfl, hA₁, hp'⟩ := h hlength hp
  rw [List.length_append] at hlength
  obtain ⟨A₃, A₄, rfl, rfl, hA₃, hfa'⟩ := hf a (by omega) hfa
  refine ⟨A₁ ++ A₃, A₄, (List.append_assoc ..).symm, rfl, List.forall_mem_append.2 ⟨hA₁, hA₃⟩, ?_⟩
  rw [run_bind_of_eq_some hp', hfa']

theorem ite {q q' : Reading α} {c : Prop} [Decidable c] (hp : c → Bracketed n p p')
    (hq : ¬ c → Bracketed n q q') : Bracketed n (if c then p else q) (if c then p' else q') := by
  split
  · next hc => exact hp hc
  · next hc => exact hq hc

/-- Readers that look at the first lexeme, and not for line ends or closing brackets. -/
theorem peek {g g' : Option Lexeme → Reading α} (h : ∀ o, Bracketed n (g o) (g' o))
    (hline : g (some .newline) = g none) (hclose : g' (some (.sign ")")) = g' none) :
    Bracketed n (Reading.peek >>= g) (Reading.peek >>= g') := by
  intro k A a rest hlength hrun
  rw [run_bind_of_eq_some run_peek] at hrun ⊢
  cases A with
  | nil =>
      have hnone : g ([] ++ lineEnds k).head? = g none := by
        rcases head?_lineEnds k with hhead | hhead <;> rw [List.nil_append, hhead]
        exact hline
      rw [hnone] at hrun
      rw [List.nil_append, closing, List.head?_cons, hclose]
      exact h none hlength hrun
  | cons t A => exact h (some t) hlength hrun

/-- Whether the lexeme after the first is a given one. -/
theorem followedBy (ht : t.isLayout = false) (hclose : t ≠ .sign ")") :
    Bracketed n (followedBy t) (followedBy t) := by
  have hline : t ≠ .newline := by
    rintro rfl
    contradiction
  have hends (k : Nat) (i : Nat) : (lineEnds k)[i]? ≠ some t := fun h =>
    hline (List.eq_of_mem_replicate (List.mem_of_getElem? h))
  intro k A a rest _ hrun
  rw [run_followedBy] at hrun ⊢
  obtain ⟨rfl, rfl⟩ := Prod.mk.inj (Option.some.inj hrun)
  refine ⟨[], A, rfl, rfl, nofun, ?_⟩
  have hsame : decide ((A ++ closing)[1]? = some t) = decide ((A ++ lineEnds k)[1]? = some t) := by
    match A with
    | [] => simp [hends k 1, closing, Ne.symm hline]
    | [x] => simpa [closing, hends k 0] using Ne.symm hclose
    | x :: y :: A => rfl
  rw [hsame]

/-- A lexeme that is taken if it is wanted. -/
theorem acceptIf_bind {g : Lexeme → Option α} {f f' : Option α → Reading β}
    (hg : ∀ t, t.isLayout = true ∨ t = .sign ")" → g t = none)
    (hsome : ∀ a, ∀ m < n, Bracketed m (f (some a)) (f' (some a))) (hnone : Bracketed n (f none) (f' none)) :
    Bracketed n (acceptIf g >>= f) (acceptIf g >>= f') := by
  have hstay {L : List Lexeme} (h : L.head?.bind g = none) (f : Option α → Reading β) :
      (acceptIf g >>= f).run L = (f none).run L := run_bind_of_eq_some (run_acceptIf_none h)
  intro k A b rest hlength hrun
  cases A with
  | nil =>
      have hline : ([] ++ lineEnds k).head?.bind g = none := by
        rcases head?_lineEnds k with hhead | hhead <;> rw [List.nil_append, hhead]
        · rfl
        · exact hg _ (.inl rfl)
      rw [hstay hline] at hrun
      rw [hstay (by exact hg _ (.inr rfl))]
      exact hnone hlength hrun
  | cons t A =>
      cases ht : g t with
      | none =>
          rw [hstay (by exact ht)] at hrun ⊢
          exact hnone hlength hrun
      | some a =>
          rw [List.cons_append, run_bind_of_eq_some (run_acceptIf_some ht)] at hrun ⊢
          obtain ⟨A₁, A₂, rfl, rfl, hA₁, hrun'⟩ := hsome a A.length hlength le_rfl hrun
          have hlayout : t.isLayout = false := by
            by_contra hlayout
            rw [hg t (.inl (by simpa using hlayout))] at ht
            contradiction
          exact ⟨t :: A₁, A₂, rfl, rfl, List.forall_mem_cons.2 ⟨hlayout, hA₁⟩, hrun'⟩

/-- A test for a lexeme that is no closing bracket. -/
theorem eq_none_of_layout (ht : t.isLayout = false ∧ t ≠ .sign ")") :
    ∀ x, x.isLayout = true ∨ x = .sign ")" → (if x = t then some () else none) = none := by
  rintro x hx
  refine if_neg ?_
  rintro rfl
  exact hx.elim (fun h => absurd (ht.1.symm.trans h) nofun) ht.2

/-- A sign or a word that is taken if it is there; it is not a closing bracket. -/
theorem accept_bind {f f' : Bool → Reading β} (ht : t.isLayout = false ∧ t ≠ .sign ")")
    (htrue : ∀ m < n, Bracketed m (f true) (f' true)) (hfalse : Bracketed n (f false) (f' false)) :
    Bracketed n (accept t >>= f) (accept t >>= f') := by
  rw [accept_bind_eq, accept_bind_eq]
  exact acceptIf_bind (eq_none_of_layout ht) (fun _ => htrue) hfalse

theorem accept (ht : t.isLayout = false ∧ t ≠ .sign ")") : Bracketed n (accept t) (accept t) := by
  have h : Bracketed n (Reading.accept t >>= Pure.pure) (Reading.accept t >>= Pure.pure) :=
    accept_bind ht (fun _ _ => pure true) (pure false)
  rwa [bind_pure] at h

theorem sign {s : String} (hs : s ≠ ")") : Bracketed n (sign s) (sign s) :=
  accept ⟨rfl, fun h => hs (Lexeme.sign.inj h)⟩

theorem keyword (w : String) : Bracketed n (keyword w) (keyword w) := accept ⟨rfl, nofun⟩

/-- A sign that is taken if it is there, with fewer lexemes behind it. -/
theorem sign_bind {s : String} {f f' : Bool → Reading β} (hs : s ≠ ")")
    (htrue : ∀ m < n, Bracketed m (f true) (f' true)) (hfalse : Bracketed n (f false) (f' false)) :
    Bracketed n (Reading.sign s >>= f) (Reading.sign s >>= f') :=
  accept_bind ⟨rfl, fun h => hs (Lexeme.sign.inj h)⟩ htrue hfalse

/-- A closing bracket that is taken if it is there.  Without one, something else has to follow. -/
theorem close_bind {f f' : Bool → Reading β} (htrue : ∀ m < n, Bracketed m (f true) (f' true))
    (hfalse : Bracketed n (f false) (f' false)) (hfail : ∀ k, (f false).run (lineEnds k) = none) :
    Bracketed n (Reading.sign ")" >>= f) (Reading.sign ")" >>= f') := by
  intro k A b rest hlength hrun
  cases A with
  | nil =>
      have hne : (lineEnds k).head? ≠ some (.sign ")") := by
        rcases head?_lineEnds k with hhead | hhead <;> rw [hhead] <;> decide
      rw [List.nil_append, Reading.sign, run_bind_of_eq_some (run_accept_of_ne hne), hfail] at hrun
      contradiction
  | cons t A =>
      by_cases ht : t = .sign ")"
      · subst ht
        rw [List.cons_append, Reading.sign, run_bind_of_eq_some run_accept_self] at hrun ⊢
        obtain ⟨A₁, A₂, rfl, rfl, hA₁, hrun'⟩ := htrue A.length hlength le_rfl hrun
        exact ⟨_ :: A₁, A₂, rfl, rfl, List.forall_mem_cons.2 ⟨rfl, hA₁⟩, hrun'⟩
      · have hne (L : List Lexeme) : ((t :: A) ++ L).head? ≠ some (.sign ")") := by simpa using ht
        rw [Reading.sign, run_bind_of_eq_some (run_accept_of_ne (hne _))] at hrun ⊢
        exact hfalse hlength hrun

theorem expect (ht : t.isLayout = false) : Bracketed n (expect t) (expect t) := by
  intro k A b rest hlength hrun
  cases A with
  | nil =>
      have hne : (lineEnds k).head? ≠ some t := by
        rcases head?_lineEnds k with hhead | hhead <;> rw [hhead]
        · exact nofun
        · rintro heq
          rw [← Option.some.inj heq] at ht
          contradiction
      rw [List.nil_append, run_expect_of_ne hne] at hrun
      contradiction
  | cons x A =>
      by_cases hx : x = t
      · subst hx
        rw [List.cons_append, run_expect_self] at hrun ⊢
        obtain ⟨rfl, rfl⟩ := Prod.mk.inj (Option.some.inj hrun)
        exact ⟨[x], A, rfl, rfl, List.forall_mem_singleton.2 ht, rfl⟩
      · rw [run_expect_of_ne (by simpa using hx)] at hrun
        contradiction

theorem acceptIf {g : Lexeme → Option α} (hg : ∀ t, t.isLayout = true ∨ t = .sign ")" → g t = none) :
    Bracketed n (acceptIf g) (acceptIf g) := by
  have h : Bracketed n (Reading.acceptIf g >>= Pure.pure) (Reading.acceptIf g >>= Pure.pure) :=
    acceptIf_bind hg (fun a _ _ => pure (some a)) (pure none)
  rwa [bind_pure] at h

theorem name : Bracketed n name name := by
  refine acceptIf_bind (fun t ht => ?_) (fun a m _ => pure a) failure
  rcases ht with ht | rfl
  · cases t <;> first | rfl | contradiction
  · rfl

/-- The first lexeme, which is none of the layout. -/
theorem take_bind {f f' : Option Lexeme → Reading β}
    (hsome : ∀ t, t.isLayout = false → ∀ m < n, Bracketed m (f (some t)) (f' (some t)))
    (hlayout : ∀ t, t.isLayout = true → f (some t) = Alternative.failure) (hnone : f none = Alternative.failure) :
    Bracketed n (Reading.acceptIf some >>= f) (Reading.acceptIf some >>= f') := by
  intro k A b rest hlength hrun
  cases A with
  | nil =>
      cases k with
      | zero =>
          rw [run_bind_of_eq_some (run_acceptIf_none rfl), hnone] at hrun
          contradiction
      | succ k =>
          rw [lineEnds, List.replicate_succ, List.nil_append, run_bind_of_eq_some (run_acceptIf_some rfl),
            hlayout _ rfl] at hrun
          contradiction
  | cons t A =>
      rw [List.cons_append, run_bind_of_eq_some (run_acceptIf_some rfl)] at hrun ⊢
      cases ht : t.isLayout with
      | true =>
          rw [hlayout t ht] at hrun
          contradiction
      | false =>
          obtain ⟨A₁, A₂, rfl, rfl, hA₁, hrun'⟩ := hsome t ht A.length hlength le_rfl hrun
          exact ⟨t :: A₁, A₂, rfl, rfl, List.forall_mem_cons.2 ⟨ht, hA₁⟩, hrun'⟩

/-- Loops have enough fuel for the lexemes that are left. -/
theorem get_bind {f f' : List Lexeme → Reading α}
    (h : ∀ m ≤ n, ∀ L L' : List Lexeme, m ≤ L.length → m < L'.length → Bracketed m (f L) (f' L')) :
    Bracketed n (get >>= f) (get >>= f') := by
  intro k A a rest hlength hrun
  exact h A.length hlength (A ++ lineEnds k) (A ++ closing) (by simp) (by simp [closing]) le_rfl hrun

end Bracketed

/-! ## repetition -/

/-- Readers to repeat: the first takes a lexeme each time, and the second gives nothing at a closing bracket. -/
structure Stepping (n : Nat) (p p' : Reading (Option α)) : Prop where
  bracketed : Bracketed n p p'
  progress : ∀ ⦃k A a rest⦄, A.length ≤ n → p.run (A ++ lineEnds k) = some (some a, rest) →
    rest.length < (A ++ lineEnds k).length
  ends : p'.run closing = some (none, closing)

namespace Stepping

variable {p p' : Reading (Option α)}

theorem mono (hmn : m ≤ n) (h : Stepping n p p') : Stepping m p p' where
  bracketed := h.bracketed.mono hmn
  progress := fun _ _ _ _ hlength => h.progress (hlength.trans hmn)
  ends := h.ends

theorem manyFor (h : Stepping n p p') {fuel fuel' : Nat} (hfuel : n ≤ fuel) (hfuel' : n < fuel') :
    Bracketed n (manyFor p fuel) (manyFor p' fuel') := by
  induction fuel generalizing n fuel' with
  | zero =>
      obtain ⟨fuel', rfl⟩ : ∃ x, fuel' = x + 1 := ⟨fuel' - 1, by omega⟩
      intro k A a rest hlength hrun
      obtain rfl : A = [] := List.length_eq_zero_iff.1 (by omega)
      obtain ⟨rfl, rfl⟩ := Prod.mk.inj (Option.some.inj hrun)
      refine ⟨[], [], rfl, rfl, nofun, ?_⟩
      rw [List.nil_append, Reading.manyFor, run_bind_of_eq_some h.ends]
      rfl
  | succ fuel ih =>
      obtain ⟨fuel', rfl⟩ : ∃ x, fuel' = x + 1 := ⟨fuel' - 1, by omega⟩
      intro k A a rest hlength hrun
      rw [Reading.manyFor] at hrun
      obtain ⟨o, M, hp, hrest⟩ := run_bind_eq_some.1 hrun
      obtain ⟨A₁, A₂, rfl, rfl, hA₁, hp'⟩ := h.bracketed hlength hp
      cases o with
      | none =>
          obtain ⟨rfl, rfl⟩ := Prod.mk.inj (Option.some.inj hrest)
          refine ⟨A₁, A₂, rfl, rfl, hA₁, ?_⟩
          rw [Reading.manyFor, run_bind_of_eq_some hp']
          rfl
      | some a =>
          have hprogress := h.progress hlength hp
          simp only [List.length_append] at hprogress hlength
          obtain ⟨as, M, hmore, heq⟩ := run_bind_eq_some.1 hrest
          obtain ⟨rfl, rfl⟩ := Prod.mk.inj (Option.some.inj heq)
          have hbracketed : Bracketed (n - 1) (Reading.manyFor p fuel) (Reading.manyFor p' fuel') :=
            ih (h.mono (Nat.sub_le n 1)) (by omega) (by omega)
          obtain ⟨A₃, A₄, rfl, rfl, hA₃, hmore'⟩ := hbracketed (by omega) hmore
          refine ⟨A₁ ++ A₃, A₄, (List.append_assoc ..).symm, rfl, List.forall_mem_append.2 ⟨hA₁, hA₃⟩, ?_⟩
          rw [Reading.manyFor, run_bind_of_eq_some hp']
          exact run_bind_of_eq_some hmore'

theorem many (h : Stepping n p p') : Bracketed n (many p) (many p') :=
  Bracketed.get_bind fun _ hm _ _ hfuel hfuel' => (h.mono hm).manyFor hfuel hfuel'

theorem nothing : Stepping n (Pure.pure none : Reading (Option α)) (Pure.pure none) where
  bracketed := .pure _
  progress := fun _ _ _ _ _ hrun => absurd hrun nofun
  ends := rfl

/-- What is read after a test that takes a lexeme, or instead. -/
theorem bind {f f' : Option α → Reading (Option β)} (h : Stepping n p p')
    (hsome : ∀ a, Bracketed n (f (some a)) (f' (some a))) (hnone : Stepping n (f none) (f' none)) :
    Stepping n (p >>= f) (p' >>= f') where
  bracketed := h.bracketed.bind fun o => by
    cases o with
    | none => exact hnone.bracketed
    | some a => exact hsome a
  progress := by
    intro k A b rest hlength hrun
    obtain ⟨o, M, hp, hrest⟩ := run_bind_eq_some.1 hrun
    obtain ⟨A₁, A₂, rfl, rfl, -, -⟩ := h.bracketed hlength hp
    rw [List.length_append] at hlength
    cases o with
    | none =>
        have hprogress := hnone.progress (A := A₂) (by omega) hrest
        simp only [List.length_append] at hprogress ⊢
        omega
    | some a =>
        have hprogress := h.progress (by rwa [List.length_append]) hp
        obtain ⟨A₃, A₄, rfl, rfl, -, -⟩ := hsome a (by omega) hrest
        simp only [List.length_append] at hprogress ⊢
        omega
  ends := by
    rw [run_bind_of_eq_some h.ends]
    exact hnone.ends

/-- What is read after another reader that takes nothing at a closing bracket. -/
theorem of_bind {q q' : Reading β} {f f' : β → Reading (Option α)} (hq : Bracketed n q q')
    (hends : ∃ b, q'.run closing = some (b, closing)) (hf : ∀ b, Stepping n (f b) (f' b)) :
    Stepping n (q >>= f) (q' >>= f') where
  bracketed := hq.bind fun b => (hf b).bracketed
  progress := by
    intro k A b rest hlength hrun
    obtain ⟨b, M, hM, hrest⟩ := run_bind_eq_some.1 hrun
    obtain ⟨A₁, A₂, rfl, rfl, -, -⟩ := hq hlength hM
    rw [List.length_append] at hlength
    have hprogress := (hf b).progress (A := A₂) (by omega) hrest
    simp only [List.length_append] at hprogress ⊢
    omega
  ends := by
    obtain ⟨b, hb⟩ := hends
    rw [run_bind_of_eq_some hb]
    exact (hf b).ends

theorem acceptIf {g : Lexeme → Option α} (hg : ∀ t, t.isLayout = true ∨ t = .sign ")" → g t = none) :
    Stepping n (acceptIf g) (acceptIf g) where
  bracketed := .acceptIf hg
  progress := by
    intro k A a rest _ hrun
    cases hL : A ++ lineEnds k with
    | nil =>
        rw [hL, run_acceptIf_none rfl] at hrun
        cases hrun
    | cons t L =>
        rw [hL] at hrun
        cases ht : g t with
        | none =>
            rw [run_acceptIf_none (by exact ht)] at hrun
            cases hrun
        | some b =>
            rw [run_acceptIf_some ht] at hrun
            obtain ⟨-, rfl⟩ := Prod.mk.inj (Option.some.inj hrun)
            exact Nat.lt_succ_self _
  ends := run_acceptIf_none (hg _ (.inr rfl))

theorem peek_bind {f f' : Option Lexeme → Reading (Option α)} (h : ∀ o, Stepping n (f o) (f' o))
    (hline : f (some .newline) = f none) (hclose : f' (some (.sign ")")) = f' none) :
    Stepping n (peek >>= f) (peek >>= f') where
  bracketed := .peek (fun o => (h o).bracketed) hline hclose
  progress := by
    intro k A a rest hlength hrun
    exact (h (A ++ lineEnds k).head?).progress hlength hrun
  ends := by
    rw [run_bind_of_eq_some run_peek, closing, List.head?_cons, hclose]
    exact (h none).ends

/-- What is read after a sign or a word, or instead. -/
theorem accept_bind {f f' : Bool → Reading (Option α)} (ht : t.isLayout = false ∧ t ≠ .sign ")")
    (htrue : Bracketed n (f true) (f' true)) (hfalse : Stepping n (f false) (f' false)) :
    Stepping n (accept t >>= f) (accept t >>= f') := by
  rw [accept_bind_eq, accept_bind_eq]
  exact (Stepping.acceptIf (Bracketed.eq_none_of_layout ht)).bind (fun _ => htrue) hfalse

end Stepping

/-! ## lists -/

namespace Bracketed

variable {p p' : Reading α}

theorem failure_bind {f : α → Reading β} {q : Reading β} : Bracketed n (Alternative.failure >>= f) q :=
  fun _ _ _ _ _ hrun => absurd hrun nofun

theorem after {s : String} (hs : s ≠ ")") (hp : Bracketed n p p') : Bracketed n (after s p) (after s p') :=
  accept_bind ⟨rfl, fun h => hs (Lexeme.sign.inj h)⟩
    (fun _ hm => (hp.mono hm.le).bind fun _ => .pure _) (.pure _)

end Bracketed

theorem Stepping.afterWord {w : String} {p p' : Reading α} (hp : Bracketed n p p') :
    Stepping n (afterWord w p) (afterWord w p') :=
  accept_bind ⟨rfl, nofun⟩ (hp.bind fun _ => .pure _) .nothing

/-- What is read after a comma, if an item follows it. -/
def commaThen (p : Reading α) (opens : Lexeme → Bool) : Reading (Option α) := do
  if (← peek) = some (.sign ",") && ((← get)[1]?.any opens) then
    let _ ← sign ","
    return some (← p)
  else return none

theorem run_commaThen_of_not {p : Reading α} {opens : Lexeme → Bool}
    (h : ∀ x, L.head? = some (.sign ",") → L[1]? = some x → opens x = false) :
    (commaThen p opens).run L = some (none, L) := by
  have hcond : (decide (L.head? = some (.sign ",")) && L[1]?.any opens) = false := by
    by_cases hhead : L.head? = some (.sign ",")
    · cases hnext : L[1]? with
      | none => simp
      | some x => simp [h x hhead hnext]
    · simp [hhead]
  rw [commaThen, run_bind_of_eq_some run_peek, run_bind_of_eq_some (a := L) rfl, hcond]
  rfl

theorem run_commaThen_cons {p : Reading α} {opens : Lexeme → Bool} (h : opens t = true) :
    (commaThen p opens).run (.sign "," :: t :: L) = (p >>= fun a => Pure.pure (some a)).run (t :: L) := by
  rw [commaThen, run_bind_of_eq_some run_peek, run_bind_of_eq_some (a := .sign "," :: t :: L) rfl]
  have hcond : (decide ((.sign "," :: t :: L : List Lexeme).head? = some (.sign ",")) &&
      (.sign "," :: t :: L : List Lexeme)[1]?.any opens) = true := by simp [h]
  rw [hcond, if_pos rfl, sign, run_bind_of_eq_some run_accept_self]

/-- Either an item follows a comma, or nothing is read, before line ends and before a closing bracket. -/
theorem commaThen_cases {opens : Lexeme → Bool} (hopens : ∀ t, t.isLayout = true ∨ t = .sign ")" → opens t = false)
    (A : List Lexeme) : (∃ x B, A = .sign "," :: x :: B ∧ opens x = true) ∨
      ∀ p : Reading α, (∀ k, (commaThen p opens).run (A ++ lineEnds k) = some (none, A ++ lineEnds k)) ∧
        (commaThen p opens).run (A ++ closing) = some (none, A ++ closing) := by
  have hline (k : Nat) : ∀ x ∈ (lineEnds k).head?, opens x = false := by
    intro x hx
    rcases head?_lineEnds k with hhead | hhead <;> rw [hhead] at hx
    · cases hx
    · exact Option.some.inj hx ▸ hopens _ (.inl rfl)
  match A with
  | [] =>
      refine .inr fun p => ⟨fun k => run_commaThen_of_not fun x hhead => ?_, run_commaThen_of_not fun x hhead => ?_⟩
      · rcases head?_lineEnds k with hnone | hnone <;> rw [List.nil_append, hnone] at hhead <;> cases hhead
      · exact absurd hhead (by decide)
  | [y] =>
      refine .inr fun p => ⟨fun k => run_commaThen_of_not fun x _ hx => ?_, run_commaThen_of_not fun x _ hx => ?_⟩
      · exact hline k x (by simpa [List.head?_eq_getElem?] using hx)
      · exact Option.some.inj hx ▸ hopens _ (.inr rfl)
  | y :: x :: B =>
      by_cases hy : y = .sign ","
      · cases hx : opens x with
        | true => exact .inl ⟨x, B, by rw [hy], hx⟩
        | false =>
            exact .inr fun p => ⟨fun k => run_commaThen_of_not fun z _ hz => Option.some.inj hz ▸ hx,
              run_commaThen_of_not fun z _ hz => Option.some.inj hz ▸ hx⟩
      · exact .inr fun p => ⟨fun k => run_commaThen_of_not fun z hhead => absurd (Option.some.inj hhead) hy,
          run_commaThen_of_not fun z hhead => absurd (Option.some.inj hhead) hy⟩

theorem Stepping.comma {p p' : Reading α} {opens : Lexeme → Bool}
    (hopens : ∀ t, t.isLayout = true ∨ t = .sign ")" → opens t = false) (hp : Bracketed n p p') :
    Stepping n (commaThen p opens) (commaThen p' opens) := by
  have hread : Bracketed n (p >>= fun a => Pure.pure (some a)) (p' >>= fun a => Pure.pure (some a)) :=
    hp.bind fun a => .pure _
  refine ⟨?_, ?_, ?_⟩
  · intro k A a rest hlength hrun
    rcases @commaThen_cases α _ hopens A with ⟨x, B, rfl, hx⟩ | hnone
    · simp only [List.cons_append, run_commaThen_cons hx] at hrun ⊢
      obtain ⟨A₁, A₂, heq, rfl, hA₁, hrun'⟩ := hread (A := x :: B) (by simp at hlength ⊢; omega) hrun
      refine ⟨.sign "," :: A₁, A₂, by rw [heq, List.cons_append], rfl, List.forall_mem_cons.2 ⟨rfl, hA₁⟩, hrun'⟩
    · rw [(hnone p).1 k] at hrun
      obtain ⟨rfl, rfl⟩ := Prod.mk.inj (Option.some.inj hrun)
      exact ⟨[], A, rfl, rfl, nofun, (hnone p').2⟩
  · intro k A a rest hlength hrun
    rcases @commaThen_cases α _ hopens A with ⟨x, B, rfl, hx⟩ | hnone
    · simp only [List.cons_append, run_commaThen_cons hx] at hrun
      obtain ⟨A₁, A₂, heq, rfl, -, -⟩ := hread (A := x :: B) (by simp at hlength ⊢; omega) hrun
      have hlength₂ := congrArg List.length heq
      simp only [List.length_cons, List.length_append] at hlength₂ ⊢
      omega
    · rw [(hnone p).1 k] at hrun
      cases hrun
  · exact run_commaThen_of_not fun x hhead => absurd (Option.some.inj hhead) (by decide)

/-- Things with commas between. -/
theorem Bracketed.commaList {p p' : Reading α} {opens : Lexeme → Bool}
    (hopens : ∀ t, t.isLayout = true ∨ t = .sign ")" → opens t = false) (hp : Bracketed n p p') (first : α) :
    Bracketed n (commaList first p opens) (commaList first p' opens) :=
  .bind (Stepping.comma hopens hp).many fun _ => .bind (.accept ⟨rfl, by decide⟩) fun _ => .pure _

end Lalr.Code
