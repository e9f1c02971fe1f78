import Lalr.Code.Statement
import Lalr.Proofs.Code.Bracketed

/-!
# Lalr.Proofs.Code.Wrapped

Code that is read as an expression by itself is read as the same expression between brackets
(`run_roundRest_of_readExpr`).
-/

namespace Lalr.Code

open Reading

variable {depth depth' k : Nat} {A L rest : List Lexeme} {e : Expr}

/-- What can be read begins with a lexeme that opens an expression. -/
theorem exists_cons_of_run_expression
    (h : (readersOfDepth depth).1.expression.run (A ++ lineEnds k) = some (e, rest)) :
    ∃ first A', A = first :: A' ∧ opensExpression first = true := by
  have hopen : (A ++ lineEnds k).head?.any opensExpression = true := by
    by_contra hnot
    rw [(opening_readersOfDepth depth).1 _ (by simpa using hnot)] at h
    contradiction
  cases A with
  | nil =>
      rcases head?_lineEnds k with hhead | hhead <;> rw [List.nil_append, hhead] at hopen <;> contradiction
  | cons first A => exact ⟨first, A, rfl, hopen⟩

/-- A name before a sign that binds it is an expression of its own. -/
theorem run_expression_binding {id : String} (hdepth : 2 ≤ depth) (L : List Lexeme) :
    (readersOfDepth depth).1.expression.run (.name id :: .sign ":=" :: L) =
      some (.name id, .sign ":=" :: L) := by
  obtain ⟨depth, rfl⟩ : ∃ d, depth = d + 2 := ⟨depth - 2, by omega⟩
  refine run_expression_of_atom (by simp [prefixes]) (by decide) ?_
  rw [Nested.atom, run_bind_of_eq_some (run_acceptIf_some rfl)]
  rfl

/-- An expression is read as an item between brackets, unless it is a name that a sign behind it binds. -/
theorem run_item_of_expression (hdepth : A.length < depth) (hle : depth ≤ depth')
    (hrun : (readersOfDepth depth).1.expression.run (A ++ lineEnds k) = some (e, rest))
    (hrest : rest.head? ≠ some (.sign ":=")) :
    ∃ A₁ A₂, A = A₁ ++ A₂ ∧ rest = A₂ ++ lineEnds k ∧ (∀ t ∈ A₁, t.isLayout = false) ∧
      (readersOfDepth depth').1.item.run (A ++ closing) = some (e, A₂ ++ closing) := by
  obtain ⟨first, A, rfl, hfirst⟩ := exists_cons_of_run_expression hrun
  obtain ⟨A₁, A₂, heq, rfl, hA₁, hrun'⟩ := (bracketed_readersOfDepth hle).1.expression _ le_rfl hrun
  refine ⟨A₁, A₂, heq, rfl, hA₁, ?_⟩
  have hstar : first ≠ .sign "*" := by
    rintro rfl
    contradiction
  rw [Nested.item, sign, run_bind_of_eq_some (run_accept_of_ne (by simpa using hstar)),
    if_neg Bool.false_ne_true, Nested.named, run_bind_of_eq_some run_peek]
  split
  · next id hid =>
      obtain rfl : first = .name id := Option.some.inj hid
      have hnext : (Lexeme.name id :: A ++ closing)[1]? ≠ some (.sign ":=") := by
        intro hnext
        cases A with
        | nil => exact absurd hnext (by simp [closing])
        | cons x A =>
            obtain rfl : x = .sign ":=" := Option.some.inj hnext
            rw [List.cons_append, List.cons_append,
              run_expression_binding (by simp at hdepth; omega)] at hrun
            exact hrest (by rw [← (Prod.mk.inj (Option.some.inj hrun)).2]; rfl)
      rw [run_bind_of_eq_some run_followedBy, decide_eq_false hnext, if_neg Bool.false_ne_true]
      exact hrun'
  · exact hrun'

/-! ## items -/

/-- Where a name is bound, a list of items ends. -/
theorem run_items_binding {p : Reading Expr} (hL : L.head? = some (.sign ":=")) (fuel : Nat) :
    (manyFor (commaThen p opensItem) fuel).run L = some ([], L) := by
  cases fuel with
  | zero => rfl
  | succ fuel =>
      rw [manyFor, run_bind_of_eq_some (run_commaThen_of_not fun x hhead => ?_)]
      · rfl
      · rw [hL] at hhead
        exact absurd hhead (by decide)

/-- The items after the first one are read between brackets, if nothing is bound behind the last. -/
theorem run_items_of_expressions {fuel fuel' : Nat} {more : List Expr} (hdepth : A.length < depth)
    (hle : depth ≤ depth') (hfuel : A.length ≤ fuel) (hfuel' : A.length < fuel')
    (hrun : (manyFor (commaThen (readersOfDepth depth).1.expression opensItem) fuel).run (A ++ lineEnds k) =
      some (more, rest)) (hrest : rest.head? ≠ some (.sign ":=")) :
    ∃ A₁ A₂, A = A₁ ++ A₂ ∧ rest = A₂ ++ lineEnds k ∧ (∀ t ∈ A₁, t.isLayout = false) ∧
      (manyFor (commaThen (readersOfDepth depth').1.item opensItem) fuel').run (A ++ closing) =
        some (more, A₂ ++ closing) := by
  induction fuel generalizing A fuel' more with
  | zero =>
      obtain rfl : A = [] := List.length_eq_zero_iff.1 (by omega)
      obtain ⟨rfl, rfl⟩ := Prod.mk.inj (Option.some.inj hrun)
      obtain ⟨fuel', rfl⟩ : ∃ x, fuel' = x + 1 := ⟨fuel' - 1, by omega⟩
      refine ⟨[], [], rfl, rfl, nofun, ?_⟩
      rw [List.nil_append, manyFor,
        run_bind_of_eq_some (run_commaThen_of_not fun x hhead => absurd hhead (by decide))]
      rfl
  | succ fuel ih =>
      obtain ⟨fuel', rfl⟩ : ∃ x, fuel' = x + 1 := ⟨fuel' - 1, by omega⟩
      rw [manyFor] at hrun
      rcases @commaThen_cases Expr _ Nested.Bracketed.opensItem_of_layout A with ⟨x, B, rfl, hx⟩ | hnone
      · simp only [List.length_cons] at hdepth hfuel hfuel'
        obtain ⟨o, M, hfirst, hmore⟩ := run_bind_eq_some.1 hrun
        simp only [List.cons_append, run_commaThen_cons hx] at hfirst
        obtain ⟨e, M, he, heq⟩ := run_bind_eq_some.1 hfirst
        obtain ⟨rfl, rfl⟩ := Prod.mk.inj (Option.some.inj heq)
        obtain ⟨es, M', hes, heq⟩ := run_bind_eq_some.1 hmore
        obtain ⟨rfl, rfl⟩ := Prod.mk.inj (Option.some.inj heq)
        have hM : M.head? ≠ some (.sign ":=") := by
          intro hbinding
          rw [run_items_binding hbinding] at hes
          exact hrest ((Prod.mk.inj (Option.some.inj hes)).2 ▸ hbinding)
        obtain ⟨A₁, A₂, hsplit, rfl, hA₁, he'⟩ :=
          run_item_of_expression (A := x :: B) (by simp only [List.length_cons]; omega) hle he hM
        have hlength := congrArg List.length hsplit
        simp only [List.length_cons, List.length_append] at hlength
        have hfuel₂ : A₂.length < fuel' := by omega
        obtain ⟨A₃, A₄, rfl, rfl, hA₃, hes'⟩ := ih (by omega) (by omega) hfuel₂ hes
        refine ⟨.sign "," :: (A₁ ++ A₃), A₄, by simp [hsplit], rfl,
          List.forall_mem_cons.2 ⟨rfl, List.forall_mem_append.2 ⟨hA₁, hA₃⟩⟩, ?_⟩
        have hfirst' : (commaThen (readersOfDepth depth').1.item opensItem).run
            (.sign "," :: x :: B ++ closing) = some (some e, A₃ ++ A₄ ++ closing) := by
          rw [List.cons_append, List.cons_append, run_commaThen_cons hx]
          exact run_bind_of_eq_some he'
        rw [manyFor, run_bind_of_eq_some hfirst']
        exact run_bind_of_eq_some hes'
      · rw [run_bind_of_eq_some ((hnone _).1 k)] at hrun
        obtain ⟨rfl, rfl⟩ := Prod.mk.inj (Option.some.inj hrun)
        refine ⟨[], A, rfl, rfl, nofun, ?_⟩
        rw [manyFor, run_bind_of_eq_some (hnone _).2]
        rfl

/-! ## between brackets -/

/-- No comprehension goes on at a comma or at a closing bracket. -/
theorem run_comprehension_of_comma {nested : Nested} {primary : Reading Expr}
    (hL : L.head? = some (.sign ",") ∨ L.head? = some (.sign ")")) :
    (nested.comprehension primary).run L = some (false, L) := by
  have hword (w : String) : L.head? ≠ some (.keyword w) := by
    rcases hL with hL | hL <;> rw [hL] <;> simp
  have hclause : (nested.clause primary).run L = some (none, L) := by
    have hnot : (decide (L.head? = some (.keyword "async")) && decide (L[1]? = some (.keyword "for"))) = false := by
      rw [decide_eq_false (hword "async"), Bool.false_and]
    rw [Nested.clause, run_bind_of_eq_some run_peek, run_bind_of_eq_some run_followedBy]
    dsimp only
    rw [hnot, if_neg Bool.false_ne_true, afterWord, keyword, run_bind_of_eq_some (run_accept_of_ne (hword "for"))]
    rfl
  rw [Nested.comprehension, run_bind_of_eq_some (run_many_none hclause)]
  rfl

/-- Nothing but line ends is nothing, in front of line ends and where no line ends. -/
theorem eq_nil_of_append_lineEnds {A₁ B : List Lexeme} {j : Nat} (hlast : (A₁ ++ B).getLast? ≠ some .newline)
    (h : B ++ lineEnds k = lineEnds j) : B = [] := by
  by_contra hne
  obtain ⟨t, ht⟩ := Option.isSome_iff_exists.1 (List.getLast?_isSome.2 hne)
  have hmem : t ∈ lineEnds j := h ▸ List.mem_append_left _ (List.mem_of_getLast? ht)
  obtain rfl := List.eq_of_mem_replicate hmem
  exact hlast (by rw [List.getLast?_append, ht]; rfl)

/-- What is left of a list of items before line ends: nothing, or a comma. -/
theorem run_comma_before_lineEnds {A₁ B : List Lexeme} {j : Nat} {trailing : Bool}
    (hlast : (A₁ ++ B).getLast? ≠ some .newline)
    (h : (sign ",").run (B ++ lineEnds k) = some (trailing, lineEnds j)) :
    (B = [] ∨ B = [.sign ","]) ∧ (sign ",").run (B ++ closing) = some (trailing, closing) := by
  by_cases hhead : (B ++ lineEnds k).head? = some (.sign ",")
  · obtain ⟨B, rfl⟩ : ∃ B', B = .sign "," :: B' := by
      cases B with
      | nil => rcases head?_lineEnds k with hk | hk <;> rw [List.nil_append, hk] at hhead <;> cases hhead
      | cons t B => exact ⟨B, by rw [Option.some.inj hhead]⟩
    rw [List.cons_append, sign, run_accept_self] at h
    obtain ⟨rfl, hrest⟩ := Prod.mk.inj (Option.some.inj h)
    rw [List.append_cons] at hlast
    obtain rfl := eq_nil_of_append_lineEnds hlast hrest
    exact ⟨.inr rfl, run_accept_self⟩
  · rw [sign, run_accept_of_ne hhead] at h
    obtain ⟨rfl, hrest⟩ := Prod.mk.inj (Option.some.inj h)
    obtain rfl := eq_nil_of_append_lineEnds hlast hrest
    exact ⟨.inl rfl, run_accept_of_ne (by decide)⟩

/-- Items with commas between, and nothing but line ends behind them, are read between brackets. -/
theorem run_roundRest_of_bareTuple {j : Nat} (hdepth : A.length < depth) (hle : depth ≤ depth')
    (hlast : A.getLast? ≠ some .newline)
    (hrun : (Nested.bareTuple (readersOfDepth depth).1.expression).run (A ++ lineEnds k) = some (e, lineEnds j)) :
    (∀ t ∈ A, t.isLayout = false) ∧
      ((readersOfDepth depth').1.roundRest (readersOfDepth depth').2).run (A ++ closing) =
        some (e, [.newline, .dedent]) := by
  obtain ⟨first, M₁, hfirst, hrest⟩ := run_bind_eq_some.1 hrun
  obtain ⟨⟨items, comma⟩, M, hitems, hresult⟩ := run_bind_eq_some.1 hrest
  obtain ⟨more, M₂, hmore, htrailing⟩ := run_bind_eq_some.1 hitems
  obtain ⟨trailing, M₃, hcomma, heq⟩ := run_bind_eq_some.1 htrailing
  obtain ⟨hpair, rfl⟩ := Prod.mk.inj (Option.some.inj heq)
  obtain ⟨rfl, rfl⟩ := Prod.mk.inj hpair
  obtain rfl : M₃ = lineEnds j := by
    dsimp only at hresult
    split at hresult <;> exact (Prod.mk.inj (Option.some.inj hresult)).2
  have hM₂ : M₂.head? ≠ some (.sign ":=") := by
    intro hbinding
    rw [sign, run_accept_of_ne (by rw [hbinding]; decide)] at hcomma
    obtain ⟨-, rfl⟩ := Prod.mk.inj (Option.some.inj hcomma)
    rcases head?_lineEnds j with hj | hj <;> rw [hj] at hbinding <;> cases hbinding
  have hM₁ : M₁.head? ≠ some (.sign ":=") := by
    intro hbinding
    have hstay := (run_items_binding hbinding M₁.length).symm.trans hmore
    exact hM₂ ((Prod.mk.inj (Option.some.inj hstay)).2 ▸ hbinding)
  obtain ⟨A₁, A₂, rfl, rfl, hA₁, hfirst'⟩ := run_item_of_expression hdepth hle hfirst hM₁
  have hfuel : A₂.length ≤ (A₂ ++ lineEnds k).length := by simp
  have hfuel' : A₂.length < (A₂ ++ closing).length := by simp [closing]
  have hdepth₂ : A₂.length < depth := (List.length_append ▸ Nat.le_add_left ..).trans_lt hdepth
  obtain ⟨B₁, B₂, rfl, rfl, hB₁, hmore'⟩ := run_items_of_expressions hdepth₂ hle hfuel hfuel' hmore hM₂
  rw [← List.append_assoc] at hlast
  obtain ⟨hB₂, hcomma'⟩ := run_comma_before_lineEnds hlast hcomma
  have hlayout : ∀ t ∈ A₁ ++ (B₁ ++ B₂), t.isLayout = false := by
    refine List.forall_mem_append.2 ⟨hA₁, List.forall_mem_append.2 ⟨hB₁, ?_⟩⟩
    rcases hB₂ with rfl | rfl <;> decide
  refine ⟨hlayout, ?_⟩
  obtain ⟨t, A, hA, ht⟩ := exists_cons_of_run_expression hfirst
  have hclose : (A₁ ++ (B₁ ++ B₂) ++ closing).head? ≠ some (.sign ")") := by
    rw [hA]
    rintro heq
    rw [Option.some.inj heq] at ht
    contradiction
  have hyield : (A₁ ++ (B₁ ++ B₂) ++ closing).head? ≠ some (.keyword "yield") := by
    rw [hA]
    rintro heq
    rw [Option.some.inj heq] at ht
    contradiction
  have hstarred : first.isStarred = false := (unstarred_readersOfDepth depth).1 hfirst
  have hcomprehension : ((readersOfDepth depth').1.comprehension (readersOfDepth depth').2).run
      (B₁ ++ B₂ ++ closing) = some (false, B₁ ++ B₂ ++ closing) := by
    refine run_comprehension_of_comma ?_
    rcases @commaThen_cases Expr _ Nested.Bracketed.opensItem_of_layout (B₁ ++ B₂) with
      ⟨x, B, hB, -⟩ | hnone
    · exact .inl (by rw [hB]; rfl)
    · -- No item is read, so what is left is all there was.
      have hstay := (run_many_none ((hnone _).1 k)).symm.trans hmore
      have hsame : B₁ ++ B₂ = B₂ := List.append_cancel_right (Prod.mk.inj (Option.some.inj hstay)).2
      rw [hsame]
      rcases hB₂ with rfl | rfl
      · exact .inr rfl
      · exact .inl rfl
  have hlist : (commaList first (readersOfDepth depth').1.item).run (B₁ ++ B₂ ++ closing) =
      some ((first :: more, trailing || !more.isEmpty), closing) := by
    have hmany : (many (commaThen (readersOfDepth depth').1.item opensItem)).run (B₁ ++ B₂ ++ closing) =
        some (more, B₂ ++ closing) := hmore'
    exact (run_bind_of_eq_some hmany).trans (run_bind_of_eq_some hcomma')
  rw [Nested.roundRest, sign, run_bind_of_eq_some (run_accept_of_ne hclose), if_neg Bool.false_ne_true, keyword,
    run_bind_of_eq_some (run_accept_of_ne hyield), if_neg Bool.false_ne_true, run_bind_of_eq_some hfirst']
  dsimp only
  rw [hstarred, if_pos Bool.not_false, run_bind_of_eq_some hcomprehension, if_neg Bool.false_ne_true,
    run_bind_of_eq_some hlist]
  dsimp only
  rw [closing, run_bind_of_eq_some run_expect_self]
  cases more with
  | nil =>
      cases trailing with
      | false =>
          obtain rfl : first = e := (Prod.mk.inj (Option.some.inj hresult)).1
          simp [hstarred]
      | true =>
          obtain rfl : Expr.tuple [first] = e := (Prod.mk.inj (Option.some.inj hresult)).1
          rfl
  | cons second more =>
      obtain rfl : Expr.tuple (first :: second :: more) = e := (Prod.mk.inj (Option.some.inj hresult)).1
      rfl

/-! ## whole expressions -/

theorem readAll_eq_some {α : Type} {p : Reading α} {a : α} : readAll p L = some a ↔ p.run L = some (a, []) := by
  unfold readAll
  split
  · next b hb => rw [hb, Option.some.injEq, Option.some.injEq, Prod.mk.injEq, and_iff_left rfl]
  · next hnone => exact ⟨nofun, fun h => absurd h (hnone a)⟩

/-- If line ends are taken one by one and nothing is left, there was nothing else. -/
theorem eq_lineEnds_of_run_manyFor {M : List Lexeme} {fuel : Nat} {ends : List Unit}
    (h : (manyFor (do return if ← accept .newline then some () else none) fuel).run M = some (ends, [])) :
    M = lineEnds M.length := by
  induction fuel generalizing M ends with
  | zero =>
      obtain ⟨-, rfl⟩ := Prod.mk.inj (Option.some.inj h)
      rfl
  | succ fuel ih =>
      cases M with
      | nil => rfl
      | cons t M =>
          rw [manyFor] at h
          by_cases ht : t = .newline
          · subst ht
            rw [run_bind_of_eq_some (run_bind_of_eq_some run_accept_self)] at h
            obtain ⟨_, rest, hrest, heq⟩ := run_bind_eq_some.1 h
            obtain ⟨-, rfl⟩ := Prod.mk.inj (Option.some.inj heq)
            rw [ih hrest]
            simp [lineEnds, List.replicate_succ]
          · rw [run_bind_of_eq_some (run_bind_of_eq_some (run_accept_of_ne (by simpa using ht)))] at h
            cases h

/-- Lexemes are some that do not end with a line end, and line ends. -/
theorem exists_append_lineEnds (L : List Lexeme) :
    ∃ A k, L = A ++ lineEnds k ∧ A.getLast? ≠ some .newline := by
  induction L using List.reverseRecOn with
  | nil => exact ⟨[], 0, rfl, nofun⟩
  | append_singleton L t ih =>
      by_cases ht : t = .newline
      · obtain ⟨A, k, rfl, hlast⟩ := ih
        refine ⟨A, k + 1, ?_, hlast⟩
        rw [ht, List.append_assoc]
        exact congrArg (A ++ ·) List.replicate_succ'.symm
      · exact ⟨L ++ [t], 0, (List.append_nil _).symm, by simpa using ht⟩

/-- Code that is read as an expression by itself is read as the same expression between brackets, without the
lexemes about lines.  There is at most one of those. -/
theorem run_roundRest_of_readExpr {code : List Char} (hread : readExpr code = some e)
    (hL : expressionLexemes code = some L) :
    L.length ≤ (L.filter (!·.isLayout)).length + 1 ∧ ∀ depth, L.length < depth →
      ((readersOfDepth depth).1.roundRest (readersOfDepth depth).2).run (L.filter (!·.isLayout) ++ closing) =
        some (e, [.newline, .dedent]) := by
  rw [readExpr, hL] at hread
  obtain ⟨e', M, hrun, hends⟩ := run_bind_eq_some.1 (readAll_eq_some.1 hread)
  obtain ⟨ends, M', hmany, heq⟩ := run_bind_eq_some.1 hends
  obtain ⟨rfl, rfl⟩ := Prod.mk.inj (Option.some.inj heq)
  rw [eq_lineEnds_of_run_manyFor hmany] at hrun
  obtain ⟨A, k, rfl, hlast⟩ := exists_append_lineEnds L
  have hk : k ≤ 1 := (lexemes_eq_some_iff.1 hL).2.spaced.1.le_one
  have hlength : A.length < (A ++ lineEnds k).length + 1 := by
    rw [List.length_append]
    omega
  have hbefore (depth : Nat) (hle : (A ++ lineEnds k).length < depth) :=
    run_roundRest_of_bareTuple hlength hle hlast hrun
  have hfilter : (A ++ lineEnds k).filter (!·.isLayout) = A := by
    have hA := (hbefore _ (Nat.lt_succ_self _)).1
    have hend : (lineEnds k).filter (!·.isLayout) = [] := List.filter_eq_nil_iff.2 fun t ht => by
      simp [List.eq_of_mem_replicate ht, Lexeme.isLayout]
    rw [List.filter_append, hend, List.append_nil, List.filter_eq_self.2 fun t ht => by simp [hA t ht]]
  rw [hfilter]
  exact ⟨by simpa [lineEnds] using hk, fun depth hdepth => (hbefore depth hdepth).2⟩

end Lalr.Code
