import Lalr.Code.Expression
import Lalr.Proofs.Code.Reading

/-!
# Lalr.Proofs.Code.Opening

How expressions begin, what they are, and where they end.  An expression begins with one of the lexemes that
open an item, and not with a star (`opening_readersOfDepth`).  It is not starred itself
(`unstarred_readersOfDepth`).  An atom with nothing behind it that could go on is the whole expression
(`run_expression_of_atom`).
-/

namespace Lalr.Code

open Reading

variable {α β : Type} {t : Lexeme} {L L' : List Lexeme} {nested : Nested} {primary : Reading Expr}

/-! ## beginnings -/

/-- The lexemes that an expression can begin with. -/
def opensExpression (t : Lexeme) : Bool := opensItem t && t ≠ .sign "*"

/-- A reader that fails unless an expression begins. -/
def Opening (p : Reading α) : Prop := ∀ L : List Lexeme, L.head?.any opensExpression = false → p.run L = none

namespace Opening

variable {p : Reading α} {f : α → Reading β}

theorem failure : Opening (Alternative.failure : Reading α) := fun _ _ => rfl

theorem bind (h : Opening p) : Opening (p >>= f) := fun L hL => run_bind_of_eq_none (h L hL)

theorem run_accept (ht : opensExpression t = true) (hL : L.head?.any opensExpression = false) :
    (accept t).run L = some (false, L) := by
  refine run_accept_of_ne fun h => ?_
  rw [h, Option.any_some, ht] at hL
  contradiction

theorem accept_bind {f : Bool → Reading β} (ht : opensExpression t = true) (h : Opening (f false)) :
    Opening (accept t >>= f) := fun L hL => by
  rw [run_bind_of_eq_some (run_accept ht hL)]
  exact h L hL

theorem atom : Opening (nested.atom primary) := by
  intro L hL
  cases L with
  | nil => rfl
  | cons t L =>
      rw [Nested.atom, run_bind_of_eq_some (run_acceptIf_some rfl)]
      have ht : opensExpression t = false := hL
      split <;> first | rfl | simp_all [opensExpression, opensItem, openingSigns, openingWords]

theorem signed (hprimary : Opening primary) : Opening (nested.signed primary) :=
  .accept_bind rfl (.accept_bind rfl (.accept_bind rfl (.accept_bind rfl hprimary.bind)))

theorem operands (h : Opening nested.operand) (levels : List (List String)) : Opening (nested.operands levels) := by
  cases levels with
  | nil => exact h
  | cons level tighter => exact (operands h tighter).bind

theorem inversion (h : Opening nested.operand) : Opening nested.inversion := by
  intro L hL
  have hnot : (afterWord "not" (pure ())).run L = some (none, L) := by
    rw [afterWord, keyword, run_bind_of_eq_some (run_accept rfl hL)]
    rfl
  rw [Nested.inversion, run_bind_of_eq_some (run_many_none hnot)]
  exact ((operands h Nested.operatorLevels).bind).bind L hL

theorem any (h : Opening nested.operand) : Opening nested.any :=
  .accept_bind rfl (inversion h).bind.bind.bind

end Opening

/-- Expressions begin with a lexeme that opens one. -/
theorem opening_readersOfDepth (depth : Nat) : Opening (readersOfDepth depth).1.expression ∧
    Opening (readersOfDepth depth).1.operand ∧ Opening (readersOfDepth depth).2 := by
  induction depth with
  | zero => exact ⟨.failure, .failure, .failure⟩
  | succ depth ih => exact ⟨.any ih.2.1, .signed Opening.atom.bind, Opening.atom.bind⟩

/-! ## results -/

/-- A reader of expressions that are not starred. -/
def Unstarred (p : Reading Expr) : Prop := ∀ ⦃L e L'⦄, p.run L = some (e, L') → e.isStarred = false

namespace Unstarred

variable {p : Reading Expr} {f : α → Reading Expr}

theorem pure {e : Expr} (he : e.isStarred = false) : Unstarred (Pure.pure e) := fun _ _ _ h =>
  (Prod.mk.inj (Option.some.inj h)).1 ▸ he

theorem failure : Unstarred Alternative.failure := fun _ _ _ h => absurd h nofun

theorem bind {q : Reading α} (h : ∀ a, Unstarred (f a)) : Unstarred (q >>= f) := fun _ _ _ hrun => by
  obtain ⟨a, M, -, hrest⟩ := run_bind_eq_some.1 hrun
  exact h a hrest

/-- What depends on an expression that is not starred. -/
theorem bind_of {f : Expr → Reading Expr} (hp : Unstarred p) (h : ∀ e : Expr, e.isStarred = false → Unstarred (f e)) :
    Unstarred (p >>= f) := fun _ _ _ hrun => by
  obtain ⟨e, M, he, hrest⟩ := run_bind_eq_some.1 hrun
  exact h e (hp he) hrest

theorem ite {q : Reading Expr} {c : Prop} [Decidable c] (hp : c → Unstarred p) (hq : ¬ c → Unstarred q) :
    Unstarred (if c then p else q) := by
  split
  · next hc => exact hp hc
  · next hc => exact hq hc

theorem foldl {step : Expr → α → Expr} (hstep : ∀ e a, (step e a).isStarred = false) {e : Expr}
    (he : e.isStarred = false) (l : List α) : (l.foldl step e).isStarred = false := by
  induction l generalizing e with
  | nil => exact he
  | cons a l ih => exact ih (hstep e a)

theorem combine (e : Expr) (step : String × Expr) : (Nested.combine e step).isStarred = false := by
  unfold Nested.combine
  split <;> rfl

theorem yieldRest : Unstarred nested.yieldRest :=
  .bind fun _ => .ite (fun _ => .bind fun _ => .pure rfl) fun _ => .bind fun _ =>
    .ite (fun _ => .bind fun _ => .pure rfl) fun _ => .pure rfl

/-- The items between round brackets, after the first one. -/
theorem roundItems (first : Expr) : Unstarred (commaList first nested.item >>= fun (items, comma) =>
    expect (.sign ")") >>= fun _ =>
      match items, comma with
      | [e], false => if e.isStarred then Alternative.failure else Pure.pure e
      | _, _ => Pure.pure (.tuple items)) :=
  .bind fun _ => .bind fun _ => by
    split
    · exact .ite (fun _ => .failure) fun he => .pure (by simpa using he)
    · exact .pure rfl

theorem roundRest : Unstarred (nested.roundRest primary) :=
  .bind fun _ => .ite (fun _ => .pure rfl) fun _ => .bind fun _ => .ite
    (fun _ => .bind_of yieldRest fun _ he => .bind fun _ => .pure he)
    fun _ => .bind fun first => .ite
      (fun _ => .bind fun _ => .ite (fun _ => .bind fun _ => .pure rfl) fun _ => roundItems first)
      fun _ => roundItems first

theorem squareRest : Unstarred (nested.squareRest primary) :=
  .bind fun _ => .ite (fun _ => .pure rfl) fun _ => .bind fun _ => .ite
    (fun _ => .bind fun _ => .ite (fun _ => .bind fun _ => .pure rfl)
      fun _ => .bind fun _ => .bind fun _ => .pure rfl)
    fun _ => .bind fun _ => .bind fun _ => .pure rfl

theorem entriesRest (first : Option (Expr × Expr)) : Unstarred (nested.entriesRest first) :=
  .bind fun _ => .bind fun _ => by split <;> exact .pure rfl

theorem bracesRest : Unstarred (nested.bracesRest primary) := by
  refine .bind fun _ => .ite (fun _ => .pure rfl) fun _ => .bind fun _ => .ite
    (fun _ => .bind fun _ => entriesRest _) fun _ => .bind fun _ => .bind fun _ =>
      .ite (fun _ => .bind fun _ => ?_) fun _ => .bind fun _ => ?_
  -- The same goes on whether or not a colon was looked for.
  all_goals
    exact .ite
      (fun _ => .bind fun _ => .bind fun _ => .ite (fun _ => .bind fun _ => .pure rfl) fun _ => entriesRest _)
      fun _ => .ite
        (fun _ => .bind fun _ => .ite (fun _ => .bind fun _ => .pure rfl)
          fun _ => .bind fun _ => .bind fun _ => .pure rfl)
        fun _ => .bind fun _ => .bind fun _ => .pure rfl

theorem textRest (kind : Quotation) (first : String) : Unstarred (nested.textRest kind first) :=
  .bind fun _ => .ite (fun _ => .bind fun _ => .ite (fun _ => .pure rfl) fun _ => .pure rfl) fun _ =>
    .ite (fun _ => .pure rfl) fun _ => .pure rfl

theorem atom : Unstarred (nested.atom primary) :=
  .bind fun _ => by
    split <;> first
      | exact .pure rfl
      | exact textRest _ _
      | exact roundRest
      | exact squareRest
      | exact bracesRest
      | exact .failure

/-- The call with its arguments, if all of them are positional. -/
theorem called (function : Expr) (first : Option Expr) (more : List (Option Expr)) : Unstarred
    (match (first :: more).mapM id with
      | some arguments => Pure.pure (.call function arguments)
      | none => Pure.pure Expr.other) := by
  split <;> exact .pure rfl

theorem callRest (function : Expr) : Unstarred (nested.callRest primary function) :=
  .bind fun _ => .ite (fun _ => .pure rfl) fun _ => .bind fun x => .ite
    (fun _ => .bind fun _ => .ite (fun _ => .bind fun _ => .pure rfl)
      fun _ => .bind fun _ => .ite (fun _ => .bind fun _ => .bind (called function x.2))
        fun _ => .bind fun _ => .bind (called function x.2))
    fun _ => .bind fun _ => .ite (fun _ => .bind fun _ => .bind (called function x.2))
      fun _ => .bind fun _ => .bind (called function x.2)

theorem selectRest (e : Expr) : Unstarred (nested.selectRest e) :=
  .bind fun _ => .bind fun _ => .bind fun _ => by
    split
    · exact .pure rfl
    · exact .pure rfl
    · split <;> exact .pure rfl

theorem trailers (fuel : Nat) {e : Expr} (he : e.isStarred = false) :
    Unstarred (nested.trailers primary fuel e) := by
  induction fuel generalizing e with
  | zero => exact .failure
  | succ fuel ih =>
      exact .bind fun _ => .ite (fun _ => .bind fun _ => ih rfl) fun _ => .bind fun _ => .ite
        (fun _ => .bind_of (callRest e) fun _ he => ih he) fun _ => .bind fun _ => .ite
          (fun _ => .bind_of (selectRest e) fun _ he => ih he) fun _ => .pure he

theorem primaryWith : Unstarred (nested.primaryWith primary) :=
  .bind_of atom fun _ he => .bind fun _ => trailers _ he

theorem power (h : Unstarred primary) : Unstarred (nested.power primary) :=
  .bind fun _ => .bind_of h fun _ he => .bind fun _ => .ite (fun _ => .bind fun _ => .pure rfl) fun _ =>
    .pure (by split <;> first | rfl | exact he)

theorem signed (h : Unstarred primary) : Unstarred (nested.signed primary) :=
  .bind fun _ => .ite (fun _ => .bind fun _ => .pure rfl) fun _ => .bind fun _ => .ite
    (fun _ => .bind fun _ => .pure rfl) fun _ => .bind fun _ => .ite
      (fun _ => .bind fun _ => .pure rfl) fun _ => power h

theorem operands (h : Unstarred nested.operand) (levels : List (List String)) :
    Unstarred (nested.operands levels) := by
  cases levels with
  | nil => exact h
  | cons level tighter =>
      exact .bind_of (operands h tighter) fun _ he => .bind fun _ => .pure (foldl combine he _)

theorem comparison (h : Unstarred nested.operand) : Unstarred nested.comparison :=
  .bind_of (operands h _) fun _ he => .bind fun _ => .ite (fun _ => .pure he) fun _ => by
    split <;> exact .pure rfl

theorem disjunction (h : Unstarred nested.operand) : Unstarred nested.disjunction :=
  .bind_of (.bind_of (.bind fun _ => .bind_of (comparison h) fun _ he => .pure (foldl (fun _ _ => rfl) he _))
    fun _ he => .bind fun _ => .pure (foldl (fun _ _ => rfl) he _))
    fun _ he => .bind fun _ => .pure (foldl (fun _ _ => rfl) he _)

theorem any (h : Unstarred nested.operand) : Unstarred nested.any :=
  .bind fun _ => .ite (fun _ => .bind fun _ => .bind fun _ => .bind fun _ => .pure rfl) fun _ =>
    .bind_of (disjunction h) fun _ he => .bind fun _ => .ite
      (fun _ => .bind fun _ => .bind fun _ => .bind fun _ => .pure rfl) fun _ => .pure he

end Unstarred

theorem unstarred_readersOfDepth (depth : Nat) : Unstarred (readersOfDepth depth).1.expression ∧
    Unstarred (readersOfDepth depth).1.operand ∧ Unstarred (readersOfDepth depth).2 := by
  induction depth with
  | zero => exact ⟨.failure, .failure, .failure⟩
  | succ depth ih => exact ⟨.any ih.2.1, .signed .primaryWith, .primaryWith⟩

/-! ## atoms alone -/

/-- The lexemes that can stand before an atom in an expression. -/
def prefixes : List Lexeme :=
  [.sign "-", .sign "+", .sign "~", .keyword "await", .keyword "not", .keyword "lambda"]

/-- Some lexemes that no expression goes on with. -/
def stops : List Lexeme := [.sign ":=", .sign ":", .newline]

section Alone

variable {first stop : Lexeme} {rest : List Lexeme} {e : Expr}

theorem run_accept_stop (hstop : stop ∈ stops) (ht : t ∉ stops) (rest : List Lexeme) :
    (accept t).run (stop :: rest) = some (false, stop :: rest) :=
  run_accept_of_ne fun h => ht (Option.some.inj h ▸ hstop)

theorem run_accept_first (hfirst : first ∉ prefixes) (ht : t ∈ prefixes) (L : List Lexeme) :
    (accept t).run (first :: L) = some (false, first :: L) :=
  run_accept_of_ne fun h => hfirst (Option.some.inj h ▸ ht)

theorem run_signed_alone (hfirst : first ∉ prefixes) (hstop : stop ∈ stops)
    (h : primary.run (first :: L) = some (e, stop :: rest)) :
    (nested.signed primary).run (first :: L) = some (e, stop :: rest) := by
  rw [Nested.signed, sign, run_bind_of_eq_some (run_accept_first hfirst (by decide) L),
    if_neg Bool.false_ne_true, sign, run_bind_of_eq_some (run_accept_first hfirst (by decide) L),
    if_neg Bool.false_ne_true, sign, run_bind_of_eq_some (run_accept_first hfirst (by decide) L),
    if_neg Bool.false_ne_true, Nested.power, keyword,
    run_bind_of_eq_some (run_accept_first hfirst (by decide) L), run_bind_of_eq_some h, sign,
    run_bind_of_eq_some (run_accept_stop hstop (by decide) rest)]
  rfl

theorem run_operands_alone (hstop : stop ∈ stops) {levels : List (List String)}
    (hlevels : ∀ level ∈ levels, ":=" ∉ level ∧ ":" ∉ level)
    (h : nested.operand.run L = some (e, stop :: rest)) :
    (nested.operands levels).run L = some (e, stop :: rest) := by
  induction levels with
  | nil => exact h
  | cons level tighter ih =>
      obtain ⟨hlevel, htighter⟩ := List.forall_mem_cons.1 hlevels
      rw [Nested.operands, run_bind_of_eq_some (ih htighter), run_bind_of_eq_some (run_many_none _)]
      · rfl
      · rw [run_bind_of_eq_some (run_acceptIf_none _)]
        · rfl
        · simp only [stops, List.mem_cons, List.not_mem_nil, or_false] at hstop
          rcases hstop with rfl | rfl | rfl
          · exact if_neg (by simpa using hlevel.1)
          · exact if_neg (by simpa using hlevel.2)
          · rfl

theorem run_comparator_stop (hstop : stop ∈ stops) (rest : List Lexeme) :
    Nested.comparator.run (stop :: rest) = some (none, stop :: rest) := by
  simp only [stops, List.mem_cons, List.not_mem_nil, or_false] at hstop
  rcases hstop with rfl | rfl | rfl <;> rfl

theorem run_many_afterWord_stop (hstop : stop ∈ stops) (w : String) (p : Reading α) (rest : List Lexeme) :
    (many (afterWord w p)).run (stop :: rest) = some ([], stop :: rest) := by
  refine run_many_none ?_
  have hword : (Lexeme.keyword w) ∉ stops := by simp [stops]
  rw [afterWord, keyword, run_bind_of_eq_some (run_accept_stop hstop hword rest)]
  rfl

theorem run_comparison_alone (hstop : stop ∈ stops) (h : nested.operand.run L = some (e, stop :: rest)) :
    nested.comparison.run L = some (e, stop :: rest) := by
  rw [Nested.comparison, Nested.arithmetic, run_bind_of_eq_some (run_operands_alone hstop (by decide) h),
    run_bind_of_eq_some (run_many_none _)]
  · rfl
  · rw [run_bind_of_eq_some (run_comparator_stop hstop rest)]
    rfl

theorem run_inversion_alone (hfirst : first ∉ prefixes) (hstop : stop ∈ stops)
    (h : nested.operand.run (first :: L) = some (e, stop :: rest)) :
    nested.inversion.run (first :: L) = some (e, stop :: rest) := by
  rw [Nested.inversion, run_bind_of_eq_some (run_many_none _), run_bind_of_eq_some (run_comparison_alone hstop h)]
  · rfl
  · rw [afterWord, keyword, run_bind_of_eq_some (run_accept_first hfirst (by decide) L)]
    rfl

theorem run_any_alone (hfirst : first ∉ prefixes) (hstop : stop ∈ stops)
    (h : nested.operand.run (first :: L) = some (e, stop :: rest)) :
    nested.any.run (first :: L) = some (e, stop :: rest) := by
  have hconjunction : nested.conjunction.run (first :: L) = some (e, stop :: rest) := by
    rw [Nested.conjunction, run_bind_of_eq_some (run_inversion_alone hfirst hstop h),
      run_bind_of_eq_some (run_many_afterWord_stop hstop "and" _ rest)]
    rfl
  have hdisjunction : nested.disjunction.run (first :: L) = some (e, stop :: rest) := by
    rw [Nested.disjunction, run_bind_of_eq_some hconjunction,
      run_bind_of_eq_some (run_many_afterWord_stop hstop "or" _ rest)]
    rfl
  rw [Nested.any, keyword, run_bind_of_eq_some (run_accept_first hfirst (by decide) L),
    if_neg Bool.false_ne_true, Nested.choice, run_bind_of_eq_some hdisjunction, keyword,
    run_bind_of_eq_some (run_accept_stop hstop (by decide) rest)]
  rfl

/-- Nothing follows an atom closely if nothing goes on behind it. -/
theorem run_primaryWith_alone (hstop : stop ∈ stops) (h : (nested.atom primary).run L = some (e, stop :: rest)) :
    (nested.primaryWith primary).run L = some (e, stop :: rest) := by
  rw [Nested.primaryWith, run_bind_of_eq_some h, run_bind_of_eq_some (a := stop :: rest) rfl, Nested.trailers,
    sign, run_bind_of_eq_some (run_accept_stop hstop (by decide) rest), if_neg Bool.false_ne_true,
    sign, run_bind_of_eq_some (run_accept_stop hstop (by decide) rest), if_neg Bool.false_ne_true,
    sign, run_bind_of_eq_some (run_accept_stop hstop (by decide) rest)]
  rfl

/-- An atom is an expression if nothing goes on behind it. -/
theorem run_expression_of_atom {depth : Nat} (hfirst : first ∉ prefixes) (hstop : stop ∈ stops)
    (h : ((readersOfDepth depth).1.atom (readersOfDepth depth).2).run (first :: L) = some (e, stop :: rest)) :
    (readersOfDepth (depth + 2)).1.expression.run (first :: L) = some (e, stop :: rest) :=
  run_any_alone hfirst hstop (run_signed_alone hfirst hstop (run_primaryWith_alone hstop h))

end Alone

end Lalr.Code
