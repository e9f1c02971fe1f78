import Lalr.Code.Expression
import Lalr.Proofs.Code.Opening

/-!
# Lalr.Proofs.Code.Bracketed

Every reader of expressions reads before a closing bracket what it reads before line ends.  Each part of the
language gets this from its parts; the depth of nesting is the induction that ties them together
(`bracketed_readersOfDepth`).
-/

namespace Lalr.Code

open Reading

namespace Nested

/-- The readers for nested expressions read before a closing bracket what others read before line ends, where
nothing begins; they take the same formatted texts. -/
structure Bracketed (nested nested' : Nested) : Prop where
  expression : ∀ n, Code.Bracketed n nested.expression nested'.expression
  operand : ∀ n, Code.Bracketed n nested.operand nested'.operand
  formatted : nested'.formatted = nested.formatted
  stuck : ∀ k, nested.expression.run (lineEnds k) = none

namespace Bracketed

variable {nested nested' : Nested} {primary primary' : Reading Expr} {n : Nat}

/-- The lexemes that nothing begins with, at the end of an expression. -/
theorem opensItem_of_layout : ∀ t : Lexeme, t.isLayout = true ∨ t = .sign ")" → opensItem t = false := by
  rintro t (ht | rfl)
  · cases t <;> first | rfl | contradiction
  · decide

/-! ## parameters -/

theorem annotations {annotated : Bool} {p p' : Reading Expr} (hp : Code.Bracketed n p p') :
    Code.Bracketed n ( annotation annotated p) ( annotation annotated p') :=
  .ite (fun _ => .bind (.after (by decide) hp) fun _ => .pure _) fun _ => .pure _

theorem atName : Code.Bracketed n atName atName := .peek (fun _ => .pure _) rfl rfl

theorem parameter (h : nested.Bracketed nested') (annotated : Bool) (ps : ParameterList) :
    Code.Bracketed n (nested.parameter annotated ps) (nested'.parameter annotated ps) :=
  .ite (fun _ => .failure_bind) fun _ => .bind (.sign (by decide)) fun _ => .ite
    (fun _ => .ite (fun _ => .failure_bind) fun _ =>
      .bind .name fun _ => .bind (annotations (h.expression n)) fun _ => .pure _)
    fun _ => .bind (.sign (by decide)) fun _ => .ite
      (fun _ => .ite (fun _ => .failure_bind) fun _ => .bind atName fun _ => .ite
        (fun _ => .bind .name fun _ =>
          .bind (annotations (.bind (.sign (by decide)) fun _ =>
            .ite (fun _ => h.operand n) fun _ => h.expression n)) fun _ => .pure _)
        fun _ => .pure _)
      fun _ => .bind (.sign (by decide)) fun _ => .ite
        (fun _ => .ite (fun _ => .failure_bind) fun _ => .pure _)
        fun _ => .bind .name fun _ => .bind (annotations (h.expression n)) fun _ =>
          .bind (.sign (by decide)) fun _ => .ite
            (fun _ => .bind (h.expression n) fun _ => .pure _)
            fun _ => .ite (fun _ => .failure_bind) fun _ => .pure _

theorem parametersFrom (h : nested.Bracketed nested') (annotated : Bool) {close : String} (hclose : close ≠ ")")
    {fuel fuel' : Nat} (hfuel : n < fuel') (ps : ParameterList) :
    Code.Bracketed n (nested.parametersFrom annotated close fuel ps)
      (nested'.parametersFrom annotated close fuel' ps) := by
  induction fuel generalizing n fuel' ps with
  | zero => exact .failure
  | succ fuel ih =>
      obtain ⟨fuel', rfl⟩ : ∃ x, fuel' = x + 1 := ⟨fuel' - 1, by omega⟩
      refine .peek (fun _ => .ite (fun _ => .pure _) fun _ => .bind (parameter h annotated ps) fun ps =>
        .sign_bind (by decide) (fun m hm => ih (by omega) ps) (.pure _)) ?_ ?_
      · simp
      · simp [Ne.symm hclose]

theorem parameters (h : nested.Bracketed nested') (annotated : Bool) {close : String} (hclose : close ≠ ")") :
    Code.Bracketed n (nested.parameters annotated close) (nested'.parameters annotated close) :=
  .get_bind fun m hm _ _ _ hfuel => .bind (parametersFrom h annotated hclose (by omega) _) fun _ =>
    .ite (fun _ => .failure_bind) fun _ => .pure _

theorem lambda (h : nested.Bracketed nested') : Code.Bracketed n nested.lambda nested'.lambda :=
  .bind (parameters h false (by decide)) fun _ => .bind (.expect rfl) fun _ =>
    .bind (h.expression n) fun _ => .pure _

/-! ## items -/

theorem named (h : nested.Bracketed nested') : Code.Bracketed n nested.named nested'.named := by
  refine .peek (fun o => ?_) rfl rfl
  split
  · exact .bind (.followedBy rfl (by decide)) fun _ => .ite
      (fun _ => .bind .name fun _ => .bind (.sign (by decide)) fun _ => .bind (h.expression n) fun _ => .pure _)
      fun _ => h.expression n
  · exact h.expression n

theorem operands (h : nested.Bracketed nested') (levels : List (List String)) 
    (hlevels : ∀ level ∈ levels, ")" ∉ level) :
    Code.Bracketed n (nested.operands levels) (nested'.operands levels) := by
  induction levels with
  | nil => exact h.operand n
  | cons level tighter ih =>
      obtain ⟨hlevel, htighter⟩ := List.forall_mem_cons.1 hlevels
      refine .bind (ih htighter) fun _ => .bind (Stepping.many (.bind (.acceptIf ?_)
        (fun _ => .bind (ih htighter) fun _ => .pure _) .nothing)) fun _ => .pure _
      rintro t (ht | rfl)
      · cases t <;> first | rfl | contradiction
      · exact if_neg (by simpa using hlevel)

theorem arithmetic (h : nested.Bracketed nested') : Code.Bracketed n nested.arithmetic nested'.arithmetic :=
  operands h operatorLevels (by decide)

theorem starredRest (h : nested.Bracketed nested') : Code.Bracketed n nested.starredRest nested'.starredRest :=
  .bind (arithmetic h) fun _ => .pure _

theorem item (h : nested.Bracketed nested') : Code.Bracketed n nested.item nested'.item :=
  .bind (.sign (by decide)) fun _ => .ite (fun _ => starredRest h) fun _ => named h

theorem bareItem (h : nested.Bracketed nested') : Code.Bracketed n nested.bareItem nested'.bareItem :=
  .bind (.sign (by decide)) fun _ => .ite (fun _ => starredRest h) fun _ => h.expression n

theorem bareTuple {p p' : Reading Expr} (hp : Code.Bracketed n p p') :
    Code.Bracketed n (bareTuple p) (bareTuple p') :=
  .bind hp fun first => .bind (.commaList opensItem_of_layout hp first) fun _ => by
    dsimp only
    split <;> exact .pure _

theorem bare (h : nested.Bracketed nested') : Code.Bracketed n nested.bare nested'.bare := bareTuple (bareItem h)

theorem yieldRest (h : nested.Bracketed nested') : Code.Bracketed n nested.yieldRest nested'.yieldRest :=
  .bind (.keyword "from") fun _ => .ite (fun _ => .bind (h.expression n) fun _ => .pure _) fun _ =>
    .peek (fun _ => .ite (fun _ => .bind (bare h) fun _ => .pure _) fun _ => .pure _) rfl rfl

/-! ## comparisons and connectives -/

/-- The words `not` and `in`, if both are there. -/
theorem notIn : Stepping n
    (do
      if (← peek) = some (.keyword "not") then
        if ← followedBy (.keyword "in") then
          let _ ← keyword "not"
          let _ ← keyword "in"
          return some (none : Option Comparison)
        else return none
      else return none)
    (do
      if (← peek) = some (.keyword "not") then
        if ← followedBy (.keyword "in") then
          let _ ← keyword "not"
          let _ ← keyword "in"
          return some none
        else return none
      else return none) where
  bracketed := .peek (fun _ => .ite
    (fun _ => .bind (.followedBy rfl nofun) fun _ => .ite
      (fun _ => .bind (.keyword "not") fun _ => .bind (.keyword "in") fun _ => .pure _) fun _ => .pure _)
    fun _ => .pure _) rfl rfl
  progress := by
    intro k A a rest hlength hrun
    rw [run_bind_of_eq_some run_peek] at hrun
    split at hrun
    · next hnot =>
        obtain ⟨L, hL⟩ := List.head?_eq_some_iff.1 hnot
        rw [run_bind_of_eq_some run_followedBy] at hrun
        split at hrun
        · rw [hL, keyword, run_bind_of_eq_some run_accept_self] at hrun
          obtain ⟨b, M, hM, heq⟩ := run_bind_eq_some.1 hrun
          obtain ⟨-, rfl⟩ := Prod.mk.inj (Option.some.inj heq)
          rw [hL, List.length_cons]
          exact Nat.lt_succ_of_le (length_le_of_run_accept hM)
        · cases hrun
    · cases hrun
  ends := rfl

theorem comparator : Stepping n comparator comparator := by
  refine .bind (.acceptIf ?_) (fun _ => .pure _) (.accept_bind ⟨rfl, nofun⟩ (.pure _)
    (.accept_bind ⟨rfl, nofun⟩ (.bind (.keyword "not") fun _ => .pure _) notIn))
  rintro t (ht | rfl)
  · cases t <;> first | rfl | contradiction
  · rfl

theorem comparison (h : nested.Bracketed nested') : Code.Bracketed n nested.comparison nested'.comparison :=
  .bind (arithmetic h) fun _ => .bind
    (Stepping.many (.bind comparator (fun _ => .bind (arithmetic h) fun _ => .pure _) .nothing)) fun _ =>
      .ite (fun _ => .pure _) fun _ => by split <;> exact .pure _

theorem inversion (h : nested.Bracketed nested') : Code.Bracketed n nested.inversion nested'.inversion :=
  .bind (Stepping.afterWord (.pure _)).many fun _ => .bind (comparison h) fun _ => .pure _

theorem conjunction (h : nested.Bracketed nested') : Code.Bracketed n nested.conjunction nested'.conjunction :=
  .bind (inversion h) fun _ => .bind (Stepping.afterWord (inversion h)).many fun _ => .pure _

theorem disjunction (h : nested.Bracketed nested') : Code.Bracketed n nested.disjunction nested'.disjunction :=
  .bind (conjunction h) fun _ => .bind (Stepping.afterWord (conjunction h)).many fun _ => .pure _

theorem choice (h : nested.Bracketed nested') : Code.Bracketed n nested.choice nested'.choice :=
  .bind (disjunction h) fun _ => .bind (.keyword "if") fun _ => .ite
    (fun _ => .bind (disjunction h) fun _ => .bind (.expect rfl) fun _ => .bind (h.expression n) fun _ => .pure _)
    fun _ => .pure _

/-! ## brackets -/

theorem clauseRest (h : nested.Bracketed nested') (hprimary : Code.Bracketed n primary primary') :
    Code.Bracketed n (nested.clauseRest primary) (nested'.clauseRest primary') :=
  .bind (bareTuple (.bind (.sign (by decide)) fun _ =>
    .ite (fun _ => .bind hprimary fun _ => .pure _) fun _ => hprimary)) fun _ => .ite
      (fun _ => .failure_bind) fun _ => .bind (.expect rfl) fun _ => .bind (disjunction h) fun _ =>
        .bind (Stepping.afterWord (disjunction h)).many fun _ => .pure _

theorem clause (h : nested.Bracketed nested') (hprimary : Code.Bracketed n primary primary') :
    Stepping n (nested.clause primary) (nested'.clause primary') := by
  have hfor : Stepping n (Reading.afterWord "for" (nested.clauseRest primary))
      (Reading.afterWord "for" (nested'.clauseRest primary')) := .afterWord (clauseRest h hprimary)
  refine .peek_bind (fun o => .of_bind (.followedBy rfl nofun) ⟨_, rfl⟩ fun b => ?_) rfl rfl
  dsimp only
  split
  · exact .of_bind (.keyword "async") ⟨_, rfl⟩ fun _ => hfor
  · exact hfor

theorem comprehension (h : nested.Bracketed nested') (hprimary : Code.Bracketed n primary primary') :
    Code.Bracketed n (nested.comprehension primary) (nested'.comprehension primary') :=
  .bind (clause h hprimary).many fun _ => .pure _

theorem named_stuck (h : nested.Bracketed nested') (k : Nat) : nested.named.run (lineEnds k) = none := by
  rw [Nested.named, run_bind_of_eq_some run_peek]
  rcases head?_lineEnds k with hhead | hhead <;> rw [hhead] <;> exact h.stuck k

theorem item_stuck (h : nested.Bracketed nested') (k : Nat) : nested.item.run (lineEnds k) = none := by
  rw [Nested.item, run_bind_of_eq_some (run_sign_lineEnds "*" k)]
  exact named_stuck h k

theorem items (h : nested.Bracketed nested') (first : Expr) :
    Code.Bracketed n (commaList first nested.item) (commaList first nested'.item) :=
  .commaList opensItem_of_layout (item h) first

/-- What is read between round brackets after the first item, if it is no comprehension. -/
theorem roundItems (h : nested.Bracketed nested') (first : Expr) : Code.Bracketed n
    (commaList first nested.item >>= fun (items, comma) => expect (.sign ")") >>= fun _ =>
      match items, comma with
      | [e], false => if e.isStarred then failure else pure e
      | _, _ => pure (.tuple items))
    (commaList first nested'.item >>= fun (items, comma) => expect (.sign ")") >>= fun _ =>
      match items, comma with
      | [e], false => if e.isStarred then failure else pure e
      | _, _ => pure (.tuple items)) :=
  .bind (items h first) fun _ => .bind (.expect rfl) fun _ => by
    split
    · exact .ite (fun _ => .failure) fun _ => .pure _
    · exact .pure _

theorem roundRest (h : nested.Bracketed nested') (hprimary : Code.Bracketed n primary primary') :
    Code.Bracketed n (nested.roundRest primary) (nested'.roundRest primary') := by
  refine .close_bind (fun _ _ => .pure _) (.bind (.keyword "yield") fun _ => .ite
    (fun _ => .bind (yieldRest h) fun _ => .bind (.expect rfl) fun _ => .pure _)
    fun _ => .bind (item h) fun first => .ite
      (fun _ => .bind (comprehension h hprimary) fun _ => .ite
        (fun _ => .bind (.expect rfl) fun _ => .pure _)
        fun _ => roundItems h first)
      fun _ => roundItems h first) fun k => ?_
  rw [if_neg Bool.false_ne_true, run_bind_of_eq_some (run_keyword_lineEnds "yield" k),
    if_neg Bool.false_ne_true, run_bind_of_eq_none (item_stuck h k)]

theorem squareRest (h : nested.Bracketed nested') (hprimary : Code.Bracketed n primary primary') :
    Code.Bracketed n (nested.squareRest primary) (nested'.squareRest primary') :=
  .bind (.sign (by decide)) fun _ => .ite (fun _ => .pure _) fun _ => .bind (item h) fun first => .ite
    (fun _ => .bind (comprehension h hprimary) fun _ => .ite
      (fun _ => .bind (.expect rfl) fun _ => .pure _)
      fun _ => .bind (items h first) fun _ => .bind (.expect rfl) fun _ => .pure _)
    fun _ => .bind (items h first) fun _ => .bind (.expect rfl) fun _ => .pure _

theorem entry (h : nested.Bracketed nested') : Code.Bracketed n nested.entry nested'.entry :=
  .bind (.sign (by decide)) fun _ => .ite (fun _ => .bind (arithmetic h) fun _ => .pure _) fun _ =>
    .bind (h.expression n) fun _ => .bind (.expect rfl) fun _ => .bind (h.expression n) fun _ => .pure _

theorem entriesRest (h : nested.Bracketed nested') (first : Option (Expr × Expr)) :
    Code.Bracketed n (nested.entriesRest first) (nested'.entriesRest first) := by
  refine .bind (.commaList (fun t ht => ?_) (entry h) first) fun _ => .bind (.expect rfl) fun _ => ?_
  · rw [opensItem_of_layout t ht, Bool.false_or, decide_eq_false_iff_not]
    rintro rfl
    exact absurd ht (by decide)
  · split <;> exact .pure _

theorem bracesRest (h : nested.Bracketed nested') (hprimary : Code.Bracketed n primary primary') :
    Code.Bracketed n (nested.bracesRest primary) (nested'.bracesRest primary') := by
  refine .bind (.sign (by decide)) fun _ => .ite (fun _ => .pure _) fun _ =>
    .peek (fun _ => .ite (fun _ => .bind (entry h) fun _ => entriesRest h _)
      fun _ => .bind (.followedBy rfl (by decide)) fun _ => .bind (item h) fun first => .ite
        (fun _ => .bind (.pure false) fun paired => ?_)
        fun _ => .bind (.sign (by decide)) fun paired => ?_) rfl rfl
  -- The same goes on whether or not a colon was looked for.
  all_goals
    exact .ite
      (fun _ => .bind (h.expression n) fun _ => .bind (comprehension h hprimary) fun _ => .ite
        (fun _ => .bind (.expect rfl) fun _ => .pure _) fun _ => entriesRest h _)
      fun _ => .ite
        (fun _ => .bind (comprehension h hprimary) fun _ => .ite
          (fun _ => .bind (.expect rfl) fun _ => .pure _)
          fun _ => .bind (items h first) fun _ => .bind (.expect rfl) fun _ => .pure _)
        fun _ => .bind (items h first) fun _ => .bind (.expect rfl) fun _ => .pure _

/-! ## atoms and what follows them -/

theorem textRest (h : nested.Bracketed nested') (kind : Quotation) (first : String) :
    Code.Bracketed n (nested.textRest kind first) (nested'.textRest kind first) := by
  have htakes : nested'.takesText = nested.takesText := by
    funext bytes kind s
    rw [takesText, takesText, h.formatted]
  unfold Nested.textRest
  rw [htakes]
  refine .bind (Stepping.many (.acceptIf ?_)) fun _ => .ite (fun _ => .failure_bind) fun _ =>
    .ite (fun _ => .pure _) fun _ => .pure _
  rintro t (ht | rfl)
  · cases t <;> first | rfl | contradiction
  · rfl

theorem atom (h : nested.Bracketed nested') (hprimary : ∀ m, Code.Bracketed m primary primary') :
    Code.Bracketed n (nested.atom primary) (nested'.atom primary') := by
  refine .take_bind (fun t _ m _ => ?_) (fun t ht => ?_) rfl
  · split <;> first
      | exact .pure _
      | exact textRest h _ _
      | exact roundRest h (hprimary m)
      | exact squareRest h (hprimary m)
      | exact bracesRest h (hprimary m)
      | exact .failure
  · cases t <;> first | rfl | contradiction

theorem argument (h : nested.Bracketed nested') (phase : ArgumentPhase) :
    Code.Bracketed n (nested.argument phase) (nested'.argument phase) :=
  .bind (.sign (by decide)) fun _ => .ite
    (fun _ => .bind (h.expression n) fun _ => .pure _)
    fun _ => .bind (.sign (by decide)) fun _ => .ite
      (fun _ => .ite (fun _ => .failure_bind) fun _ => .bind (h.expression n) fun _ => .pure _)
      fun _ => .bind (.followedBy rfl (by decide)) fun _ => .ite
        (fun _ => .bind .name fun _ => .bind (.sign (by decide)) fun _ => .bind (h.expression n) fun _ => .pure _)
        fun _ => .ite (fun _ => .failure_bind) fun _ => .bind (named h) fun _ => .pure _

theorem argument_stuck (h : nested.Bracketed nested') (phase : ArgumentPhase) (k : Nat) :
    (nested.argument phase).run (lineEnds k) = none := by
  have hname : name.run (lineEnds k) = none := by
    rw [name, run_bind_of_eq_some (run_acceptIf_none _)]
    · rfl
    · rcases head?_lineEnds k with hhead | hhead <;> rw [hhead] <;> rfl
  rw [Nested.argument, run_bind_of_eq_some (run_sign_lineEnds "**" k), if_neg Bool.false_ne_true,
    run_bind_of_eq_some (run_sign_lineEnds "*" k), if_neg Bool.false_ne_true, run_bind_of_eq_some run_followedBy]
  split
  · exact run_bind_of_eq_none hname
  · dsimp only
    split
    · rfl
    · exact run_bind_of_eq_none (named_stuck h k)

theorem argumentsFrom (h : nested.Bracketed nested') {fuel fuel' : Nat} (hfuel : n < fuel')
    (phase : ArgumentPhase) :
    Code.Bracketed n (nested.argumentsFrom fuel phase) (nested'.argumentsFrom fuel' phase) := by
  induction fuel generalizing n fuel' phase with
  | zero => exact .failure
  | succ fuel ih =>
      obtain ⟨fuel', rfl⟩ : ∃ x, fuel' = x + 1 := ⟨fuel' - 1, by omega⟩
      refine .close_bind (fun _ _ => .pure _) (.bind (argument h phase) fun x =>
        .sign_bind (by decide) (fun m hm => .bind (ih (by omega) x.1) fun _ => .pure _)
          (.bind (.expect rfl) fun _ => .pure _)) fun k => ?_
      rw [if_neg Bool.false_ne_true, run_bind_of_eq_none (argument_stuck h phase k)]

/-- The call with its arguments, if all of them are positional. -/
theorem called (m : Nat) (function : Expr) (first : Option Expr) (more : List (Option Expr)) :
    Code.Bracketed m
      (match (first :: more).mapM id with
        | some arguments => pure (.call function arguments)
        | none => pure Expr.other)
      (match (first :: more).mapM id with
        | some arguments => pure (.call function arguments)
        | none => pure Expr.other) := by
  split <;> exact .pure _

theorem callRest (h : nested.Bracketed nested') (hprimary : Code.Bracketed n primary primary') (function : Expr) :
    Code.Bracketed n (nested.callRest primary function) (nested'.callRest primary' function) := by
  refine .close_bind (fun _ _ => .pure _) (.bind (argument h .positional) fun x => .ite
    (fun _ => .bind (comprehension h hprimary) fun _ => .ite
      (fun _ => .bind (.expect rfl) fun _ => .pure _)
      fun _ => .bind (.sign (by decide)) fun _ => .ite
        (fun _ => .get_bind fun m _ _ _ _ hfuel =>
          .bind (argumentsFrom h (by omega) x.1) (called m function x.2))
        fun _ => .bind (.expect rfl) fun _ => .bind (.pure _) (called n function x.2))
    fun _ => .bind (.sign (by decide)) fun _ => .ite
      (fun _ => .get_bind fun m _ _ _ _ hfuel =>
        .bind (argumentsFrom h (by omega) x.1) (called m function x.2))
      fun _ => .bind (.expect rfl) fun _ => .bind (.pure _) (called n function x.2)) fun k => ?_
  rw [if_neg Bool.false_ne_true, run_bind_of_eq_none (argument_stuck h .positional k)]

theorem bound (h : nested.Bracketed nested') : Code.Bracketed n nested.bound nested'.bound :=
  .peek (fun _ => .ite (fun _ => .bind (h.expression n) fun _ => .pure _) fun _ => .pure _) rfl rfl

theorem sliceRest (h : nested.Bracketed nested') (lower : Option Expr) :
    Code.Bracketed n (nested.sliceRest lower) (nested'.sliceRest lower) :=
  .bind (bound h) fun _ => .bind (.sign (by decide)) fun _ => .ite
    (fun _ => .bind (bound h) fun _ => .pure _) fun _ => .bind (.pure _) fun _ => .pure _

theorem selector (h : nested.Bracketed nested') : Code.Bracketed n nested.selector nested'.selector :=
  .bind (.sign (by decide)) fun _ => .ite (fun _ => sliceRest h none) fun _ =>
    .bind (.followedBy rfl (by decide)) fun _ => .bind (item h) fun e => .ite (fun _ => .pure _) fun _ =>
      .bind (.sign (by decide)) fun _ => .ite (fun _ => sliceRest h (some e)) fun _ => .pure _

theorem selectRest (h : nested.Bracketed nested') (e : Expr) :
    Code.Bracketed n (nested.selectRest e) (nested'.selectRest e) := by
  refine .bind (selector h) fun first => .bind (.commaList (fun t ht => ?_) (selector h) first) fun _ =>
    .bind (.expect rfl) fun _ => ?_
  · rw [opensItem_of_layout t ht, Bool.false_or, decide_eq_false_iff_not]
    rintro rfl
    exact absurd ht (by decide)
  · split
    · exact .pure _
    · exact .pure _
    · split <;> exact .pure _

theorem trailers (h : nested.Bracketed nested') (hprimary : ∀ m, Code.Bracketed m primary primary')
    {fuel fuel' : Nat} (hfuel : n < fuel') (e : Expr) :
    Code.Bracketed n (nested.trailers primary fuel e) (nested'.trailers primary' fuel' e) := by
  induction fuel generalizing n fuel' e with
  | zero => exact .failure
  | succ fuel ih =>
      obtain ⟨fuel', rfl⟩ : ∃ x, fuel' = x + 1 := ⟨fuel' - 1, by omega⟩
      exact .sign_bind (by decide) (fun m hm => .bind .name fun _ => ih (by omega) _)
        (.sign_bind (by decide) (fun m hm => .bind (callRest h (hprimary m) e) fun _ => ih (by omega) _)
          (.sign_bind (by decide) (fun m hm => .bind (selectRest h e) fun _ => ih (by omega) _) (.pure _)))

theorem primaryWith (h : nested.Bracketed nested') (hprimary : ∀ m, Code.Bracketed m primary primary') :
    Code.Bracketed n (nested.primaryWith primary) (nested'.primaryWith primary') :=
  .bind (atom h hprimary) fun _ => .get_bind fun _ _ _ _ _ hfuel =>
    trailers h hprimary (Nat.lt_succ_of_lt hfuel) _

theorem power (h : nested.Bracketed nested') (hprimary : Code.Bracketed n primary primary') :
    Code.Bracketed n (nested.power primary) (nested'.power primary') :=
  .bind (.keyword "await") fun _ => .bind hprimary fun _ => .bind (.sign (by decide)) fun _ => .ite
    (fun _ => .bind (h.operand n) fun _ => .pure _) fun _ => .pure _

theorem signed (h : nested.Bracketed nested') (hprimary : Code.Bracketed n primary primary') :
    Code.Bracketed n (nested.signed primary) (nested'.signed primary') :=
  .bind (.sign (by decide)) fun _ => .ite (fun _ => .bind (h.operand n) fun _ => .pure _) fun _ =>
    .bind (.sign (by decide)) fun _ => .ite (fun _ => .bind (h.operand n) fun _ => .pure _) fun _ =>
      .bind (.sign (by decide)) fun _ => .ite (fun _ => .bind (h.operand n) fun _ => .pure _) fun _ =>
        power h hprimary

theorem any (h : nested.Bracketed nested') : Code.Bracketed n nested.any nested'.any :=
  .bind (.keyword "lambda") fun _ => .ite (fun _ => lambda h) fun _ => choice h

end Bracketed

end Nested

/-- Readers of some depth read before a closing bracket what readers of a smaller depth read before line ends. -/
theorem bracketed_readersOfDepth {depth depth' : Nat} (hdepth : depth ≤ depth') :
    (readersOfDepth depth).1.Bracketed (readersOfDepth depth').1 ∧
      ∀ n, Bracketed n (readersOfDepth depth).2 (readersOfDepth depth').2 := by
  induction depth generalizing depth' with
  | zero =>
      refine ⟨⟨fun _ => .failure, fun _ => .failure, ?_, fun _ => rfl⟩, fun _ => .failure⟩
      cases depth' <;> rfl
  | succ depth ih =>
      obtain ⟨depth', rfl⟩ : ∃ d, depth' = d + 1 := ⟨depth' - 1, by omega⟩
      obtain ⟨hnested, hinner⟩ := ih (Nat.le_of_succ_le_succ hdepth)
      have hprimary (n : Nat) := Nested.Bracketed.primaryWith (n := n) hnested hinner
      refine ⟨⟨fun _ => Nested.Bracketed.any hnested, fun _ => Nested.Bracketed.signed hnested (hprimary _),
        rfl, fun k => (opening_readersOfDepth (depth + 1)).1 _ ?_⟩, hprimary⟩
      rcases head?_lineEnds k with hhead | hhead <;> rw [hhead] <;> rfl

end Lalr.Code
