import Lalr.Code.Statement
import Lalr.Proofs.Code.Rendered
import Lalr.Proofs.Code.Wrapped

/-!
# Lalr.Proofs.Code.Function

The function that is rendered for an expression is read as a function with a parameter for each symbol, which
gives that expression (`readBlock_renderAction`).
-/

namespace Lalr.Code

open Reading Text

variable {α : Type} {nested : Nested} {stop : Lexeme} {L M rest : List Lexeme} {e : Expr}

/-! ## the first line -/

theorem run_name {id : String} : name.run (.name id :: L) = some (id, L) := rfl

/-- A name alone is a plain parameter. -/
theorem run_parameter_name {id : String} (ids : List String) (hstop : stop = .sign "," ∨ stop = .sign ")") :
    (nested.parameter true { names := ids }).run (.name id :: stop :: rest) =
      some ({ names := ids ++ [id] }, stop :: rest) := by
  rcases hstop with rfl | rfl <;> rfl

theorem nameLexemes_cons_cons (w w' : List Char) (names : List (List Char)) :
    nameLexemes (w :: w' :: names) = .name (String.ofList w) :: .sign "," :: nameLexemes (w' :: names) := by
  simp only [nameLexemes, List.map_cons, List.intercalate_cons_cons]
  rfl

theorem run_parametersFrom_names {names : List (List Char)} {fuel : Nat} (hfuel : names.length < fuel)
    (ids : List String) :
    (nested.parametersFrom true ")" fuel { names := ids }).run (nameLexemes names ++ .sign ")" :: rest) =
      some ({ names := ids ++ names.map String.ofList }, .sign ")" :: rest) := by
  induction names generalizing fuel ids with
  | nil =>
      obtain ⟨fuel, rfl⟩ : ∃ k, fuel = k + 1 := ⟨fuel - 1, by omega⟩
      rw [List.map_nil, List.append_nil]
      rfl
  | cons w names ih =>
      obtain ⟨fuel, rfl⟩ : ∃ k, fuel = k + 1 := ⟨fuel - 1, by omega⟩
      cases names with
      | nil =>
          rw [Nested.parametersFrom]
          rfl
      | cons w' names =>
          rw [nameLexemes_cons_cons, List.cons_append, List.cons_append, Nested.parametersFrom, run_bind_of_eq_some run_peek, if_neg nofun,
            run_bind_of_eq_some (run_parameter_name ids (.inl rfl)), sign, run_bind_of_eq_some run_accept_self,
            if_pos rfl, ih (by simpa using hfuel), List.append_assoc, List.map_cons]
          rfl

theorem length_le_nameLexemes (names : List (List Char)) : names.length ≤ (nameLexemes names).length := by
  induction names with
  | nil => exact le_rfl
  | cons w names ih =>
      cases names with
      | nil => exact le_rfl
      | cons w' names =>
          rw [nameLexemes_cons_cons]
          simp only [List.length_cons] at ih ⊢
          omega

/-- Names with commas between are plain parameters. -/
theorem run_parameters_names (names : List (List Char)) :
    (nested.parameters true ")").run (nameLexemes names ++ .sign ")" :: rest) =
      some (some (names.map String.ofList), .sign ")" :: rest) := by
  have hfuel : names.length < (nameLexemes names ++ .sign ")" :: rest).length + 1 := by
    have := length_le_nameLexemes names
    rw [List.length_append]
    omega
  rw [Nested.parameters, run_bind_of_eq_some (a := nameLexemes names ++ .sign ")" :: rest) rfl]
  exact run_bind_of_eq_some (run_parametersFrom_names hfuel [])

/-- A text between quotes is an expression before a colon. -/
theorem run_expression_text {depth : Nat} (hdepth : 2 ≤ depth) (s : String) :
    (readersOfDepth depth).1.expression.run (.text ⟨false, false, false⟩ s :: .sign ":" :: rest) =
      some (.text s, .sign ":" :: rest) := by
  obtain ⟨depth, rfl⟩ : ∃ d, depth = d + 2 := ⟨depth - 2, by omega⟩
  refine run_expression_of_atom (by simp [prefixes]) (by decide) ?_
  rw [Nested.atom, run_bind_of_eq_some (run_acceptIf_some rfl)]
  dsimp only
  rw [Nested.textRest, run_bind_of_eq_some (run_many_none (run_acceptIf_none rfl))]
  simp [String.join, Nested.takesText]

/-! ## statements -/

variable {r : Statements} {s : Stmt} {ss : List Stmt}

/-- What can be read one time. -/
theorem run_many_once {p : Reading (Option α)} {a : α} {t : Lexeme} (h : p.run (t :: L) = some (some a, M))
    (hM : p.run M = some (none, M)) : (many p).run (t :: L) = some ([a], M) := by
  have hrest : (manyFor p L.length).run M = some ([], M) := by
    cases L.length with
    | zero => rfl
    | succ fuel =>
        rw [manyFor, run_bind_of_eq_some hM]
        rfl
  have hall : (manyFor p (L.length + 1)).run (t :: L) = some ([a], M) := by
    rw [manyFor, run_bind_of_eq_some h]
    exact run_bind_of_eq_some hrest
  exact hall

/-- An expression at the end of a line. -/
theorem run_bare_of_expression (hstar : L.head? ≠ some (.sign "*"))
    (h : nested.expression.run L = some (e, .newline :: rest)) :
    nested.bare.run L = some (e, .newline :: rest) := by
  have hitem : nested.bareItem.run L = some (e, .newline :: rest) := by
    rw [Nested.bareItem, sign, run_bind_of_eq_some (run_accept_of_ne hstar), if_neg Bool.false_ne_true, h]
  rw [Nested.bare, Nested.bareTuple, run_bind_of_eq_some hitem]
  rfl

theorem run_simple_return (hopen : L.head?.any opensItem)
    (h : r.nested.bare.run L = some (e, .newline :: rest)) :
    r.simple.run (.keyword "return" :: L) = some (.give (some e), .newline :: rest) := by
  have hskip : r.simple.run (.keyword "return" :: L) =
      (if L.head?.any opensItem then r.nested.bare >>= fun e => pure (.give (some e)) else pure (.give none)).run
        L := rfl
  rw [hskip, if_pos hopen]
  exact run_bind_of_eq_some h

theorem run_line_of_simple (h : r.simple.run L = some (s, .newline :: rest)) :
    r.line.run L = some ([s], rest) := by
  rw [Statements.line, run_bind_of_eq_some h]
  rfl

/-- A statement at the end of a block. -/
theorem run_statements_single {t : Lexeme} (ht : t ≠ .dedent)
    (h : r.statement.run (t :: L) = some (ss, rest)) (hrest : rest.head? = none ∨ rest.head? = some .dedent) :
    r.statements.run (t :: L) = some (ss, rest) := by
  rw [Statements.statements, run_bind_of_eq_some (run_many_once (M := rest) (a := ss) _ _)]
  · simp
  · rw [run_bind_of_eq_some run_peek, List.head?_cons]
    cases t <;> first | exact run_bind_of_eq_some h | contradiction
  · rw [run_bind_of_eq_some run_peek]
    rcases hrest with hrest | hrest <;> rw [hrest] <;> rfl

/-- A line that gives an expression. -/
theorem run_statement_return (hopen : L.head?.any opensItem)
    (h : r.nested.bare.run L = some (e, .newline :: rest)) :
    r.statement.run (.keyword "return" :: L) = some ([.give (some e)], rest) := by
  have hskip : r.compound.run (.keyword "return" :: L) = some (none, .keyword "return" :: L) := rfl
  rw [Statements.statement, run_bind_of_eq_some hskip]
  exact run_line_of_simple (run_simple_return hopen h)

/-- A block on lines of its own. -/
theorem run_suite_of_block (h : r.block.run L = some (ss, .dedent :: rest)) :
    r.suite.run (.sign ":" :: .newline :: .indent :: L) = some (ss, rest) := by
  have hskip : r.suite.run (.sign ":" :: .newline :: .indent :: L) =
      (r.block >>= fun body => expect .dedent >>= fun _ => pure body).run L := rfl
  rw [hskip, run_bind_of_eq_some h]
  rfl

/-! ## the function -/

/-- The first line of a function and its block make its definition. -/
theorem run_function {names : List (List Char)} {id : String} {text : Lexeme}
    (hreturns : r.nested.expression.run (text :: .sign ":" :: L) = some (e, .sign ":" :: L))
    (hsuite : r.suite.run (.sign ":" :: L) = some (ss, rest)) :
    r.function.run (.name id :: .sign "(" ::
      (nameLexemes names ++ .sign ")" :: .sign "->" :: text :: .sign ":" :: L)) =
        some (.define id (names.map String.ofList) ss, rest) := by
  have hafter : (after "->" r.nested.expression).run (.sign "->" :: text :: .sign ":" :: L) =
      some (some e, .sign ":" :: L) :=
    (run_bind_of_eq_some run_accept_self).trans (run_bind_of_eq_some hreturns)
  rw [Statements.function, run_bind_of_eq_some run_name, run_bind_of_eq_some run_expect_self,
    run_bind_of_eq_some (run_parameters_names names), run_bind_of_eq_some run_expect_self,
    run_bind_of_eq_some hafter, run_bind_of_eq_some hsuite]
  rfl

/-- A function is a statement. -/
theorem run_statement_function (h : r.function.run L = some (s, rest)) :
    r.statement.run (.keyword "def" :: L) = some ([s], rest) := by
  have hcompound : r.compound.run (.keyword "def" :: L) = (r.function >>= fun s => pure (some s)).run L := rfl
  rw [Statements.statement, run_bind_of_eq_some (hcompound.trans (run_bind_of_eq_some h))]
  rfl

/-- The lexemes of a rendered function are read as a definition. -/
theorem run_statements_function {rule : Rule} (index : Nat)
    (hreturns : ∀ M, r.nested.expression.run (.text ⟨false, false, false⟩ rule.returns :: .sign ":" :: M) =
      some (e, .sign ":" :: M)) (hblock : r.block.run L = some (ss, [.dedent])) :
    r.statements.run (headLexemes index rule ++ .newline :: .indent :: L) =
      some ([.define (functionName index) ((List.range rule.production.length).map parameterName) ss], []) := by
  let names := (List.range rule.production.length).map fun i => (parameterName i).toList
  have hfunction : r.function.run (.name (functionName index) :: .sign "(" :: (nameLexemes names ++ _)) =
      some (.define (functionName index) (names.map String.ofList) ss, []) :=
    run_function (hreturns _) (run_suite_of_block hblock)
  have hstatement := run_statement_function hfunction
  have hall := run_statements_single (by simp) hstatement (.inl rfl)
  simpa [names, headLexemes, Function.comp_def] using hall

/-- What stands between the brackets is what the function gives. -/
theorem run_statements_return {depth : Nat} {A : List Lexeme}
    (hr : r.nested = (readersOfDepth (depth + 2)).1)
    (h : ((readersOfDepth depth).1.roundRest (readersOfDepth depth).2).run (A ++ closing) =
      some (e, [.newline, .dedent])) :
    r.statements.run (.keyword "return" :: .sign "(" :: (A ++ closing)) = some ([.give (some e)], [.dedent]) := by
  have hatom : ((readersOfDepth depth).1.atom (readersOfDepth depth).2).run (.sign "(" :: (A ++ closing)) =
      some (e, [.newline, .dedent]) := h
  have hexpr := run_expression_of_atom (by simp [prefixes]) (by decide) hatom
  rw [← hr] at hexpr
  have hbare := run_bare_of_expression (by simp) hexpr
  exact run_statements_single (by simp) (run_statement_return rfl hbare) (.inr rfl)

theorem readBlock_of_lexemes {code : List Char} (h : blockLexemes code = some L) :
    readBlock code = readAll (blockOfDepth (readersOfDepth (L.length + 1)).1 (readersOfDepth (L.length + 1)).2
      (L.length + 1)) L := by
  rw [readBlock, h]
  rfl

/-- Code with the lexemes of a rendered function is the function that gives what stands between the brackets. -/
theorem readBlock_of_roundRest {rule : Rule} {index : Nat} {code : List Char} {A : List Lexeme}
    (hcode : blockLexemes code = some (headLexemes index rule ++ .newline :: .indent :: .keyword "return" ::
      .sign "(" :: (A ++ closing)))
    (h : ∀ depth, A.length + 1 < depth →
      ((readersOfDepth depth).1.roundRest (readersOfDepth depth).2).run (A ++ closing) =
        some (e, [.newline, .dedent])) :
    readBlock code = some [.define (functionName index) ((List.range rule.production.length).map parameterName)
      [.give (some e)]] := by
  obtain ⟨d, hd, hle⟩ : ∃ d, (headLexemes index rule ++ .newline :: .indent :: .keyword "return" :: .sign "(" ::
      (A ++ closing)).length = d + 1 ∧ A.length + 1 < d := by
    refine ⟨_, List.length_append.trans (Nat.add_assoc ..).symm, ?_⟩
    simp only [List.length_cons, List.length_append]
    omega
  have hreturn := run_statements_return (r := ⟨_, (readersOfDepth (d + 2)).2,
    blockOfDepth (readersOfDepth (d + 2)).1 (readersOfDepth (d + 2)).2 d⟩) rfl (h d hle)
  have hfunction := run_statements_function (r := ⟨_, (readersOfDepth (d + 2)).2,
    blockOfDepth (readersOfDepth (d + 2)).1 (readersOfDepth (d + 2)).2 (d + 1)⟩) index
    (fun M => run_expression_text (Nat.le_add_left 2 d) rule.returns) hreturn
  rw [readBlock_of_lexemes hcode, hd, readAll_eq_some]
  exact hfunction

/-- The function that is rendered for an expression has a parameter for each symbol and gives the expression. -/
theorem readBlock_renderAction {r : Rule} (hname : OneLine r.production)
    (hexpr : readExpr (substituted r.code) = some e)
    (htexts : ∀ x ∈ quotedTexts (plainNewlines (substituted r.code)), Plain x)
    (hdepth : ∀ L ∈ expressionLexemes (substituted r.code), deepest 0 L < 200) (index : Nat) :
    readBlock (renderAction index r) = some
      [.define (functionName index) ((List.range r.production.length).map parameterName) [.give (some e)]] := by
  obtain ⟨L, hL, -⟩ := Option.bind_eq_some_iff.1 hexpr
  obtain ⟨hlength, hround⟩ := run_roundRest_of_readExpr hexpr hL
  have hlexemes := blockLexemes_renderAction hname (by rw [hexpr]; rfl) hL htexts (hdepth L hL) index
  have hbody : bodyLexemes L = .indent :: .keyword "return" :: .sign "(" :: (L.filter (!·.isLayout) ++ closing) := by
    simp [bodyLexemes, closing]
  rw [hbody] at hlexemes
  exact readBlock_of_roundRest hlexemes fun depth hle => hround depth (hlength.trans_lt hle)

end Lalr.Code
