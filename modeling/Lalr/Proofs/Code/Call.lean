import Lalr.Code.Compiled
import Lalr.Proofs.Code.Function
import Lalr.Proofs.Keyed
import Mathlib.Data.List.Nodup

/-!
# Lalr.Proofs.Code.Call

Calling the function that is rendered for an expression.  What an expression gives depends on nothing but what
names stand for (`Expr.eval_congr`).
-/

namespace Lalr.Code

open Text (Plain plainNewlines)

variable {sc sc' : Scope} {globals : Bindings} {arguments : List Value}

/-! ## the value of an expression -/

namespace Expr

mutual

/-- The value of an expression depends on what names stand for. -/
theorem eval_congr (h : sc.lookUp = sc'.lookUp) : ∀ e : Expr, e.eval sc = e.eval sc'
  | .name id => by rw [eval, eval, h]
  | .absent | .bool _ | .int _ | .text _ | .starred _ | .other => by rw [eval, eval]
  | .list items => by rw [eval, eval, evalAll_congr h items]
  | .tuple items => by rw [eval, eval, evalAll_congr h items]
  | .dict entries => by rw [eval, eval, evalEntries_congr h entries]
  | .negate e => by rw [eval, eval, eval_congr h e]
  | .not e => by rw [eval, eval, eval_congr h e]
  | .binary _ a b => by rw [eval, eval, eval_congr h a, eval_congr h b]
  | .both a b => by rw [eval, eval, eval_congr h a, eval_congr h b]
  | .either a b => by rw [eval, eval, eval_congr h a, eval_congr h b]
  | .compare first links => by simp only [eval, eval_congr h first, evalLinks_congr h links]
  | .choice condition yes no => by
      rw [eval, eval, eval_congr h condition, eval_congr h yes, eval_congr h no]
  | .field e _ => by rw [eval, eval, eval_congr h e]
  | .index e i => by rw [eval, eval, eval_congr h e, eval_congr h i]
  | .slice e lower upper step => by
      rw [eval, eval, eval_congr h e, evalBound_congr h lower, evalBound_congr h upper, evalBound_congr h step]
  | .call function arguments => by rw [eval, eval, eval_congr h function, evalAll_congr h arguments]

theorem evalAll_congr (h : sc.lookUp = sc'.lookUp) : ∀ es : List Expr, evalAll sc es = evalAll sc' es
  | [] => by rw [evalAll, evalAll]
  | e :: es => by rw [evalAll, evalAll, eval_congr h e, evalAll_congr h es]

theorem evalEntries_congr (h : sc.lookUp = sc'.lookUp) :
    ∀ entries : List (Expr × Expr), evalEntries sc entries = evalEntries sc' entries
  | [] => by rw [evalEntries, evalEntries]
  | (k, e) :: entries => by
      rw [evalEntries, evalEntries, eval_congr h k, eval_congr h e, evalEntries_congr h entries]

theorem evalLinks_congr (h : sc.lookUp = sc'.lookUp) :
    ∀ (links : List (Comparison × Expr)) (v : Value), evalLinks sc v links = evalLinks sc' v links
  | [], v => by rw [evalLinks, evalLinks]
  | (c, e) :: links, v => by simp only [evalLinks, eval_congr h e, evalLinks_congr h links]

theorem evalBound_congr (h : sc.lookUp = sc'.lookUp) : ∀ bound : Option Expr, evalBound sc bound = evalBound sc' bound
  | none => by rw [evalBound, evalBound]
  | some e => by rw [evalBound, evalBound, eval_congr h e]

end

end Expr

/-! ## parameters -/

theorem parameterName_injective : Function.Injective parameterName := by
  intro i j h
  have hdigits : Nat.toDigits 10 i = Nat.toDigits 10 j := by
    have hlist := congrArg String.toList h
    rw [parameterName, parameterName, String.toList_append, String.toList_append, toList_toString,
      toList_toString] at hlist
    exact List.append_cancel_left hlist
  rw [← Text.numeral_toDigits i, hdigits, Text.numeral_toDigits]

/-- The names of some parameters. -/
def parameterNames (n : Nat) : List String := (List.range n).map parameterName

theorem nodup_parameterNames (n : Nat) : (parameterNames n).Nodup :=
  List.Nodup.map parameterName_injective List.nodup_range

/-- A scope in which parameters stand for arguments, and all other names for what they stand for globally. -/
structure Scope.Binds (sc : Scope) (globals : Bindings) (arguments : List Value) : Prop where
  argument : ∀ i v, arguments[i]? = some v → sc.lookUp (parameterName i) = .ok v
  other : ∀ id, id ∉ parameterNames arguments.length → sc.lookUp id = (Scope.mk [] ∅ globals).lookUp id

/-- The scope of a function with parameters and no other names of its own. -/
def Scope.ofArguments (globals : Bindings) (arguments : List Value) : Scope :=
  ⟨parameterNames arguments.length, Keyed.ofList ((parameterNames arguments.length).zip arguments), globals⟩

theorem Scope.binds_ofArguments (globals : Bindings) (arguments : List Value) :
    (Scope.ofArguments globals arguments).Binds globals arguments where
  argument := by
    intro i v hv
    have hi : i < arguments.length := (List.getElem?_eq_some_iff.1 hv).1
    have hname : (parameterNames arguments.length)[i]? = some (parameterName i) := by
      rw [parameterNames, List.getElem?_map, List.getElem?_range hi]
      rfl
    have hown : parameterName i ∈ parameterNames arguments.length := List.mem_of_getElem? hname
    have hkeys : ((parameterNames arguments.length).zip arguments).map Prod.fst = parameterNames arguments.length :=
      List.map_fst_zip (by simp [parameterNames])
    have hnodup : (((parameterNames arguments.length).zip arguments).map Prod.fst).Nodup := by
      rw [hkeys]
      exact nodup_parameterNames _
    have hmem : (parameterName i, v) ∈ (parameterNames arguments.length).zip arguments :=
      List.mem_of_getElem? (List.getElem?_zip_eq_some.2 ⟨hname, hv⟩)
    have hget : (Keyed.ofList ((parameterNames arguments.length).zip arguments)).get? (parameterName i) = some v :=
      (Keyed.get?_ofList hnodup _).trans (Keyed.get?_eq_some_of_mem (m := ⟨_, hnodup⟩) hmem)
    rw [lookUp, ofArguments, if_pos hown]
    dsimp only
    rw [hget]
  other := by
    intro id hid
    rw [lookUp, lookUp, ofArguments, if_neg hid, if_neg List.not_mem_nil]

/-- What names stand for is settled by the arguments and the global names. -/
theorem Scope.Binds.lookUp_eq (h : sc.Binds globals arguments) (h' : sc'.Binds globals arguments) :
    sc.lookUp = sc'.lookUp := by
  funext id
  by_cases hid : id ∈ parameterNames arguments.length
  · obtain ⟨i, hi, rfl⟩ := List.mem_map.1 hid
    have hv := List.getElem?_eq_getElem (List.mem_range.1 hi)
    rw [h.argument i _ hv, h'.argument i _ hv]
  · rw [h.other id hid, h'.other id hid]

/-! ## calling the function -/

/-- Calling a function that gives an expression gives the value of the expression. -/
theorem Function.call_give {e : Expr} (h : sc.Binds globals arguments) :
    (Function.mk (parameterNames arguments.length) [.give (some e)]).call globals arguments = e.eval sc := by
  have hscope : (Function.mk (parameterNames arguments.length) [.give (some e)]).call globals arguments =
      e.eval (Scope.ofArguments globals arguments) := by
    have hown : parameterNames arguments.length ++ [Stmt.give (some e)].flatMap Stmt.assigned =
        parameterNames arguments.length := List.append_nil _
    rw [call, if_neg (by simp [parameterNames]), hown]
    rfl
  rw [hscope, Expr.eval_congr ((Scope.binds_ofArguments globals arguments).lookUp_eq h)]

/-- Code that defines such a function makes it the action with its number. -/
theorem exists_actionOf_of_readBlock {code : List Char} {index n : Nat} {e : Expr}
    (hread : readBlock code = some [.define (functionName index) (parameterNames n) [.give (some e)]])
    (env : Environment) :
    ∃ env', runText env code = .ok env' ∧ env'.globals = env.globals ∧
      ∀ (arguments : List Value) (sc : Scope), arguments.length = n → sc.Binds env.globals arguments →
        actionOf env' index arguments = e.eval sc := by
  let f : Function := ⟨parameterNames n, [.give (some e)]⟩
  refine ⟨{ env with functions := env.functions.set (functionName index) f }, ?_, rfl, ?_⟩
  · rw [runText, hread]
    rfl
  · rintro arguments sc rfl hsc
    rw [actionOf, Keyed.get?_set, if_pos rfl]
    exact Function.call_give hsc

/-- A production whose code is an expression becomes a function that can be read, and that gives, for as many
arguments as there are symbols, the value of the expression in a scope in which the parameters stand for the
arguments.  Names may not have line ends in them, nor may quoted texts: what rendering puts in front of a line
would be part of the text.  Fewer than 200 brackets may be open at once, as rendering adds one. -/
theorem actionOf_renderAction {r : Rule} {e : Expr} (hname : OneLine r.production)
    (hexpr : readExpr (substituted r.code) = some e)
    (htexts : ∀ x ∈ quotedTexts (plainNewlines (substituted r.code)), Plain x)
    (hdepth : ∀ L ∈ expressionLexemes (substituted r.code), deepest 0 L < 200) (index : Nat)
    (env : Environment) :
    (readBlock (renderAction index r)).isSome ∧
    ∃ env', runText env (renderAction index r) = .ok env' ∧ env'.globals = env.globals ∧
      ∀ arguments : List Value, arguments.length = r.production.length →
        (∃ sc : Scope, sc.Binds env.globals arguments) ∧
        ∀ sc : Scope, sc.Binds env.globals arguments → actionOf env' index arguments = e.eval sc := by
  have hread := readBlock_renderAction hname hexpr htexts hdepth index
  obtain ⟨env', hrun, hglobals, hcall⟩ := exists_actionOf_of_readBlock hread env
  refine ⟨by rw [hread]; rfl, env', hrun, hglobals, fun arguments hlength => ⟨?_, fun sc => ?_⟩⟩
  · exact ⟨_, Scope.binds_ofArguments env.globals arguments⟩
  · exact hcall arguments sc hlength

/-- A rule for a list of the only symbol and a text, on two lines. -/
def pairRule : Rule := ⟨⟨"S", ["a"]⟩, "[$0,\n 'b']", "object"⟩

/-- The function for the rule makes a list of its argument and the text. -/
theorem actionOf_renderAction_pair :
    OneLine pairRule.production ∧
    ∃ e, readExpr (substituted pairRule.code) = some e ∧
      (∀ x ∈ quotedTexts (plainNewlines (substituted pairRule.code)), Plain x) ∧
      (∀ L ∈ expressionLexemes (substituted pairRule.code), deepest 0 L < 200) ∧
      ∃ env', runText ⟨∅, ∅⟩ (renderAction 0 pairRule) = .ok env' ∧
        actionOf env' 0 [.int 1] = .ok (.list [.int 1, .text "b"]) := by
  have hname : OneLine pairRule.production := by decide
  have hlexemes : expressionLexemes (substituted pairRule.code) =
      some [.sign "[", .name "_0", .sign ",", .text ⟨false, false, false⟩ "b", .sign "]"] := by decide +kernel
  have hexpr : readExpr (substituted pairRule.code) = some (.list [.name "_0", .text "b"]) := by
    rw [readExpr, hlexemes]
    rfl
  have htexts : ∀ x ∈ quotedTexts (plainNewlines (substituted pairRule.code)), Plain x := by decide +kernel
  have hdepth : ∀ L ∈ expressionLexemes (substituted pairRule.code), deepest 0 L < 200 := by
    rw [hlexemes]
    rintro L ⟨⟩
    decide
  obtain ⟨-, env', hrun, -, hcall⟩ := actionOf_renderAction hname hexpr htexts hdepth 0 ⟨∅, ∅⟩
  refine ⟨hname, _, hexpr, htexts, hdepth, env', hrun, ?_⟩
  rw [(hcall [.int 1] rfl).2 _ (Scope.binds_ofArguments ∅ [.int 1])]
  rfl

/-- A rule for a text of two lines. -/
def textRule : Rule := ⟨⟨"S", ["a"]⟩, "\'\'\'x\ny\'\'\'", "object"⟩

/-- The second line of the text stands further to the right in the rendered function than in the code, so the
function gives another text. -/
theorem not_actionOf_renderAction_text : OneLine textRule.production ∧
    ∃ e, readExpr (substituted textRule.code) = some e ∧
      ∃ env', runText ⟨∅, ∅⟩ (renderAction 0 textRule) = .ok env' ∧
        ∃ sc : Scope, sc.Binds ∅ [.int 1] ∧ e.eval sc = .ok (.text "x\ny") ∧
          actionOf env' 0 [.int 1] = .ok (.text "x\n        y") := by
  let shifted := "\'\'\'x\n        y\'\'\'".toList
  have hlexemes : expressionLexemes (substituted textRule.code) = some [.text ⟨false, false, false⟩ "x\ny"] := by
    decide +kernel
  have hshifted : expressionLexemes shifted = some [.text ⟨false, false, false⟩ "x\n        y"] := by
    decide +kernel
  have hexpr : readExpr (substituted textRule.code) = some (.text "x\ny") := by
    rw [readExpr, hlexemes]
    rfl
  have hexpr' : readExpr shifted = some (.text "x\n        y") := by
    rw [readExpr, hshifted]
    rfl
  have hblock : blockLexemes (renderAction 0 textRule) = some (headLexemes 0 textRule ++ .newline :: .indent ::
      .keyword "return" :: .sign "(" :: ([.text ⟨false, false, false⟩ "x\n        y"] ++ closing)) := by
    decide +kernel
  have hread := readBlock_of_roundRest hblock fun depth hle =>
    (run_roundRest_of_readExpr hexpr' hshifted).2 depth ((Nat.lt_succ_self _).trans hle)
  obtain ⟨env', hrun, -, hcall⟩ := exists_actionOf_of_readBlock hread ⟨∅, ∅⟩
  have hbinds := Scope.binds_ofArguments ∅ [.int 1]
  exact ⟨by decide, _, hexpr, env', hrun, _, hbinds, rfl, hcall _ _ rfl hbinds⟩

end Lalr.Code
