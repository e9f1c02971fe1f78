import Lalr.Code.Eval
import Lalr.Code.Rendering
import Lalr.Construction
import Lalr.Parser.Basic

/-!
# Lalr.Code.Compiled

Grammars whose actions run.  The header runs once, and then every reduction calls the function of
its production.
-/

namespace Lalr.Code

/-- Why the actions of a grammar cannot be run. -/
inductive CompileError where
  | build (e : BuildError)
  | code (e : CodeError)
  /-- The header fails when it runs. -/
  | eval (e : EvalError)
deriving Repr

/-- The global names before any code has run. -/
def initialGlobals (g : Grammar) : Bindings :=
  Keyed.ofList [("__name__", .text ("lalrgen.actions." ++ g.name))]

/-- Run the statements of a text that has been checked. -/
def runText (env : Environment) (code : List Char) : Except EvalError Environment :=
  match readBlock code with
  | some block => env.runAll block
  | none => .error .unsupported

/-- What the header and the functions of a grammar leave behind. -/
def environmentOf (g : Grammar) : Except EvalError Environment := do
  let env := Environment.mk (initialGlobals g) ∅
  let env ← if Text.isBlankText g.header then pure env else runText env (headerOf g)
  runText env (renderActions g)

/-- The action of the production with an index. -/
def actionOf (env : Environment) (index : Nat) (arguments : List Value) :
    Except EvalError Value :=
  match env.functions.get? (functionName index) with
  | some f => f.call env.globals arguments
  | none => .error .unsupported

/-- The values of a grammar's productions: tokens stand for themselves. -/
def semantics (g : Grammar) (env : Environment) : Semantics (Except EvalError) Value where
  ofToken := .token
  actions := (List.range g.rules.length).map (actionOf env)

/-- The table and the actions of a grammar.  The table comes first, then the code is checked, and
only then the header runs. -/
def compile (g : Grammar) : Except CompileError (Table × Semantics (Except EvalError) Value) := do
  let c ← (Construction.ofGrammar g).mapError .build
  (check g).mapError .code
  let env ← (environmentOf g).mapError .eval
  return (c.table, semantics g env)

end Lalr.Code
