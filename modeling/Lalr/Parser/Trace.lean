import Lalr.Parser.Basic
import Lalr.Table.Literal
import Lalr.Text.Columns

/-!
# Lalr.Parser.Trace

The trace of a parse: a line for every step, with the last states, the token and the action.
-/

namespace Lalr.Parser

variable {α σ : Type}

/-- The configurations that a parse goes through. -/
def visits (supply : Supply σ) (t : Table) (sem : Semantics Id α) :
    Nat → Progress σ α → List (Configuration α)
  | _, .ended _ => []
  | 0, .running _ _ => []
  | fuel + 1, .running s c => c :: visits supply t sem fuel (Id.run (advance supply t sem s c))

/-- The states of a stack, bottom first. -/
def states (stack : List (Frame α)) : List Nat := 0 :: (stack.map Frame.state).reverse

/-- A list of states between brackets. -/
def statesText (qs : List Nat) : String := "[" ++ ", ".intercalate (qs.map toString) ++ "]"

/-- The last elements of a list. -/
def lastOf (n : Nat) (xs : List Nat) : List Nat := xs.drop (xs.length - n)

/-- The line of a configuration; there is none where the table has no row. -/
def traceLine (t : Table) (c : Configuration α) : Option String :=
  (lookUp t c).map fun action? =>
    Text.padRight 30 (statesText (lastOf 5 (states c.stack))) ++ " " ++
      Text.padRight 15 c.token.name ++ " " ++ (action?.map Action.literal).getD "None"

/-- The trace of a parse of the tokens of a list. -/
def traceTokens (t : Table) (sem : Semantics Id α) (tokens : List Token) : List String :=
  (visits .ofTokens t sem (enoughFuel t.rows.length tokens.length)
    (pull .ofTokens (Supply.terminated .start tokens) [])).filterMap (traceLine t)

/-- The trace of a parse of the tokens of a lexer. -/
def traceLexer (t : Table) (sem : Semantics Id α) (l : Lexer) : List String :=
  (visits .ofLexer t sem (enoughFuel t.rows.length l.size) (pull .ofLexer (some l) [])).filterMap
    (traceLine t)

end Lalr.Parser
