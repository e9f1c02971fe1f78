import Lalr.Keyed
import Lalr.Symbol
import Lalr.Text.Columns

/-!
# Lalr.Table.Basic

The parse table: what to do in a state when looking at a symbol.  Terminals and nonterminals share
the rows, since they never share a name; a missing entry is a syntax error.
-/

namespace Lalr

/-- What the parser does in a state at a symbol. -/
inductive Action where
  /-- Consume the token and go to a state. -/
  | shift (state : Nat)
  /-- Replace the last `count` values by the value of a production of `name`. -/
  | reduce (rule : Nat) (name : Symbol) (count : Nat)
  /-- Go to a state after a reduction. -/
  | goto (state : Nat)
  /-- The input is complete. -/
  | accept
deriving DecidableEq, Repr, Inhabited

namespace Action

/-- Whether the action is taken after a reduction and not at a token. -/
def isGoto : Action → Bool
  | .goto _ => true
  | _ => false

/-- Whether the action consumes a token. -/
def isShift : Action → Bool
  | .shift _ => true
  | _ => false

/-- The action in a cell of the table dump. -/
def abbreviation : Action → String
  | .shift s => "s" ++ toString s
  | .reduce r _ _ => "r" ++ toString r
  | .goto s => toString s
  | .accept => "acc"

end Action

/-- The actions of one state, in the order in which they were installed. -/
abbrev Row := Keyed Symbol Action

/-- A row of actions per state. -/
structure Table where
  rows : List Row
deriving DecidableEq, Repr, Inhabited

namespace Table

/-- The action of a state at a symbol. -/
def action? (t : Table) (state : Nat) (symbol : Symbol) : Option Action :=
  (t.rows[state]?).bind (·.get? symbol)

/-- The symbols of a row that the parser can look at, in the order of their actions. -/
def expectedIn (row : Row) : List Symbol :=
  (row.entries.filter (!·.2.isGoto)).map Prod.fst

/-- The symbols that have an action in a state, apart from gotos. -/
def expected? (t : Table) (state : Nat) : Option (List Symbol) := (t.rows[state]?).map expectedIn

/-- The symbols whose actions satisfy a test, in order of first occurrence. -/
def columns (t : Table) (p : Action → Bool) : List Symbol :=
  (t.rows.foldl (fun seen row => row.entries.foldl (fun m e => if p e.2 then m.set e.1 () else m) seen)
    (∅ : Keyed Symbol Unit)).keys

/-- The table as text: a row per state, columns for the terminals and then for the nonterminals. -/
def text (t : Table) : String :=
  let symbols := t.columns (!·.isGoto) ++ t.columns (·.isGoto)
  Text.numberedTable symbols <| t.rows.map fun row =>
    symbols.map fun s => ((row.get? s).map Action.abbreviation).getD ""

end Table

end Lalr
