import Lalr.Table.Basic

/-!
# Lalr.Parser.Binding

Whether a table can be run with a number of actions: every state it goes to must have a row, and
every production it reduces an action.
-/

namespace Lalr.Table

/-- Why a table cannot be run. -/
inductive BindingError where
  | missingState (state : Nat)
  | unboundRule (rule : Nat)
deriving DecidableEq, Repr

/-- The wording of a binding error. -/
def BindingError.message : BindingError → String
  | .missingState s => "The table refers to a missing state " ++ toString s
  | .unboundRule r => "No action is bound to production " ++ toString r

/-- What is wrong with one action. -/
def bindingError? (states rules : Nat) : Action → Option BindingError
  | .shift s => if s < states then none else some (.missingState s)
  | .goto s => if s < states then none else some (.missingState s)
  | .reduce r _ _ => if r < rules then none else some (.unboundRule r)
  | .accept => none

/-- Check all actions of a table, row by row. -/
def checkBinding (t : Table) (rules : Nat) : Except BindingError Unit :=
  match (t.rows.flatMap (·.values)).findSome? (bindingError? t.rows.length rules) with
  | none => .ok ()
  | some e => .error e

end Lalr.Table
