import Lalr.Table.Basic
import Lalr.Text.Quoted

/-!
# Lalr.Table.Literal

Actions as they are written in emitted modules and in traces.
-/

namespace Lalr.Action

/-- An action as a constructor call with named arguments. -/
def literal : Action → String
  | .shift s => "Shift(state=" ++ toString s ++ ")"
  | .reduce r name count =>
    "Reduce(rule=" ++ toString r ++ ", name=" ++ Text.quote name ++ ", count=" ++
      toString count ++ ")"
  | .goto s => "Goto(state=" ++ toString s ++ ")"
  | .accept => "Accept()"

end Lalr.Action
