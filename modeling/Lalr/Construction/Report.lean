import Lalr.Construction
import Lalr.Log

/-!
# Lalr.Construction.Report

The diagnostics of a construction: a dump of every intermediate structure, as far as the
construction gets, and a summary once there is a table.
-/

namespace Lalr.Construction

/-- A dump under a heading. -/
def dumpLine (heading body : String) : LogLine := ⟨.debug, heading ++ ":\n" ++ body⟩

/-- The summary of a finished construction. -/
def summary (g : Grammar) (c : Construction) : LogLine :=
  ⟨.info, g.name ++ ": " ++ toString c.automaton.size ++ " states, " ++
    toString c.extended.length ++ " extended rules, " ++ toString c.follows.merged.length ++
    " merged follow cycles"⟩

/-- The extended grammar as text, a line for each rule. -/
def extendedText (rules : List ExtendedRule) : String :=
  "\n".intercalate (rules.map ExtendedRule.text)

/-- The diagnostics of the construction of a grammar that has been checked. -/
def reportChecked (g : Grammar) : List LogLine :=
  let a := automatonOf g
  dumpLine "Item sets" a.dump :: dumpLine "Transitions" (Transitions.table a.transitions) ::
  match extendedOf a with
  | .error _ => []
  | .ok extended =>
    dumpLine "Extended grammar" (extendedText extended) ::
    match firstsOf g with
    | .error _ => []
    | .ok firsts =>
      dumpLine "First sets" firsts.text ::
      match followsOf g extended firsts with
      | .error _ => []
      | .ok follows =>
        dumpLine "Follow sets" follows.text ::
        match tableOf g a extended follows with
        | .error _ => []
        | .ok table =>
          [dumpLine "Parse table" table.text, summary g ⟨a, extended, firsts, follows, table⟩]

/-- The diagnostics of a construction; a grammar with a mistake is not built at all. -/
def report (g : Grammar) : List LogLine :=
  match g.validate with
  | .error _ => []
  | .ok () => reportChecked g

end Lalr.Construction
