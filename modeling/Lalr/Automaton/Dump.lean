import Lalr.Automaton.Basic
import Lalr.Text.Columns
import Lalr.Text.Quoted

/-!
# Lalr.Automaton.Dump

An automaton as text: the transitions as a table of states and symbols, and the whole automaton as
a nested dump with four columns of indentation per level.
-/

namespace Lalr

namespace Transitions

/-- The symbols that occur in some rows, in order of first occurrence. -/
def symbols (rows : List Transitions) : List Symbol :=
  (rows.foldl (fun seen row => row.keys.foldl (fun m s => m.set s ()) seen)
    (∅ : Keyed Symbol Unit)).keys

/-- The table of transitions: a row per state, a column per symbol. -/
def table (rows : List Transitions) : String :=
  let columns := symbols rows
  Text.numberedTable columns <| rows.map fun row =>
    columns.map fun s => ((row.get? s).map toString).getD ""

end Transitions

namespace Automaton

/-- The entries of a list or an object between brackets, one to a line. -/
def block (opening closing : String) (depth : Nat) (entries : List String) : String :=
  if entries.isEmpty then opening ++ closing
  else
    let margin (n : Nat) := String.ofList (List.replicate (4 * n) ' ')
    opening ++ "\n" ++ ",\n".intercalate (entries.map (margin (depth + 1) ++ ·)) ++ "\n" ++
      margin depth ++ closing

/-- A key and its value in an object. -/
def member (key value : String) : String := Text.jsonString key ++ ": " ++ value

/-- The dump of one state. -/
def dumpState (items : List Item) (row : Transitions) : String :=
  let itemTexts := items.map fun i => Text.jsonString i.text
  let targets := row.entries.map fun e => member e.1 (Text.jsonString (toString e.2))
  block "\x7b" "\x7d" 1
    [member "items" (block "[" "]" 2 itemTexts),
     member "transitions" (block "\x7b" "\x7d" 2 targets)]

/-- The dump of all states by number. -/
def dump (a : Automaton) : String :=
  block "\x7b" "\x7d" 0 <| (a.itemSets.zip a.transitions).zipIdx.map fun ((items, row), i) =>
    member (toString i) (dumpState items row)

end Automaton

end Lalr
