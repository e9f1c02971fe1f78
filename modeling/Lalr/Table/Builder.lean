import Lalr.Automaton.Path
import Lalr.Table.Basic

/-!
# Lalr.Table.Builder

Assembling a parse table action by action.  A cell keeps the first action it is given; giving it
the same action again changes nothing, and a different one is a conflict.  There is no precedence,
so a conflict is always an error.
-/

namespace Lalr

/-- Two different actions that want the same cell, with a path to its state and their descriptions. -/
structure Conflict where
  state : Nat
  symbol : Symbol
  path : List Symbol
  existing : Action
  incoming : Action
  existingText : String
  incomingText : String
deriving DecidableEq, Repr

namespace Conflict

/-- The kind of a conflict is decided by the action that was there first. -/
def kind (c : Conflict) : String := if c.existing.isShift then "shift/reduce" else "reduce/reduce"

/-- The wording of a conflict. -/
def message (c : Conflict) : String :=
  c.kind ++ " conflict in state " ++ toString c.state ++ ": when we have parsed '" ++
    " ".intercalate c.path ++ "' and see '" ++ c.symbol ++ "' we don't know whether to " ++
    c.existingText ++ " or " ++ c.incomingText

end Conflict

/-- Why an action could not be installed. -/
inductive TableError where
  /-- The cell has a different action. -/
  | conflict (c : Conflict)
  /-- There is no row for the state. -/
  | missingState (state : Nat)
  /-- There is no such production. -/
  | missingRule (rule : Nat)
  /-- The cell has a different action, but no path to its state was found. -/
  | noPath (e : Transitions.PathError)
deriving DecidableEq, Repr

/-- A table under construction: the automaton's transitions and the productions, for descriptions
and paths, and the rows so far. -/
structure TableBuilder where
  transitions : List Transitions
  rules : List Production
  rows : List Row

namespace TableBuilder

/-- A builder with empty rows. -/
def start (transitions : List Transitions) (rules : List Production) : TableBuilder :=
  ⟨transitions, rules, transitions.map fun _ => ∅⟩

/-- An action in words. -/
def describe (rules : List Production) : Action → Except TableError String
  | .shift s => .ok ("shift and go to state " ++ toString s)
  | .reduce r _ _ =>
    match rules[r]? with
    | some p => .ok ("reduce by '" ++ p.text ++ "'")
    | none => .error (.missingRule r)
  | .goto s => .ok ("go to state " ++ toString s)
  | .accept => .ok "accept the input"

/-- The error for a cell that has a different action. -/
def conflictError (b : TableBuilder) (state : Nat) (symbol : Symbol) (existing incoming : Action) :
    TableError :=
  match Transitions.pathTo? b.transitions state, describe b.rules existing,
    describe b.rules incoming with
  | .error e, _, _ => .noPath e
  | _, .error e, _ => e
  | _, _, .error e => e
  | .ok path, .ok existingText, .ok incomingText =>
    .conflict ⟨state, symbol, path, existing, incoming, existingText, incomingText⟩

/-- Install an action in a cell that is empty or has the same action. -/
def install (b : TableBuilder) (state : Nat) (symbol : Symbol) (action : Action) :
    Except TableError TableBuilder :=
  match b.rows[state]? with
  | none => .error (.missingState state)
  | some row =>
    match row.get? symbol with
    | none => .ok { b with rows := b.rows.set state (row.set symbol action) }
    | some existing =>
      if existing = action then .ok b else .error (b.conflictError state symbol existing action)

/-- Install a shift. -/
def setShift (b : TableBuilder) (state : Nat) (symbol : Symbol) (target : Nat) :
    Except TableError TableBuilder :=
  b.install state symbol (.shift target)

/-- Install a goto. -/
def setGoto (b : TableBuilder) (state : Nat) (symbol : Symbol) (target : Nat) :
    Except TableError TableBuilder :=
  b.install state symbol (.goto target)

/-- Install the acceptance of the input. -/
def setAccept (b : TableBuilder) (state : Nat) : Except TableError TableBuilder :=
  b.install state endMarker .accept

/-- Install the reduction by a production. -/
def setReduce (b : TableBuilder) (state : Nat) (symbol : Symbol) (rule : Nat) :
    Except TableError TableBuilder :=
  match b.rules[rule]? with
  | none => .error (.missingRule rule)
  | some p => b.install state symbol (.reduce rule p.name p.length)

/-- The table as it stands. -/
def table (b : TableBuilder) : Table := ⟨b.rows⟩

end TableBuilder

end Lalr
