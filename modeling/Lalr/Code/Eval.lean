import Lalr.Code.Operation
import Lalr.Keyed

/-!
# Lalr.Code.Eval

Evaluating expressions and running statements.  Parts of an expression are evaluated from the left
to the right, and the first failure ends it.  A name that a function assigns to anywhere belongs to
the function everywhere; all other names are looked up among the global ones and then among the
builtin functions.
-/

namespace Lalr.Code

/-- The values of names. -/
abbrev Bindings := Keyed String Value

/-- What names stand for at some point: the names that belong to the running function, the values
that they have by now, and the global names. -/
structure Scope where
  ownNames : List String
  own : Bindings
  globals : Bindings

/-- The builtin function of a name. -/
def builtin? (id : String) : Option Builtin :=
  match id with
  | "int" => some .int
  | "len" => some .len
  | "str" => some .str
  | _ => none

namespace Scope

/-- The value of a name. -/
def lookUp (sc : Scope) (id : String) : Except EvalError Value :=
  if id ∈ sc.ownNames then
    match sc.own.get? id with
    | some v => .ok v
    | none => .error (.unboundName id)
  else
    match sc.globals.get? id, builtin? id with
    | some v, _ => .ok v
    | none, some f => .ok (.builtin f)
    | none, none => .error (.unknownName id)

/-- Give a name a value: as the running function's own, or as a global one. -/
def bind (sc : Scope) (id : String) (v : Value) : Scope :=
  if id ∈ sc.ownNames then { sc with own := sc.own.set id v }
  else { sc with globals := sc.globals.set id v }

end Scope

/-! ## expressions -/

namespace Expr

mutual

/-- The value of an expression. -/
def eval (sc : Scope) : Expr → Except EvalError Value
  | .name id => sc.lookUp id
  | .absent => .ok .absent
  | .bool b => .ok (.bool b)
  | .int n => .ok (.int n)
  | .text s => .ok (.text s)
  | .list items => do return .list (← evalAll sc items)
  | .tuple items => do return .tuple (← evalAll sc items)
  | .dict entries => do Value.ofEntries (← evalEntries sc entries)
  | .negate e => do (← eval sc e).negate
  | .not e => do return .bool !(← eval sc e).isTrue
  | .binary op a b => do
    let v ← eval sc a
    let w ← eval sc b
    Value.operate op v w
  | .both a b => do
    let v ← eval sc a
    if v.isTrue then eval sc b else return v
  | .either a b => do
    let v ← eval sc a
    if v.isTrue then return v else eval sc b
  | .compare first links => do
    let v ← eval sc first
    evalLinks sc v links
  | .choice condition yes no => do
    if (← eval sc condition).isTrue then eval sc yes else eval sc no
  | .field e part => do (← eval sc e).field part
  | .index e i => do
    let v ← eval sc e
    v.index (← eval sc i)
  | .slice e lower upper step => do
    let v ← eval sc e
    let lower ← evalBound sc lower
    let upper ← evalBound sc upper
    let step ← evalBound sc step
    v.slice lower upper step
  | .call function arguments => do
    let f ← eval sc function
    f.call (← evalAll sc arguments)
  | .starred _ => .error .unsupported
  | .other => .error .unsupported

/-- The values of expressions in a row. -/
def evalAll (sc : Scope) : List Expr → Except EvalError (List Value)
  | [] => .ok []
  | e :: es => do
    let v ← eval sc e
    return v :: (← evalAll sc es)

/-- The values of the keys and values of a dictionary. -/
def evalEntries (sc : Scope) : List (Expr × Expr) → Except EvalError (List (Value × Value))
  | [] => .ok []
  | (k, e) :: es => do
    let key ← eval sc k
    let value ← eval sc e
    return (key, value) :: (← evalEntries sc es)

/-- The truth of a chain of comparisons after a first value.  The chain ends where one fails. -/
def evalLinks (sc : Scope) (v : Value) : List (Comparison × Expr) → Except EvalError Value
  | [] => .ok (.bool true)
  | (c, e) :: links => do
    let w ← eval sc e
    if ← Value.holds c v w then evalLinks sc w links else return .bool false

/-- The value of a bound that may be left out. -/
def evalBound (sc : Scope) : Option Expr → Except EvalError Value
  | none => .ok .absent
  | some e => eval sc e

end

end Expr

/-! ## statements -/

namespace Stmt

/-- The name that a target is, if it is one. -/
def targetName? : Expr → Option String
  | .name id => some id
  | _ => none

/-- The names that a statement assigns to. -/
def assigned : Stmt → List String
  | .assign targets _ => targets.filterMap targetName?
  | _ => []

/-- Assign a value to targets, from the left to the right.  Only names can be assigned to here. -/
def assignTo (v : Value) (sc : Scope) : List Expr → Except EvalError Scope
  | [] => .ok sc
  | .name id :: rest => assignTo v (sc.bind id v) rest
  | _ :: _ => .error .unsupported

/-- Run a statement that does not end its function. -/
def run (sc : Scope) : Stmt → Except EvalError Scope
  | .assign targets e => do assignTo (← e.eval sc) sc targets
  | .evaluate e => do
    let _ ← e.eval sc
    return sc
  | .pass => .ok sc
  | _ => .error .unsupported

/-- Run the statements of a function; the first value that is given ends it. -/
def runBody (sc : Scope) : List Stmt → Except EvalError Value
  | [] => .ok .absent
  | .give none :: _ => .ok .absent
  | .give (some e) :: _ => e.eval sc
  | s :: rest => do runBody (← s.run sc) rest

end Stmt

/-! ## functions -/

/-- A function: the names of its parameters, and its statements. -/
structure Function where
  parameters : List String
  body : List Stmt
deriving Repr, Inhabited

/-- Call a function with one argument for each parameter. -/
def Function.call (f : Function) (globals : Bindings) (arguments : List Value) :
    Except EvalError Value :=
  if f.parameters.length ≠ arguments.length then .error .wrongKind
  else
    Stmt.runBody
      ⟨f.parameters ++ f.body.flatMap Stmt.assigned,
        Keyed.ofList (f.parameters.zip arguments), globals⟩
      f.body

/-- What running code leaves behind: global names, and functions by their names. -/
structure Environment where
  globals : Bindings
  functions : Keyed String Function

namespace Environment

/-- Run a statement outside of any function. -/
def run (env : Environment) : Stmt → Except EvalError Environment
  | .define name parameters body =>
    .ok { env with functions := env.functions.set name ⟨parameters, body⟩ }
  | s => do
    let sc ← s.run ⟨[], ∅, env.globals⟩
    return { env with globals := sc.globals }

/-- Run a block outside of any function. -/
def runAll (env : Environment) (block : List Stmt) : Except EvalError Environment :=
  block.foldlM run env

end Environment

end Lalr.Code
