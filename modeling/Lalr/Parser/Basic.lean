import Lalr.Parser.Supply
import Lalr.Table.Basic

/-!
# Lalr.Parser.Basic

The shift-reduce machine.  Its stack holds the states the automaton has been through, each with the
value that was made on the way there.  Shifting pushes a token's value; reducing a production of `n`
symbols takes `n` values off, hands them to the production's action, and pushes what the action
returns together with the state that the table says to go to.

Actions run in a monad, so that they may fail or have effects; the machine runs each exactly when it
reduces.  A table that was not made from a grammar may drive the machine in circles, so running it
takes fuel.
-/

namespace Lalr

/-- How values are made: from a token, and from the values of a production's symbols. -/
structure Semantics (m : Type → Type) (α : Type) where
  ofToken : Token → α
  actions : List (List α → m α)

/-- Why a parse has no value. -/
inductive ParseError where
  /-- There is no token to parse. -/
  | lexical (e : LexError)
  /-- The table has no action at a token; others were expected. -/
  | unexpected (token : Token) (expected : List Symbol)
  /-- The input was accepted with another number of values than one. -/
  | leftover (token : Token) (count : Nat)
  /-- After a reduction the table does not say where to go. -/
  | noGoto (name : Symbol) (state : Nat)
  /-- The table has no such state. -/
  | missingState (state : Nat)
  /-- No action is bound to a production. -/
  | missingAction (rule : Nat)
  /-- A reduction takes off more values than there are. -/
  | underflow
  /-- The ending token was shifted, and nothing comes after it. -/
  | noMoreTokens
deriving DecidableEq, Repr

namespace ParseError

/-- A symbol in a message. -/
def describe (name : Symbol) : String :=
  if name = endMarker then "end of input" else "'" ++ name ++ "'"

/-- The wording of an error. -/
def message : ParseError → String
  | .lexical e => e.message
  | .unexpected t expected =>
    t.position.text ++ ": Unexpected " ++ describe t.name ++ ", expected one of: " ++
      ", ".intercalate (expected.map describe)
  | .leftover t count =>
    t.position.text ++ ": Parse ended with " ++ toString count ++
      " values on the stack instead of one"
  | .noGoto name state => "No goto for " ++ name ++ " in state " ++ toString state
  | .missingState state => "The table has no state " ++ toString state
  | .missingAction rule => "No action is bound to production " ++ toString rule
  | .underflow => "A reduction needs more values than there are"
  | .noMoreTokens => "There are no tokens after the end of input"

end ParseError

namespace Parser

variable {m : Type → Type} {α σ : Type}

/-- A state that the automaton went to, and the value that was made on the way. -/
structure Frame (α : Type) where
  state : Nat
  value : α
deriving DecidableEq, Repr

/-- The machine between two steps: its stack, top first, above the start state, and the token it
looks at. -/
structure Configuration (α : Type) where
  stack : List (Frame α)
  token : Token

/-- The state on top of a stack. -/
def topState : List (Frame α) → Nat
  | [] => 0
  | f :: _ => f.state

/-- The action of the table in a configuration: nothing at all if there is no row. -/
def lookUp (t : Table) (c : Configuration α) : Option (Option Action) :=
  (t.rows[topState c.stack]?).map (·.get? c.token.name)

/-- What a step leads to. -/
inductive Step (α : Type) where
  /-- The token went onto the stack, and the next one is wanted. -/
  | shifted (stack : List (Frame α))
  /-- A production was reduced. -/
  | reduced (stack : List (Frame α))
  /-- The parse is over. -/
  | ended (result : Except ParseError α)

/-- Push the value of a production, and go where the table says. -/
def pushGoto (t : Table) (stack : List (Frame α)) (name : Symbol) (value : α) : Step α :=
  match t.action? (topState stack) name with
  | some (.goto state) => .reduced (⟨state, value⟩ :: stack)
  | _ => .ended (.error (.noGoto name (topState stack)))

/-- Reduce a production of `count` symbols.  Too short a stack is noticed after the action has run
on the values that there are. -/
def reduce [Monad m] (t : Table) (sem : Semantics m α) (stack : List (Frame α)) (rule : Nat)
    (name : Symbol) (count : Nat) : m (Step α) :=
  match sem.actions[rule]? with
  | none => pure (.ended (.error (.missingAction rule)))
  | some action => do
    let value ← action ((stack.take count).reverse.map Frame.value)
    if stack.length < count then return .ended (.error .underflow)
    else return pushGoto t (stack.drop count) name value

/-- The value of an accepted input. -/
def accept (c : Configuration α) : Except ParseError α :=
  match c.stack with
  | [f] => .ok f.value
  | stack => .error (.leftover c.token stack.length)

/-- One step of the machine. -/
def step [Monad m] (t : Table) (sem : Semantics m α) (c : Configuration α) : m (Step α) :=
  match t.rows[topState c.stack]? with
  | none => pure (.ended (.error (.missingState (topState c.stack))))
  | some row =>
    match row.get? c.token.name with
    | some (.shift state) => pure (.shifted (⟨state, sem.ofToken c.token⟩ :: c.stack))
    | some (.reduce rule name count) => reduce t sem c.stack rule name count
    | some .accept => pure (.ended (accept c))
    | _ => pure (.ended (.error (.unexpected c.token (Table.expectedIn row))))

/-! ## running -/

/-- The machine together with its supply of tokens, after a step or at its end. -/
inductive Progress (σ α : Type) where
  | running (supply : σ) (c : Configuration α)
  | ended (result : Except ParseError α)

/-- Get the next token for a stack. -/
def pull (supply : Supply σ) (s : σ) (stack : List (Frame α)) : Progress σ α :=
  match supply.next s with
  | (.token t, s) => .running s ⟨stack, t⟩
  | (.error e, _) => .ended (.error (.lexical e))
  | (.exhausted, _) => .ended (.error .noMoreTokens)

/-- One step, with the next token if the step consumed one. -/
def advance [Monad m] (supply : Supply σ) (t : Table) (sem : Semantics m α) (s : σ)
    (c : Configuration α) : m (Progress σ α) := do
  match ← step t sem c with
  | .shifted stack => return pull supply s stack
  | .reduced stack => return .running s ⟨stack, c.token⟩
  | .ended result => return .ended result

/-- Run the machine to its end; nothing comes back if the fuel is spent before. -/
def run [Monad m] (supply : Supply σ) (t : Table) (sem : Semantics m α) :
    Nat → Progress σ α → m (Option (Except ParseError α))
  | _, .ended result => pure (some result)
  | 0, .running _ _ => pure none
  | fuel + 1, .running s c => do run supply t sem fuel (← advance supply t sem s c)

/-- A number of steps that is enough for every parse that ends, by the number of the table's states
and of the tokens.  Between two shifts, the part of the stack that is not given up stays lower than
the number of states, or its states repeat and the parse does not end. -/
def enoughFuel (states tokens : Nat) : Nat :=
  (tokens + 2) * (tokens + 2) * Nat.pow (states + 2) (states + 4)

/-- Parse the tokens of a list. -/
def parseTokens [Monad m] (t : Table) (sem : Semantics m α) (tokens : List Token) :
    m (Option (Except ParseError α)) :=
  run .ofTokens t sem (enoughFuel t.rows.length tokens.length)
    (pull .ofTokens (Supply.terminated .start tokens) [])

/-- Parse the tokens of a lexer, each when it is wanted. -/
def parseLexer [Monad m] (t : Table) (sem : Semantics m α) (l : Lexer) :
    m (Option (Except ParseError α)) :=
  run .ofLexer t sem (enoughFuel t.rows.length l.size) (pull .ofLexer (some l) [])

end Parser

end Lalr
