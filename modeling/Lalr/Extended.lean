import Lalr.Automaton.Basic

/-!
# Lalr.Extended

The extended grammar: every production once for every state it can be recognised from, with the
states the parser passes through on the way.  A nonterminal that is recognised from two states has
two *instances*, and each instance gets a FOLLOW set of its own.
-/

namespace Lalr

/-- A nonterminal together with the state from which it is recognised. -/
structure Instance where
  symbol : Symbol
  state : Nat
deriving DecidableEq, Repr, Inhabited

/-- Whether an instance comes before another in listings: by symbol, then by state. -/
def Instance.before (a b : Instance) : Bool :=
  a.symbol < b.symbol || (a.symbol == b.symbol && a.state ≤ b.state)

/-- The instance as listings show it. -/
def Instance.text (i : Instance) : String := "[" ++ toString i.state ++ " " ++ i.symbol ++ "]"

/-- A production with the states the parser passes through as it recognises it: the entry state,
one state after each symbol, and the exit state, where the parser goes after reducing. -/
structure ExtendedRule where
  production : Production
  states : List Nat
deriving DecidableEq, Repr, Inhabited

namespace ExtendedRule

/-- The state from which the production is recognised. -/
def entry? (r : ExtendedRule) : Option Nat := r.states.head?

/-- The state after the reduction. -/
def exit? (r : ExtendedRule) : Option Nat := r.states.getLast?

/-- The state in which the production is reduced. -/
def reduceState? (r : ExtendedRule) : Option Nat := r.states.dropLast.getLast?

/-- The instance that the rule recognises. -/
def instance? (r : ExtendedRule) : Option Instance := r.entry?.map (⟨r.production.name, ·⟩)

/-- The symbols with the states from which they are recognised, as far as there are states. -/
def symbolInstances (r : ExtendedRule) : List Instance :=
  List.zipWith Instance.mk r.production.symbols r.states

/-- The rule as listings show it: every symbol between the states around it. -/
def text (r : ExtendedRule) : String :=
  let state (i : Nat) := ((r.states[i]?).map toString).getD ""
  let bracket (before : String) (s : Symbol) (after : String) :=
    "[" ++ before ++ " " ++ s ++ " " ++ after ++ "]"
  let parts := r.production.symbols.zipIdx.map fun (s, i) => bracket (state i) s (state (i + 1))
  bracket (state 0) r.production.name ((r.exit?.map toString).getD "") ++ " -> " ++
    if parts.isEmpty then epsilon else " ".intercalate parts

end ExtendedRule

namespace Automaton

/-- A state that has no transition on a symbol it was expected to have. -/
structure MissingTransition where
  symbol : Symbol
deriving DecidableEq, Repr

/-- The transition of a state, which must be there. -/
def step (a : Automaton) (state : Nat) (symbol : Symbol) : Except MissingTransition Nat :=
  match a.target? state symbol with
  | some t => .ok t
  | none => .error ⟨symbol⟩

/-- The states after each symbol of a string, from a state. -/
def trail (a : Automaton) (state : Nat) : List Symbol → Except MissingTransition (List Nat)
  | [] => .ok []
  | s :: rest => do
    let next ← a.step state s
    return next :: (← a.trail next rest)

/-- The extended rule of a production recognised from a state.  The synthetic start production is
never reduced; its exit is the state that accepts. -/
def extendedRule (a : Automaton) (state : Nat) (p : Production) :
    Except MissingTransition ExtendedRule := do
  let path ← a.trail state p.symbols
  let exit ←
    if p.name = startSymbol then pure (path.getLastD state) else a.step state p.name
  return ⟨p, state :: path ++ [exit]⟩

/-- The productions that can be recognised from a state: those of its items with nothing seen. -/
def freshProductions (items : List Item) : List Production :=
  (items.filter (·.pointer = 0)).map Item.production

/-- The extended grammar: a rule for every state and every production recognised from it. -/
def extendedRules (a : Automaton) : Except MissingTransition (List ExtendedRule) := do
  let perState ← a.itemSets.zipIdx.mapM fun (items, state) =>
    (freshProductions items).mapM (a.extendedRule state)
  return perState.flatten

end Automaton

end Lalr
