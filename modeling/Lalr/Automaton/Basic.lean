import Lalr.Automaton.Closure

/-!
# Lalr.Automaton.Basic

The automaton of item sets.  A state is a closed set of items; its transition on a symbol leads to
the closure of its items moved past that symbol.  States are numbered breadth first in the order of
their discovery, from the closure of the start item, which is state 0.
-/

namespace Lalr

/-- The transitions of one state: target states by symbol, in order of discovery. -/
abbrev Transitions := Keyed Symbol Nat

/-- The item sets and the transitions between them, both by state number. -/
structure Automaton where
  itemSets : List (List Item)
  transitions : List Transitions
deriving Repr, Inhabited

namespace Automaton

/-- The number of states. -/
def size (a : Automaton) : Nat := a.itemSets.length

/-- The state a transition leads to. -/
def target? (a : Automaton) (state : Nat) (symbol : Symbol) : Option Nat :=
  (a.transitions[state]?).bind (·.get? symbol)

/-- The state a string of symbols leads to. -/
def walk? (a : Automaton) (state : Nat) : List Symbol → Option Nat
  | [] => some state
  | s :: rest => (a.target? state s).bind fun t => a.walk? t rest

/-! ## construction -/

/-- The number of a state with the same items, if there is one. -/
def number? (itemSets : List (List Item)) (items : List Item) : Option Nat :=
  itemSets.findIdx? (Item.sameItems items)

/-- Find or add the target of one transition, and record the transition. -/
def addTransition (ps : Productions) (found : List (List Item) × Transitions)
    (successor : Symbol × List Item) : List (List Item) × Transitions :=
  let items := Item.closure ps successor.2
  match number? found.1 items with
  | some target => (found.1, found.2.set successor.1 target)
  | none => (found.1 ++ [items], found.2.set successor.1 found.1.length)

/-- All transitions of a state with the given items, and the item sets with the states they add. -/
def expand (ps : Productions) (itemSets : List (List Item)) (items : List Item) :
    List (List Item) × Transitions :=
  (Item.successors items).entries.foldl (addTransition ps) (itemSets, ∅)

/-- Give transitions to the states that have none yet, in order; `transitions` holds those of the
states before them.  Every turn spends one unit of fuel. -/
def complete (ps : Productions) (fuel : Nat) (itemSets : List (List Item))
    (transitions : List Transitions) : Automaton :=
  match fuel, itemSets[transitions.length]? with
  | fuel + 1, some items =>
    let (itemSets, row) := expand ps itemSets items
    complete ps fuel itemSets (transitions ++ [row])
  | _, _ => ⟨itemSets, transitions⟩

/-- All items whose pointer lies within the start production or one of the productions: the items
that a state may hold. -/
def itemCount (ps : Productions) (start : Item) : Nat :=
  ps.values.flatten.foldr (fun p n => p.length + 1 + n) (start.production.length + 1)

/-- The automaton of a start item.  There are no more states than sets of items, so the fuel is
never spent. -/
def build (ps : Productions) (start : Item) : Automaton :=
  complete ps (Nat.pow 2 (itemCount ps start)) [Item.closure ps [start]] []

/-- The automaton of a start item of which the pointer has not been checked. -/
def build? (ps : Productions) (start : Item) : Except Item.PointerError Automaton :=
  if start.WellFormed then .ok (build ps start) else .error (.beyondEnd start)

end Automaton

end Lalr
