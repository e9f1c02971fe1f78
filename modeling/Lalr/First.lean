import Lalr.Grammar.Basic
import Lalr.SymbolSet

/-!
# Lalr.First

FIRST sets: the terminals that can begin something derived from a symbol, with the marker of
emptiness if the symbol can vanish.  A terminal has itself.

The sets of nonterminals are grown from nothing, production by production, until a whole round adds
nothing.  Left recursion is no obstacle to that, and the rounds end because sets only grow.
-/

namespace Lalr

/-- FIRST sets by symbol: terminals in order of declaration, then nonterminals. -/
abbrev FirstSets := Keyed Symbol SymbolSet

/-- A symbol that has no FIRST set. -/
structure UnknownSymbol where
  symbol : Symbol
deriving DecidableEq, Repr

namespace FirstSets

/-- The FIRST set of a symbol, which must have one. -/
def ofSymbol (f : FirstSets) (s : Symbol) : Except UnknownSymbol SymbolSet :=
  match f.get? s with
  | some set => .ok set
  | none => .error ⟨s⟩

/-- The FIRST set of a string of symbols.  It has the marker of emptiness if all of them can
vanish.  Symbols behind one that cannot vanish are not looked at. -/
def ofSequence (f : FirstSets) : List Symbol → Except UnknownSymbol SymbolSet
  | [] => .ok (SymbolSet.ofList [epsilon])
  | s :: rest => do
    let first ← f.ofSymbol s
    if epsilon ∈ first then return (first.erase epsilon).union (← f.ofSequence rest)
    else return first

/-- Whether a symbol can vanish. -/
def nullable (f : FirstSets) (s : Symbol) : Except UnknownSymbol Bool := do
  return epsilon ∈ (← f.ofSymbol s)

/-- Add what one production contributes to the set of its nonterminal. -/
def addProduction (name : Symbol) (f : FirstSets) (p : Production) :
    Except UnknownSymbol FirstSets := do
  let first ← f.ofSequence p.symbols
  return f.update name ∅ (·.union first)

/-- Add what every production contributes. -/
def round (ps : Productions) (f : FirstSets) : Except UnknownSymbol FirstSets :=
  ps.entries.foldlM (fun f e => e.2.foldlM (addProduction e.1) f) f

/-- Run rounds until one changes nothing, or the fuel is spent. -/
def saturate (ps : Productions) : Nat → FirstSets → Except UnknownSymbol FirstSets
  | 0, f => .ok f
  | fuel + 1, f => do
    let g ← round ps f
    if g = f then return f else saturate ps fuel g

/-- The sets before the first round: a terminal has itself, a nonterminal nothing. -/
def initial (ps : Productions) (terminals : List Symbol) : FirstSets :=
  let ofTerminals : FirstSets := Keyed.ofList (terminals.map fun t => (t, SymbolSet.ofList [t]))
  ps.keys.foldl (fun f name => f.set name ∅) ofTerminals

/-- The FIRST sets of a grammar.  Every round but the last adds a terminal or the marker to the set
of some nonterminal, so the fuel is never spent. -/
def ofGrammar (ps : Productions) (terminals : List Symbol) : Except UnknownSymbol FirstSets :=
  saturate ps (ps.size * (terminals.length + 1) + 1) (initial ps terminals)

/-- The sets as text, a line each; a symbol whose set is just itself is left out. -/
def text (f : FirstSets) : String :=
  "\n".intercalate <| (f.entries.filter fun e => e.2 ≠ SymbolSet.ofList [e.1]).map fun e =>
    "FIRST(" ++ e.1 ++ ") = " ++ e.2.text

end FirstSets

end Lalr
