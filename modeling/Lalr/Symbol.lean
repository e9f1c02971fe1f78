/-!
# Lalr.Symbol

Grammar symbols: terminals and nonterminals are told apart by where they are declared, never by
the shape of their names.  Three names belong to the construction itself: the marker that ends
every token stream, the synthetic start symbol and the marker of an empty production.
-/

namespace Lalr

/-- A terminal or a nonterminal, by name. -/
abbrev Symbol := String

/-- The end-of-stream marker: every token stream ends with exactly one of these. -/
def endMarker : Symbol := "$"

/-- The synthetic start symbol; its only production is the grammar's start rule. -/
def startSymbol : Symbol := "__start"

/-- The marker of emptiness: it stands for the empty production in text, and for "can vanish" in
a FIRST set. -/
def epsilon : Symbol := "__epsilon"

/-- Names a grammar may not declare: those that begin with two underscores, and the end marker. -/
def isReserved (name : Symbol) : Bool :=
  "__".toList.isPrefixOf name.toList || name == endMarker

end Lalr
