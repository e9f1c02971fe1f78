import Lalr.Grammar.Basic
import Lalr.Grammar.Placeholder
import Lalr.Text.Blank

/-!
# Lalr.Grammar.Validity

The mistakes that would turn a grammar into a confusing table or none, and the check that names the
first of them.  The kinds of mistakes are looked for one after the other, each in order of
declaration.
-/

namespace Lalr

/-- A mistake in a grammar. -/
inductive GrammarError where
  /-- A declared name is reserved. -/
  | reservedName (name : Symbol)
  /-- A terminal is declared twice. -/
  | duplicateTerminal (name : Symbol)
  /-- A name is both a terminal and a nonterminal. -/
  | terminalAndRule (name : Symbol)
  /-- A production is declared twice. -/
  | duplicateProduction (production : Production)
  /-- The start rule has no production. -/
  | missingStart (start : Symbol)
  /-- A production refers to a terminal that the lexer drops. -/
  | skippedSymbol (production : Production) (symbol : Symbol)
  /-- A production refers to a name that is not declared. -/
  | undefinedSymbol (production : Production) (symbol : Symbol)
  /-- Two productions of one nonterminal return different types. -/
  | inconsistentReturns (first second : Rule)
  /-- A production has no action code. -/
  | emptyAction (production : Production)
  /-- A placeholder names a symbol that the production does not have. -/
  | placeholderOutOfRange (production : Production) (digits : List Char)
deriving DecidableEq, Repr

/-- The wording of a mistake. -/
def GrammarError.message : GrammarError → String
  | .reservedName name =>
    "'" ++ name ++ "' is a reserved name: names may not start with '__' or be '" ++ endMarker ++ "'"
  | .duplicateTerminal name => "The terminal '" ++ name ++ "' is declared twice"
  | .terminalAndRule name => "'" ++ name ++ "' is declared as both a terminal and a rule"
  | .duplicateProduction p => "The production '" ++ p.text ++ "' is declared twice"
  | .missingStart start => "No production defines the start rule '" ++ start ++ "'"
  | .skippedSymbol p symbol =>
    "'" ++ p.text ++ "' refers to '" ++ symbol ++
      "', which is skipped by the lexer and never reaches the parser"
  | .undefinedSymbol p symbol =>
    "'" ++ p.text ++ "' refers to '" ++ symbol ++ "', which is neither a terminal nor a rule"
  | .inconsistentReturns first second =>
    "'" ++ second.name ++ "' returns '" ++ first.returns ++ "' in '" ++ first.production.text ++
      "' but '" ++ second.returns ++ "' in '" ++ second.production.text ++ "'"
  | .emptyAction p => "'" ++ p.text ++ "' has no action code"
  | .placeholderOutOfRange p digits =>
    "The action for '" ++ p.text ++ "' refers to $" ++ String.ofList digits ++
      " but the production only has " ++ toString p.length ++ " symbol(s)"

/-- The first element of a list that also stands before its place. -/
def firstRepeat? {α : Type} [DecidableEq α] (before : List α) : List α → Option α
  | [] => none
  | x :: rest => if x ∈ before then some x else firstRepeat? (x :: before) rest

namespace Grammar

/-- A declared name that is reserved. -/
def reservedName? (g : Grammar) : Option GrammarError :=
  (g.terminals.map Terminal.name ++ g.nonterminalNames).find? isReserved |>.map .reservedName

/-- A terminal that is declared twice. -/
def duplicateTerminal? (g : Grammar) : Option GrammarError :=
  firstRepeat? [] (g.terminals.map Terminal.name) |>.map .duplicateTerminal

/-- A nonterminal that is also a terminal. -/
def terminalAndRule? (g : Grammar) : Option GrammarError :=
  g.nonterminalNames.find? (· ∈ g.terminals.map Terminal.name) |>.map .terminalAndRule

/-- A production that is declared twice. -/
def duplicateProduction? (g : Grammar) : Option GrammarError :=
  firstRepeat? [] g.productionList |>.map .duplicateProduction

/-- A start rule without productions. -/
def missingStart? (g : Grammar) : Option GrammarError :=
  if g.start ∈ g.nonterminalNames then none else some (.missingStart g.start)

/-- A production that refers to a symbol which the parser never sees. -/
def undefinedSymbol? (g : Grammar) : Option GrammarError :=
  g.productionList.findSome? fun p => p.symbols.findSome? fun s =>
    if s ∈ g.terminalNames ∨ s ∈ g.nonterminalNames then none
    else if s ∈ g.skippedNames then some (.skippedSymbol p s)
    else some (.undefinedSymbol p s)

/-- A production whose type differs from that of the first production of its nonterminal. -/
def inconsistentReturns? (g : Grammar) : Option GrammarError :=
  g.rules.findSome? fun r => do
    let first ← g.rules.find? (·.name = r.name)
    if first.returns = r.returns then none else some (.inconsistentReturns first r)

/-- A rule whose code is blank, or refers to a symbol that its production does not have. -/
def actionProblem? (r : Rule) : Option GrammarError :=
  if Text.isBlankText r.code then some (.emptyAction r.production)
  else
    (Placeholder.occurrences r.code).find? (fun ds => r.production.length ≤ Text.numeral ds)
      |>.map (.placeholderOutOfRange r.production)

/-- The first mistake in a grammar. -/
def mistake? (g : Grammar) : Option GrammarError :=
  g.reservedName? <|> g.duplicateTerminal? <|> g.terminalAndRule? <|> g.duplicateProduction? <|>
    g.missingStart? <|> g.undefinedSymbol? <|> g.inconsistentReturns? <|>
    g.rules.findSome? actionProblem?

/-- Check a grammar; the first mistake is the error. -/
def validate (g : Grammar) : Except GrammarError Unit :=
  match g.mistake? with
  | none => .ok ()
  | some e => .error e

end Grammar

end Lalr
