import Lalr.Grammar.Production
import Lalr.Keyed

/-!
# Lalr.Grammar.Basic

A grammar: terminals with their patterns, productions with the action code that runs when they are
reduced, and the name of the rule to start from.  The place of a production in the list of rules is
its identity in tables and among compiled actions.
-/

namespace Lalr

/-- A token class: a name, a pattern, and whether the lexer drops what it matches. -/
structure Terminal where
  name : Symbol
  pattern : String
  skip : Bool := false
deriving DecidableEq, Repr, Inhabited

/-- A production with its action code and the name of the type which that code returns. -/
structure Rule where
  production : Production
  code : String
  returns : String
deriving DecidableEq, Repr, Inhabited

/-- The nonterminal a rule defines. -/
def Rule.name (r : Rule) : Symbol := r.production.name

/-- Productions by the nonterminal they define. -/
abbrev Productions := Keyed Symbol (List Production)

/-- A complete grammar.  The name and the header matter only to emitted modules: the header is code
that runs before any action. -/
structure Grammar where
  rules : List Rule
  terminals : List Terminal
  start : Symbol
  name : String := "grammar"
  header : String := ""
deriving DecidableEq, Repr, Inhabited

namespace Grammar

/-- The terminals that reach the parser, in order of declaration. -/
def terminalNames (g : Grammar) : List Symbol := (g.terminals.filter (!·.skip)).map Terminal.name

/-- The terminals that the lexer drops. -/
def skippedNames (g : Grammar) : List Symbol := (g.terminals.filter (·.skip)).map Terminal.name

/-- The bare productions, in order of declaration. -/
def productionList (g : Grammar) : List Production := g.rules.map Rule.production

/-- The productions by the nonterminal they define. -/
def productions (g : Grammar) : Productions :=
  g.productionList.foldl (fun m p => m.update p.name [] (· ++ [p])) ∅

/-- The nonterminals, in order of first definition. -/
def nonterminalNames (g : Grammar) : List Symbol := g.productions.keys

end Grammar

end Lalr
