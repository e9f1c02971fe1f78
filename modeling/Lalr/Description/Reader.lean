import Lalr.Construction
import Lalr.Description.Basic
import Lalr.Description.Format
import Lalr.Parser.Trace
import Lalr.Parser.Tree

/-!
# Lalr.Description.Reader

Reading descriptions.  The text is parsed by the machine with the table of the format, and the
description is read off the parse tree.
-/

namespace Lalr.Description

/-! ## from trees to descriptions -/

/-- The text of a leaf. -/
def leafText? : Tree → Option String
  | .leaf t => some t.text
  | .node _ _ => none

/-- The names of a list of names, in order. -/
def namesOf? : Tree → Option (List Symbol)
  | .node 17 [names, name] => do return (← namesOf? names) ++ [← leafText? name]
  | .node 18 [] => some []
  | _ => none

/-- An alternative. -/
def alternativeOf? : Tree → Option Alternative
  | .node 16 [names, code] => do return ⟨← namesOf? names, stripCode (← leafText? code)⟩
  | _ => none

/-- The alternatives of a rule, in order. -/
def alternativesOf? : Tree → Option (List Alternative)
  | .node 14 [alternative] => do return [← alternativeOf? alternative]
  | .node 15 [alternatives, _, alternative] => do
    return (← alternativesOf? alternatives) ++ [← alternativeOf? alternative]
  | _ => none

mutual

/-- A type. -/
def typeOf? : Tree → Option TypeName
  | .node 10 [name] => do return .simple (← leafText? name)
  | .node 11 [name, _, types, _] => do return .applied (← leafText? name) (← typesOf? types)
  | _ => none

/-- The types between commas. -/
def typesOf? : Tree → Option (List TypeName)
  | .node 12 [type] => do return [← typeOf? type]
  | .node 13 [types, _, type] => do return (← typesOf? types) ++ [← typeOf? type]
  | _ => none

end

/-- Whether a terminal is skipped. -/
def flagsOf? : Tree → Option Bool
  | .node 8 [_] => some true
  | .node 9 [] => some false
  | _ => none

/-- A declaration. -/
def declarationOf? : Tree → Option Declaration
  | .node 4 [_, code] => do return .header (stripCode (← leafText? code))
  | .node 5 [_, name, _] => do return .start (← leafText? name)
  | .node 6 [name, _, pattern, flags, _] => do
    return .terminal ⟨← leafText? name, unquote (← leafText? pattern), ← flagsOf? flags⟩
  | .node 7 [name, _, type, _, alternatives, _] => do
    return .rule (← leafText? name) (← typeOf? type) (← alternativesOf? alternatives)
  | _ => none

/-- The declarations, in order. -/
def declarationsOf? : Tree → Option (List Declaration)
  | .node 2 [declarations, declaration] => do
    return (← declarationsOf? declarations) ++ [← declarationOf? declaration]
  | .node 3 [] => some []
  | _ => none

/-- The description of a parse tree of the format. -/
def ofTree? : Tree → Option Description
  | .node 0 [.node 1 [_, name, _], declarations] => do
    return ⟨← leafText? name, ← declarationsOf? declarations⟩
  | _ => none

/-! ## reading -/

/-- Why a description cannot be read. -/
inductive ReadError where
  /-- The text is not in the format. -/
  | parse (e : ParseError)
  /-- The format itself cannot be parsed with. -/
  | unusable
deriving DecidableEq, Repr

/-- The wording of a reading error. -/
def ReadError.message : ReadError → String
  | .parse e => e.message
  | .unusable => "The description format cannot be read"

/-- The construction of the format's table. -/
def construction : Except BuildError Construction := Construction.ofGrammar format

/-- The format's terminals, ready for lexing. -/
def lexicon : Except Pattern.PatternError Lexicon := Lexicon.ofTerminals terminals

/-- Values for the format's rules. -/
def semantics : Semantics Id Tree := .tree rules.length

/-- Parse a description with the table and the terminals of the format, if they are at hand. -/
def parseWith (construction : Except BuildError Construction)
    (lexicon : Except Pattern.PatternError Lexicon) (source : Source) : Except ReadError Tree :=
  match construction, lexicon with
  | .ok c, .ok lexicon =>
    match (Parser.parseLexer c.table semantics (.start lexicon source)).run with
    | some (.ok tree) => .ok tree
    | some (.error e) => .error (.parse e)
    | none => .error .unusable
  | _, _ => .error .unusable

/-- Parse a description. -/
def parse (source : Source) : Except ReadError Tree := parseWith construction lexicon source

/-- The trace of the parse of a description. -/
def trace (source : Source) : List String :=
  match construction, lexicon with
  | .ok c, .ok lexicon => Parser.traceLexer c.table semantics (.start lexicon source)
  | _, _ => []

/-- Read the description of a grammar.  Malformed descriptions are refused; whether the grammar
makes sense is not looked at. -/
def read (source : Source) : Except ReadError Grammar := do
  match ofTree? (← parse source) with
  | some d => return d.toGrammar
  | none => .error .unusable

end Lalr.Description
