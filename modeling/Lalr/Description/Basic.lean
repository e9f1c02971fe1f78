import Lalr.Grammar.Basic
import Lalr.Text.Lines
import Lalr.Text.Replace

/-!
# Lalr.Description.Basic

Descriptions of grammars: a name and a list of declarations.  A declaration is a header, a start
rule, a terminal or the rules of a nonterminal.
-/

namespace Lalr

/-- A type: a name, or a name with types as arguments in brackets. -/
inductive TypeName where
  | simple (name : String)
  | applied (name : String) (arguments : List TypeName)
deriving Repr, Inhabited

/-- The types between commas. -/
def TypeName.texts : List TypeName → List String
  | [] => []
  | .simple name :: rest => name :: texts rest
  | .applied name arguments :: rest =>
    (name ++ "[" ++ ", ".intercalate (texts arguments) ++ "]") :: texts rest

/-- A type as it is written. -/
def TypeName.text : TypeName → String
  | .simple name => name
  | .applied name arguments => name ++ "[" ++ ", ".intercalate (texts arguments) ++ "]"

/-- One alternative of a rule: its symbols and its action code. -/
structure Alternative where
  symbols : List Symbol
  code : String
deriving DecidableEq, Repr, Inhabited

/-- A declaration. -/
inductive Declaration where
  | header (code : String)
  | start (name : Symbol)
  | terminal (t : Terminal)
  | rule (name : Symbol) (returns : TypeName) (alternatives : List Alternative)
deriving Repr, Inhabited

/-- A description. -/
structure Description where
  name : String
  declarations : List Declaration
deriving Repr, Inhabited

namespace Declaration

/-- The code of a header. -/
def header? : Declaration → Option String
  | .header code => some code
  | _ => none

/-- The name that a start declaration gives. -/
def start? : Declaration → Option Symbol
  | .start name => some name
  | _ => none

/-- The terminal that is declared. -/
def terminal? : Declaration → Option Terminal
  | .terminal t => some t
  | _ => none

/-- The nonterminal whose rules are declared. -/
def ruleName? : Declaration → Option Symbol
  | .rule name _ _ => some name
  | _ => none

/-- The rules that are declared, one for each alternative. -/
def rules : Declaration → List Rule
  | .rule name returns alternatives =>
    alternatives.map fun a => ⟨.of name a.symbols, a.code, returns.text⟩
  | _ => []

end Declaration

namespace Description

/-- The start rule: the last one declared, or else the first nonterminal with rules. -/
def start (d : Description) : Symbol :=
  match (d.declarations.filterMap Declaration.start?).getLast? with
  | some name => name
  | none => (d.declarations.findSome? Declaration.ruleName?).getD ""

/-- The grammar that is described. -/
def toGrammar (d : Description) : Grammar where
  rules := d.declarations.flatMap Declaration.rules
  terminals := d.declarations.filterMap Declaration.terminal?
  start := d.start
  name := d.name
  header := "\n\n".intercalate (d.declarations.filterMap Declaration.header?)

/-! ## quoted patterns and code blocks -/

/-- A text without its first and its last character. -/
def inner (cs : List Char) : List Char := (cs.drop 1).dropLast

/-- The pattern inside a quoted string.  A backslash and a quote stand for a quote; every other
backslash belongs to the pattern. -/
def unquote (text : String) : String :=
  String.ofList (Text.replaceChars ['\\', '"'] ['"'] (inner text.toList))

/-- The code inside braces, without the margin that its lines share.  Code of more than one line
should start on the line after the opening brace. -/
def stripCode (text : String) : String :=
  String.ofList (Text.trim Text.isBlank (Text.dedent (Text.trim (· == '\n') (inner text.toList))))

end Description

end Lalr
