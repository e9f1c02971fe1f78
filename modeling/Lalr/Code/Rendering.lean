import Lalr.Code.Statement
import Lalr.Grammar.Basic
import Lalr.Grammar.Placeholder
import Lalr.Text.Lines
import Lalr.Text.Quoted

/-!
# Lalr.Code.Rendering

Action code as functions.  The code of a production becomes a function with one parameter for each
symbol.  An expression is wrapped in brackets and given; everything else is the body of the function
as it stands.  All that matters of the language of the code is what it takes for an expression and for
a block of statements, so rendering and checking work for any such language.
-/

namespace Lalr.Code

/-- What a language takes for an expression, and what for a block of statements. -/
structure Language where
  isExpression : List Char → Bool
  isBlock : List Char → Bool

/-- The action language, as far as it is read here. -/
def Language.readable : Language where
  isExpression code := (readExpr code).isSome
  isBlock code := (readBlock code).isSome

/-- The name of the function of a production. -/
def functionName (index : Nat) : String := "_action_" ++ toString index

/-- The parameter for the symbol with the given number. -/
def parameterName (i : Nat) : String := "_" ++ toString i

/-- The margin of a block. -/
def margin : List Char := "    ".toList

/-- Action code with its placeholders replaced by parameters, without margins and without blanks at
its ends. -/
def substituted (code : String) : List Char :=
  Placeholder.substitute (Text.trim Text.isBlank (Text.dedent code.toList))

/-- The body of the function for some code. -/
def bodyOf (code : List Char) (lang : Language := .readable) : List Char :=
  if lang.isExpression code then "return (\n".toList ++ Text.indent margin code ++ "\n)".toList
  else code

/-- The first line of the function of a production. -/
def headLine (index : Nat) (r : Rule) : List Char :=
  let parameters := (List.range r.production.length).map parameterName
  ("def " ++ functionName index ++ "(" ++ ", ".intercalate parameters ++ ") -> " ++
    Text.quote r.returns ++ ":").toList

/-- The function of a production.  A comment shows the production. -/
def renderAction (index : Nat) (r : Rule) (lang : Language := .readable) : List Char :=
  Text.joinNewlines
    [headLine index r, ("    # " ++ r.production.text).toList,
      Text.indent margin (bodyOf (substituted r.code) lang)]

/-- The functions of all productions of a grammar. -/
def renderActions (g : Grammar) (lang : Language := .readable) : List Char :=
  List.intercalate "\n\n\n".toList (g.rules.zipIdx.map fun e => renderAction e.2 e.1 lang)

/-! ## checking -/

/-- What is wrong with the code in a grammar. -/
inductive CodeError where
  /-- The header of the grammar with this name cannot be read. -/
  | header (name : String)
  /-- The code of a production cannot be read. -/
  | action (p : Production)
deriving DecidableEq, Repr

/-- The wording of an error, which leaves out what exactly is wrong. -/
def CodeError.message : CodeError → String
  | .header name => "The header of '" ++ name ++ "' is not valid Python"
  | .action p => "The action for '" ++ p.text ++ "' is not valid Python"

/-- The header of a grammar without the margin that its lines share. -/
def headerOf (g : Grammar) : List Char := Text.dedent g.header.toList

/-- Make sure that the header and every rendered action can be read, without running any. -/
def check (g : Grammar) (lang : Language := .readable) : Except CodeError Unit := do
  if !lang.isBlock (headerOf g) then throw (.header g.name)
  for (r, index) in g.rules.zipIdx do
    if !lang.isBlock (renderAction index r lang) then throw (.action r.production)

end Lalr.Code
