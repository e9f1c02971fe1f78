import Lalr.Code.Rendering
import Lalr.Module.Signature
import Lalr.Table.Literal

/-!
# Lalr.Module.Emission

Parsers as modules.  A module holds the terminals and the table as literals, one function for every
production, and a manual section at its end.  It is signed, and it is refused if its code cannot be
read.
-/

namespace Lalr

/-- A terminal as a constructor call with named arguments. -/
def Terminal.constructor (t : Terminal) : String :=
  "Terminal(name=" ++ Text.quote t.name ++ ", pattern=" ++ Text.quote t.pattern ++ ", skip=" ++
    (if t.skip then "True" else "False") ++ ")"

namespace Module

/-! ## data -/

/-- The lines of the list of terminals. -/
def terminalLines (ts : List Terminal) : List String :=
  "TERMINALS = [" :: ts.map (fun t => "    " ++ t.constructor ++ ",") ++ ["]"]

/-- The line of an entry of a table's row. -/
def entryLine (e : Symbol × Action) : String :=
  "            " ++ Text.quote e.1 ++ ": " ++ e.2.literal ++ ","

/-- The lines of a table's row, under a comment with its number. -/
def rowLines (e : Row × Nat) : List String :=
  ("        # " ++ toString e.2) :: "        \x7b" :: e.1.entries.map entryLine ++ ["        \x7d,"]

/-- The lines of a table. -/
def tableLines (t : Table) : List String :=
  "TABLE = ParseTable(" :: "    actions=[" :: t.rows.zipIdx.flatMap rowLines ++ ["    ]", ")"]

/-! ## the module -/

/-- The lines at the start of a module, after its signature line. -/
def openingLines (name : String) : List String :=
  ["\"\"\"Lexer and parser for the " ++ name ++ " grammar.",
   "",
   "Generated by lalrgen. Only the manual section at the end of the file survives",
   "regeneration; edits anywhere else will invalidate the signature.",
   "\"\"\"",
   "",
   "from lalrgen.generator import Accept, Goto, ParseTable, Reduce, Shift",
   "from lalrgen.grammar import Terminal",
   "from lalrgen.runtime import GeneratedParser",
   ""]

/-- The header of a grammar under a comment; nothing if there is none. -/
def headerLines (g : Grammar) : List String :=
  let header := Text.trim Text.isBlank (Code.headerOf g)
  if header.isEmpty then [] else ["# Grammar header", String.ofList header, ""]

/-- The functions of a grammar's productions; nothing if there are no productions. -/
def functionLines (g : Grammar) (lang : Code.Language := .readable) : List String :=
  if g.rules.isEmpty then [] else [String.ofList (Code.renderActions g lang), "", ""]

/-- The lines of the list of functions. -/
def listLines (g : Grammar) : List String :=
  "ACTIONS = [" :: (List.range g.rules.length).map (fun i => "    " ++ Code.functionName i ++ ",")
    ++ ["]"]

/-- The lines at the end of a module. -/
def closingLines : List String :=
  ["",
   "PARSER = GeneratedParser(TERMINALS, TABLE, ACTIONS)",
   "",
   "",
   "def parse(source):",
   "    \"\"\"Parse a string or text stream and return the value of the start rule.\"\"\"",
   "    return PARSER.parse(source)",
   "",
   "",
   String.ofList (manualSection "extras".toList [] []),
   ""]

/-- A module before it is signed. -/
def unsigned (g : Grammar) (t : Table) (lang : Code.Language := .readable) : List Char :=
  Text.joinNewlines <| signatureLine :: (openingLines g.name ++ headerLines g ++
    "" :: terminalLines g.terminals ++ "" :: tableLines t ++ ["", ""] ++ functionLines g lang ++
    listLines g ++ closingLines).map String.toList

/-- Why a module cannot be emitted. -/
inductive EmissionError where
  | code (e : Code.CodeError)
  | signature (e : SignatureError)
deriving DecidableEq, Repr

/-- The wording of an emission error. -/
def EmissionError.message : EmissionError → String
  | .code e => e.message
  | .signature e => e.message

/-- The module of a grammar and its table, signed. -/
def emit (g : Grammar) (t : Table) (lang : Code.Language := .readable) :
    Except EmissionError (List Char) := do
  (Code.check g lang).mapError .code
  (sign (unsigned g t lang)).mapError .signature

end Module

end Lalr
