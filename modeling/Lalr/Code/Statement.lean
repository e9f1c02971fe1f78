import Lalr.Code.Case
import Lalr.Code.Expression

/-!
# Lalr.Code.Statement

Reading statements.  As with expressions, every reader is given the reader for the blocks nested
inside it, and the knot is tied up to a depth of nesting.
-/

namespace Lalr.Code

open Reading

/-- The readers that statements are made of: expressions, the places that loops assign to, and the
blocks inside compound statements. -/
structure Statements where
  nested : Nested
  primary : Reading Expr
  block : Reading (List Stmt)

namespace Statements

variable (r : Statements)

/-- An expression of a statement, or what a function gives on the way. -/
def value : Reading Expr := do
  if ← keyword "yield" then r.nested.yieldRest else r.nested.bare

/-! ## simple statements -/

/-- The signs that assign after an operation. -/
def updateSigns : List String :=
  ["+=", "-=", "*=", "/=", "//=", "%=", "@=", "&=", "|=", "^=", ">>=", "<<=", "**="]

/-- Take a sign that assigns after an operation, if it comes first. -/
def updateSign : Reading Bool := do
  let s ← acceptIf fun
    | .sign s => if updateSigns.contains s then some s else none
    | _ => none
  return s.isSome

/-- Whether an expression can stand before an assignment sign; it may be starred. -/
def isAssignable : Expr → Bool
  | .starred e => e.isTarget
  | e => e.isTarget

/-- What may follow an expression at the start of a statement. -/
def assignment (first : Expr) : Reading Stmt := do
  if ← sign ":" then
    if !first.isPlace then failure
    let _ ← r.nested.expression
    let _ ← after "=" r.value
    return .other
  else if ← updateSign then
    if !first.isPlace then failure
    let _ ← r.value
    return .other
  else
    let more ← many (after "=" r.value)
    match (first :: more).reverse with
    | value :: target :: targets =>
      let targets := (target :: targets).reverse
      if targets.all isAssignable then return .assign targets value else failure
    | _ => return .evaluate first

/-- A name with dots, and perhaps another name for it. -/
def dottedName : Reading Unit := do
  let _ ← name
  let _ ← many (after "." name)

/-- Another name for what is imported, if it is given. -/
def otherName : Reading Unit := do
  let _ ← afterWord "as" name

/-- A name that is imported from a module, perhaps under another name. -/
def importedName : Reading Unit := do
  let _ ← name
  otherName

/-- The names that are imported from a module. -/
def importedNames : Reading Unit := do
  if ← sign "*" then return ()
  else if ← sign "(" then
    let _ ← commaList (← importedName) importedName
    expect (.sign ")")
  else
    let _ ← commaSeparated importedName

/-- An import from a module, after its keyword. -/
def importFrom : Reading Stmt := do
  let dots ← many (acceptIf fun
    | .sign "." => some ()
    | .sign "..." => some ()
    | _ => none)
  if dots.isEmpty || (← Nested.atName) then dottedName
  expect (.keyword "import")
  importedNames
  return .other

/-- A statement without a block. -/
def simple : Reading Stmt := do
  if ← keyword "pass" then return .pass
  if ← keyword "break" then return .other
  if ← keyword "continue" then return .other
  if ← keyword "return" then
    if (← peek).any opensItem then return .give (some (← r.nested.bare)) else return .give none
  if ← keyword "raise" then
    if (← peek).any opensItem then
      let _ ← r.nested.expression
      let _ ← afterWord "from" r.nested.expression
    return .other
  if ← keyword "global" then
    let _ ← commaSeparated name
    return .other
  if ← keyword "nonlocal" then
    let _ ← commaSeparated name
    return .other
  if ← keyword "del" then
    let targets ← Nested.bareTuple r.primary
    if targets.isRemovable then return .other else failure
  if ← keyword "assert" then
    let _ ← r.nested.expression
    let _ ← after "," r.nested.expression
    return .other
  if ← keyword "import" then
    let _ ← commaSeparated do
      dottedName
      otherName
    return .other
  if ← keyword "from" then importFrom
  else if ← keyword "yield" then
    let first ← r.nested.yieldRest
    r.assignment first
  else r.assignment (← r.nested.bare)

/-- Statements on one line, and its ending. -/
def line : Reading (List Stmt) := do
  let first ← r.simple
  let more ← many do
    if (← peek) = some (.sign ";") && (← get)[1]? ≠ some .newline then
      let _ ← sign ";"
      return some (← r.simple)
    else return none
  let _ ← sign ";"
  expect .newline
  return first :: more

/-! ## compound statements -/

/-- The block of a compound statement, after its colon. -/
def suite : Reading (List Stmt) := do
  expect (.sign ":")
  if ← accept .newline then
    expect .indent
    let body ← r.block
    expect .dedent
    return body
  else r.line

/-- A block after a keyword, if the keyword comes. -/
def suiteAfter (w : String) : Reading (Option (List Stmt)) := afterWord w r.suite

/-- A choice between blocks, after its keyword. -/
def conditional : Reading Stmt := do
  let branch : Reading (List Stmt) := do
    let _ ← r.nested.named
    r.suite
  let _ ← branch
  let _ ← many (afterWord "elif" branch)
  let _ ← r.suiteAfter "else"
  return .other

/-- A loop that runs while a condition holds, after its keyword. -/
def whileLoop : Reading Stmt := do
  let _ ← r.nested.named
  let _ ← r.suite
  let _ ← r.suiteAfter "else"
  return .other

/-- The targets of a loop or of a resource. -/
def targets : Reading Unit := do
  let target : Reading Expr := do
    if ← sign "*" then return .starred (← r.primary) else r.primary
  let e ← Nested.bareTuple target
  if isAssignable e then return () else failure

/-- A loop over items, after its keyword. -/
def forLoop : Reading Stmt := do
  r.targets
  expect (.keyword "in")
  let _ ← r.nested.bare
  let _ ← r.suite
  let _ ← r.suiteAfter "else"
  return .other

/-- One handler of failures: whether it handles groups. -/
def handler : Reading (Option Bool) := do
  if ← keyword "except" then
    let group ← sign "*"
    if group || (← peek) ≠ some (.sign ":") then
      let _ ← r.nested.expression
      otherName
    let _ ← r.suite
    return some group
  else return none

/-- The handlers of failures, which all handle groups or none does; whether there are any. -/
def handlers : Reading Bool := do
  let groups ← many r.handler
  if groups.contains true && groups.contains false then failure else return !groups.isEmpty

/-- A block whose failures are handled, after its keyword. -/
def attempt : Reading Stmt := do
  let _ ← r.suite
  let handled ← r.handlers
  if handled then
    let _ ← r.suiteAfter "else"
  let finished ← r.suiteAfter "finally"
  if handled || finished.isSome then return .other else failure

/-- A resource, and perhaps what it is assigned to. -/
def resource : Reading Unit := do
  let _ ← r.nested.expression
  let target : Reading Unit := do
    if isAssignable (← r.primary) then return () else failure
  let _ ← afterWord "as" target

/-- A block with resources, after its keyword.  They may stand in brackets. -/
def withBlock : Reading Stmt := do
  let bracketed : Reading Unit := do
    expect (.sign "(")
    let _ ← commaList (← r.resource) r.resource
    expect (.sign ")")
    if (← peek) = some (.sign ":") then return () else failure
  let plain : Reading Unit := do
    let _ ← commaSeparated r.resource
  bracketed <|> plain
  let _ ← r.suite
  return .other

/-- A function, after its keyword. -/
def function : Reading Stmt := do
  let id ← name
  expect (.sign "(")
  let ps ← r.nested.parameters true ")"
  expect (.sign ")")
  let _ ← after "->" r.nested.expression
  let body ← r.suite
  match ps with
  | some ps => return .define id ps body
  | none => return .other

/-- A class, after its keyword. -/
def classBlock : Reading Stmt := do
  let _ ← name
  if ← sign "(" then
    let _ ← r.nested.argumentsFrom ((← get).length + 1) .positional
  let _ ← r.suite
  return .other

/-- What cases are told apart of. -/
def subject : Reading Unit := do
  let first ← r.nested.item
  let (_, comma) ← commaList first r.nested.item
  if first.isStarred && !comma then failure

/-- A case: its patterns, perhaps a condition, and its block. -/
def caseBlock : Reading (Option Unit) := do
  if ← accept (.name "case") then
    Case.patterns r.nested
    let _ ← afterWord "if" r.nested.named
    let _ ← r.suite
    return some ()
  else return none

/-- A block of cases, after the word that begins it. -/
def matchBlock : Reading Stmt := do
  r.subject
  expect (.sign ":")
  expect .newline
  expect .indent
  if (← many r.caseBlock).isEmpty then failure
  expect .dedent
  return .other

/-- A block of cases, if one comes.  The word that begins it is no keyword, and what looks like a block
of cases may be another statement. -/
def perhapsMatch : Reading (Option Stmt) := do
  let cases : Reading (Option Stmt) := do
    expect (.name "match")
    return some (← r.matchBlock)
  cases <|> return none

/-- A compound statement; nothing if none begins here. -/
def compound : Reading (Option Stmt) := do
  if ← keyword "if" then return some (← r.conditional)
  if ← keyword "while" then return some (← r.whileLoop)
  if ← keyword "for" then return some (← r.forLoop)
  if ← keyword "try" then return some (← r.attempt)
  if ← keyword "with" then return some (← r.withBlock)
  if ← keyword "def" then return some (← r.function)
  if ← keyword "class" then return some (← r.classBlock)
  if ← keyword "async" then
    if ← keyword "def" then
      let _ ← r.function
    else if ← keyword "for" then
      let _ ← r.forLoop
    else do
      expect (.keyword "with")
      let _ ← r.withBlock
    return some .other
  if (← peek) = some (.sign "@") then
    let _ ← many (after "@" do
      let _ ← r.nested.named
      expect .newline)
    let _ ← keyword "async"
    if ← keyword "def" then
      let _ ← r.function
    else do
      expect (.keyword "class")
      let _ ← r.classBlock
    return some .other
  r.perhapsMatch

/-- The statements that begin on a line. -/
def statement : Reading (List Stmt) := do
  match ← r.compound with
  | some s => return [s]
  | none => r.line

/-- Statements up to the end of a block. -/
def statements : Reading (List Stmt) := do
  let all ← many do
    match ← peek with
    | none => return none
    | some .dedent => return none
    | some _ => return some (← r.statement)
  return all.flatten

end Statements

/-! ## whole texts -/

/-- A reader of blocks that are nested no deeper than a bound. -/
def blockOfDepth (nested : Nested) (primary : Reading Expr) : Nat → Reading (List Stmt)
  | 0 => failure
  | depth + 1 => (Statements.mk nested primary (blockOfDepth nested primary depth)).statements

/-- Read code as one expression, perhaps a tuple without brackets.  Nothing comes back if it is
none. -/
def readExpr (code : List Char) : Option Expr := do
  let lexemes ← expressionLexemes code
  let (nested, _) := readersOfDepth (lexemes.length + 1)
  let whole : Reading Expr := do
    let e ← Nested.bareTuple nested.expression
    let _ ← many (do return if ← accept .newline then some () else none)
    return e
  readAll whole lexemes

/-- Read code as a block of statements.  Nothing comes back if it is none. -/
def readBlock (code : List Char) : Option (List Stmt) := do
  let lexemes ← blockLexemes code
  let (nested, primary) := readersOfDepth (lexemes.length + 1)
  readAll (blockOfDepth nested primary (lexemes.length + 1)) lexemes

end Lalr.Code
