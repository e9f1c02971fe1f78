import Lalr.Code.Lexeme

/-!
# Lalr.Code.Reading

Readers that take lexemes off the front of a list.  A reader that fails takes nothing, and its
alternative starts where it started.
-/

namespace Lalr.Code

/-- A reader of something at the front of a list of lexemes. -/
abbrev Reading (α : Type) := StateT (List Lexeme) Option α

namespace Reading

variable {α : Type}

/-- The first lexeme that is left. -/
def peek : Reading (Option Lexeme) := return (← get).head?

/-- Whether the lexeme after the first is the given one. -/
def followedBy (t : Lexeme) : Reading Bool := return (← get)[1]? = some t

/-- Take a lexeme, if it comes first; whether it did. -/
def accept (t : Lexeme) : Reading Bool := do
  if (← peek) = some t then
    modify (·.drop 1)
    return true
  else return false

/-- Take a lexeme that must come first. -/
def expect (t : Lexeme) : Reading Unit := do
  if ← accept t then return () else failure

/-- Take the first lexeme if it satisfies a test. -/
def acceptIf (p : Lexeme → Option α) : Reading (Option α) := do
  match (← peek).bind p with
  | some a =>
    modify (·.drop 1)
    return some a
  | none => return none

/-- A name. -/
def name : Reading String := do
  match ← acceptIf fun | .name id => some id | _ => none with
  | some id => return id
  | none => failure

/-- Take a sign, if it comes first. -/
def sign (s : String) : Reading Bool := accept (.sign s)

/-- Take a keyword, if it comes first. -/
def keyword (w : String) : Reading Bool := accept (.keyword w)

/-- Repeat a reader until it gives nothing, at most as often as the fuel. -/
def manyFor (p : Reading (Option α)) : Nat → Reading (List α)
  | 0 => return []
  | fuel + 1 => do
    match ← p with
    | some a => return a :: (← manyFor p fuel)
    | none => return []

/-- Repeat a reader that takes a lexeme each time, until it gives nothing. -/
def many (p : Reading (Option α)) : Reading (List α) := do manyFor p (← get).length

/-- Read on after a sign. -/
def after (s : String) (p : Reading α) : Reading (Option α) := do
  if ← sign s then return some (← p) else return none

/-- Read on after a keyword. -/
def afterWord (w : String) (p : Reading α) : Reading (Option α) := do
  if ← keyword w then return some (← p) else return none

/-- One thing or more, with commas between. -/
def commaSeparated (p : Reading α) : Reading (List α) := do
  let first ← p
  return first :: (← many (after "," p))

/-- The signs that an expression or a starred one can begin with. -/
def openingSigns : List String := ["(", "[", "\x7b", "-", "+", "~", "*", "..."]

/-- The keywords that an expression can begin with. -/
def openingWords : List String := ["None", "True", "False", "not", "lambda", "await"]

/-- Whether a lexeme can begin an item of a list with commas between. -/
def opensItem : Lexeme → Bool
  | .name _ | .number _ | .text _ _ => true
  | .keyword w => openingWords.contains w
  | .sign s => openingSigns.contains s
  | _ => false

/-- Things with commas between, and perhaps a comma at the end, after a first one; whether there was
a comma. -/
def commaList (first : α) (p : Reading α) (opens : Lexeme → Bool := opensItem) :
    Reading (List α × Bool) := do
  let more ← many do
    if (← peek) = some (.sign ",") && ((← get)[1]?.any opens) then
      let _ ← sign ","
      return some (← p)
    else return none
  let trailing ← sign ","
  return (first :: more, trailing || !more.isEmpty)

end Reading

/-- Read all of a list of lexemes. -/
def readAll {α : Type} (p : Reading α) (lexemes : List Lexeme) : Option α :=
  match p.run lexemes with
  | some (a, []) => some a
  | _ => none

end Lalr.Code
