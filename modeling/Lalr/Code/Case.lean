import Lalr.Code.Expression

/-!
# Lalr.Code.Case

Reading the patterns that the cases of a statement are told apart by.  Every reader is given the reader
of the patterns nested inside it, and the knot is tied up to a depth of nesting.  Of a pattern only the
form matters here.
-/

namespace Lalr.Code

open Reading

namespace Case

/-! ## literals -/

/-- A number that is not too long. -/
def unsignedNumber : Reading Number := do
  match ← acceptIf fun | .number v => some v | _ => none with
  | some (.long _) => failure
  | some v => return v
  | none => failure

/-- A number, perhaps with a sign before it. -/
def signedNumber : Reading Number := do
  let _ ← sign "-"
  unsignedNumber

/-- A number, or a real number and an imaginary one with a sign between. -/
def number : Reading Unit := do
  let first ← signedNumber
  let signed ← if ← sign "+" then pure true else sign "-"
  if signed then
    if first = .imaginary || (← unsignedNumber) ≠ .imaginary then failure

/-- A name that something is given, which is not the one that stands for anything. -/
def capture : Reading Unit := do
  if (← name) = "_" then failure

variable (nested : Nested)

/-- A literal, if one comes; whether there was one. -/
def literal : Reading Bool := do
  match ← peek with
  | some (.number _) | some (.sign "-") =>
    number
    return true
  | some (.text k s) =>
    let _ ← acceptIf some
    let _ ← nested.textRest k s
    return true
  | some (.keyword w) => if ["None", "True", "False"].contains w then keyword w else return false
  | _ => return false

/-! ## nested patterns -/

section

variable (inner : Reading Unit)

/-- A pattern, or a star with a name for what is left; whether there was a star. -/
def starred : Reading Bool := do
  if ← sign "*" then
    let _ ← name
    return true
  else
    inner
    return false

/-- Whether a pattern can begin with a lexeme, perhaps after a star. -/
def opens : Lexeme → Bool
  | .name _ | .number _ | .text _ _ => true
  | .keyword w => ["None", "True", "False"].contains w
  | .sign s => ["(", "[", "\x7b", "-", "*"].contains s
  | _ => false

/-- Patterns with commas between.  A star alone is none. -/
def sequence : Reading Unit := do
  let first ← starred inner
  let (_, comma) ← commaList first (starred inner) opens
  if first && !comma then failure

/-- Patterns between square brackets, after the opening one. -/
def listRest : Reading Unit := do
  if ← sign "]" then return ()
  let _ ← commaList (← starred inner) (starred inner) opens
  expect (.sign "]")

/-- Patterns between round brackets, after the opening one. -/
def tupleRest : Reading Unit := do
  if ← sign ")" then return ()
  sequence inner
  expect (.sign ")")

/-- A key with the pattern of its value.  A key is a literal or an attribute. -/
def entry : Reading Unit := do
  if !(← literal nested) then
    let _ ← name
    if (← many (after "." name)).isEmpty then failure
  expect (.sign ":")
  inner

/-- Entries up to the closing brace.  Two stars stand before the name for what is left, at the end. -/
def entriesFrom : Nat → Reading Unit
  | 0 => failure
  | fuel + 1 => do
    if ← sign "\x7d" then return ()
    if ← sign "**" then
      capture
      let _ ← sign ","
      expect (.sign "\x7d")
    else
      entry nested inner
      if ← sign "," then entriesFrom fuel else expect (.sign "\x7d")

/-- The patterns of attributes up to the closing bracket: by position, and then by name; `last` tells
whether the last one had a name.  Patterns by position are read as far as they go, so the name that
stands for anything is one of them if it comes behind them. -/
def attributesFrom : Nat → Option Bool → Reading Unit
  | 0, _ => failure
  | fuel + 1, last => do
    if ← sign ")" then return ()
    let named ← followedBy (.sign "=")
    if named then
      if (← name) = "_" && last = some false then failure
      let _ ← sign "="
    else if last = some true then failure
    inner
    if ← sign "," then attributesFrom fuel (some named) else expect (.sign ")")

/-- What may follow a name: the attributes that lead to a value or a class, and the patterns of an
instance.  The name that stands for anything stands alone. -/
def nameRest (id : String) : Reading Unit := do
  if id = "_" then return ()
  let _ ← many (after "." name)
  if ← sign "(" then attributesFrom inner ((← get).length + 1) none

/-- The smallest patterns. -/
def closed : Reading Unit := do
  if ← literal nested then return ()
  match ← acceptIf some with
  | some (.name id) => nameRest inner id
  | some (.sign "(") => tupleRest inner
  | some (.sign "[") => listRest inner
  | some (.sign "\x7b") => entriesFrom nested inner ((← get).length + 1)
  | _ => failure

/-- Patterns of which one must fit, and perhaps a name for what does. -/
def pattern : Reading Unit := do
  closed nested inner
  let _ ← many (after "|" (closed nested inner))
  let _ ← afterWord "as" capture

end

/-- Read a pattern that is nested no deeper than a bound. -/
def patternOfDepth : Nat → Reading Unit
  | 0 => failure
  | depth + 1 => pattern nested (patternOfDepth depth)

/-- The patterns of a case. -/
def patterns : Reading Unit := do sequence (patternOfDepth nested ((← get).length + 1))

end Case

end Lalr.Code
