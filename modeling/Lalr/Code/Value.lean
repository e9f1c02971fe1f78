import Lalr.Code.Literal
import Lalr.Lexer.Token
import Lalr.Text.Blank
import Lalr.Text.Digit
import Lalr.Text.Quoted

/-!
# Lalr.Code.Value

The values of the action language: what can be told about a single value or two of them, and what a
value is written as.  Truth values count as the numbers zero and one wherever a number is wanted.
-/

namespace Lalr.Code

/-- A function that is always there. -/
inductive Builtin where
  | int | len | str
deriving DecidableEq, Repr

/-- A value. -/
inductive Value where
  | absent
  | bool (b : Bool)
  | int (n : Int)
  | text (s : String)
  | list (items : List Value)
  | tuple (items : List Value)
  /-- Entries in the order of their keys' first insertion. -/
  | dict (entries : List (Value × Value))
  | token (t : Lalr.Token)
  | position (p : Position)
  | builtin (f : Builtin)
deriving Repr, Inhabited

/-- Why an evaluation fails. -/
inductive EvalError where
  /-- A value is of a kind that an operation is not for. -/
  | wrongKind
  /-- A text is no numeral, or a numeral has too many digits. -/
  | badNumeral
  /-- A slice has a step of zero. -/
  | zeroStep
  /-- A name has no value. -/
  | unknownName (id : String)
  /-- A name of a function has no value yet. -/
  | unboundName (id : String)
  | unknownAttribute (name : String)
  | outOfRange
  | missingKey (key : Value)
  | divisionByZero
  /-- Well formed, and beyond what is evaluated. -/
  | unsupported
deriving Repr, Inhabited

namespace Value

/-- The number that a value is. -/
def number? : Value → Option Int
  | .bool b => some (if b then 1 else 0)
  | .int n => some n
  | _ => none

/-- Whether a value counts as true. -/
def isTrue : Value → Bool
  | .absent => false
  | .bool b => b
  | .int n => n ≠ 0
  | .text s => !s.isEmpty
  | .list items => !items.isEmpty
  | .tuple items => !items.isEmpty
  | .dict entries => !entries.isEmpty
  | _ => true

/-! ## equality and order -/

mutual

/-- Whether two values are equal: numbers by what they are, lists and tuples by their items, and
dictionaries whatever the order of their entries. -/
def equal : Value → Value → Bool
  | .absent, w => match w with | .absent => true | _ => false
  | .bool b, w => w.number? = some (if b then 1 else 0)
  | .int n, w => w.number? = some n
  | .text s, w => match w with | .text t => s = t | _ => false
  | .list vs, w => match w with | .list ws => equalItems vs ws | _ => false
  | .tuple vs, w => match w with | .tuple ws => equalItems vs ws | _ => false
  | .dict es, w => match w with | .dict fs => es.length = fs.length && hasEntries fs es | _ => false
  | .token t, w => match w with | .token u => t = u | _ => false
  | .position p, w => match w with | .position q => p = q | _ => false
  | .builtin f, w => match w with | .builtin g => f = g | _ => false

/-- Whether two lists have equal items. -/
def equalItems : List Value → List Value → Bool
  | [], ws => ws.isEmpty
  | v :: vs, ws => match ws with | w :: ws => equal v w && equalItems vs ws | [] => false

/-- Whether a dictionary has all of some entries. -/
def hasEntries (fs : List (Value × Value)) : List (Value × Value) → Bool
  | [] => true
  | (k, v) :: es => fs.any (fun f => equal k f.1 && equal v f.2) && hasEntries fs es

end

mutual

/-- Whether one value comes before another: numbers and texts by themselves, lists and tuples by
the first items that differ. -/
def less : Value → Value → Except EvalError Bool
  | .bool b, w =>
    match w.number? with
    | some m => .ok ((if b then 1 else 0 : Int) < m)
    | none => .error .wrongKind
  | .int n, w => match w.number? with | some m => .ok (n < m) | none => .error .wrongKind
  | .text s, w => match w with | .text t => .ok (s.toList < t.toList) | _ => .error .wrongKind
  | .list vs, w => match w with | .list ws => lessItems vs ws | _ => .error .wrongKind
  | .tuple vs, w => match w with | .tuple ws => lessItems vs ws | _ => .error .wrongKind
  | _, _ => .error .wrongKind

/-- Whether one list of items comes before another. -/
def lessItems : List Value → List Value → Except EvalError Bool
  | [], ws => .ok !ws.isEmpty
  | v :: vs, ws =>
    match ws with
    | [] => .ok false
    | w :: ws => if equal v w then lessItems vs ws else less v w

end

mutual

/-- Whether a value can be a key: lists and dictionaries cannot, nor tuples with such items. -/
def isKey : Value → Bool
  | .list _ => false
  | .dict _ => false
  | .tuple items => areKeys items
  | _ => true

/-- Whether all values can be keys. -/
def areKeys : List Value → Bool
  | [] => true
  | v :: vs => isKey v && areKeys vs

end

/-! ## values as text -/

/-- A position with the names of its parts. -/
def positionText (p : Position) : String :=
  "Position(offset=" ++ toString p.offset ++ ", line=" ++ toString p.line ++ ", column=" ++
    toString p.column ++ ")"

/-- A token with the names of its parts. -/
def tokenText (t : Lalr.Token) : String :=
  "TokenValue(name=" ++ Text.quote t.name ++ ", text=" ++ Text.quote t.text ++ ", position=" ++
    positionText t.position ++ ")"

/-- A builtin function. -/
def builtinText : Builtin → String
  | .int => "<class 'int'>"
  | .len => "<built-in function len>"
  | .str => "<class 'str'>"

mutual

/-- A value as it stands inside another. -/
def repr : Value → String
  | .absent => "None"
  | .bool b => if b then "True" else "False"
  | .int n => toString n
  | .text s => Text.quote s
  | .list items => "[" ++ ", ".intercalate (reprs items) ++ "]"
  | .tuple items =>
    match reprs items with
    | [s] => "(" ++ s ++ ",)"
    | ss => "(" ++ ", ".intercalate ss ++ ")"
  | .dict entries => "\x7b" ++ ", ".intercalate (entryReprs entries) ++ "\x7d"
  | .token t => tokenText t
  | .position p => positionText p
  | .builtin f => builtinText f

/-- Items as they stand inside a value. -/
def reprs : List Value → List String
  | [] => []
  | v :: vs => repr v :: reprs vs

/-- Entries as they stand inside a dictionary. -/
def entryReprs : List (Value × Value) → List String
  | [] => []
  | (k, v) :: es => (repr k ++ ": " ++ repr v) :: entryReprs es

end

/-- A value as a text: a text is itself, and a position shows its line and column. -/
def plain : Value → String
  | .text s => s
  | .position p => p.text
  | v => repr v

/-! ## numerals -/

/-- Digits with single underscores between them. -/
def digitsOf : List Char → Option (List Char)
  | [] => none
  | [c] => if Text.isDigit c then some [c] else none
  | c :: '_' :: rest => if Text.isDigit c then (digitsOf rest).map (c :: ·) else none
  | c :: rest => if Text.isDigit c then (digitsOf rest).map (c :: ·) else none

/-- The number that a text spells: digits of any script, perhaps with a sign before them and white
space around. -/
def numeral? (s : String) : Option Int := do
  let (negative, body) :=
    match Text.trim Text.isWhiteSpace s.toList with
    | '-' :: rest => (true, rest)
    | '+' :: rest => (false, rest)
    | rest => (false, rest)
  let digits ← digitsOf body
  if maxDigits < digits.length then none
  else
    let n : Int := Text.numeral digits
    return if negative then -n else n

end Value

end Lalr.Code
