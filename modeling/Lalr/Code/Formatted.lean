import Lalr.Code.Lexeme

/-!
# Lalr.Code.Formatted

Formatted text.  Its fields stand in braces, and a brace that opens none is doubled.  A field has an
expression, and perhaps a conversion and a format, in which fields may stand once more.  Here the
expressions are found and everything around them is read; what the expressions are is looked at later.
-/

namespace Lalr.Code

/-! ## outside of fields -/

/-- Where a character outside of fields stands: after a backslash, after the letter that announces the
name of a character, in such a name, or somewhere else. -/
inductive PlainPlace where
  | plain | escaped | announced | named
deriving DecidableEq, Repr

/-- The place after one more character; nothing at a brace that opens or closes a field or is doubled. -/
def PlainPlace.next? (raw : Bool) (place : PlainPlace) (c : Char) : Option PlainPlace :=
  match place with
  | .named => some (if c = '\x7d' then .plain else .named)
  | .announced => some (if c = '\x7b' then .named else .plain)
  | .escaped =>
    if c = '\x7b' || c = '\x7d' then none else some (if c = 'N' then .announced else .plain)
  | .plain =>
    if c = '\x7b' || c = '\x7d' then none else some (if c = '\\' && !raw then .escaped else .plain)

/-- The text up to a brace that is no part of the name of a character, and what follows it. -/
def untilBrace (raw : Bool) (place : PlainPlace) : List Char → List Char × List Char
  | [] => ([], [])
  | c :: rest =>
    match place.next? raw c with
    | none => ([], c :: rest)
    | some place =>
      let (front, rest) := untilBrace raw place rest
      (c :: front, rest)

/-! ## expressions -/

/-- What is open inside an expression: brackets, by what closes them, and a quote, which may be three
quotes; and how many of the next characters belong to a sign that has been dealt with. -/
structure FieldScan where
  closers : List Char := []
  quote : Option (Char × Bool) := none
  skip : Nat := 0
deriving DecidableEq, Repr

/-- What a character is for the expression that it stands in. -/
inductive FieldStep where
  | inside (scan : FieldScan)
  /-- The expression has ended before. -/
  | behind
  /-- No expression of a field may have the character here. -/
  | refused
deriving DecidableEq, Repr

/-- Look at a character outside of quotes.  Outside of brackets, the signs that may follow an expression
end it, unless an equals sign makes comparisons of them. -/
def FieldScan.unquoted (scan : FieldScan) (c : Char) (rest : List Char) : FieldStep :=
  if c = '\'' || c = '"' then
    let triple := [c, c].isPrefixOf rest
    .inside { scan with quote := some (c, triple), skip := if triple then 2 else 0 }
  else if c = '#' then .refused
  else if scan.closers.isEmpty && "!:=<>\x7d".toList.contains c then
    if rest.head? = some '=' && c ≠ ':' && c ≠ '\x7d' then .inside { scan with skip := 1 }
    else if c = '<' || c = '>' then .inside scan
    else .behind
  else
    match changeBrackets scan.closers [c] with
    | some closers => .inside { scan with closers := closers }
    | none => .refused

/-- Look at a character of an expression. -/
def FieldScan.step (scan : FieldScan) (c : Char) (rest : List Char) : FieldStep :=
  if c = '\\' then .refused
  else
    match scan.skip, scan.quote with
    | skip + 1, _ => .inside { scan with skip := skip }
    | 0, none => scan.unquoted c rest
    | 0, some (q, triple) =>
      if c = q && (!triple || [q, q].isPrefixOf rest) then
        .inside { scan with quote := none, skip := if triple then 2 else 0 }
      else .inside scan

/-- The expression at the start of a field, and what follows it. -/
def untilFieldEnd (scan : FieldScan) : List Char → Option (List Char × List Char)
  | [] => none
  | c :: rest =>
    match scan.step c rest with
    | .inside scan => do
      let (text, rest) ← untilFieldEnd scan rest
      return (c :: text, rest)
    | .behind => some ([], c :: rest)
    | .refused => none

/-! ## fields -/

/-- Drop the sign that shows an expression in front of its value, and the blanks after it. -/
def dropShown : List Char → List Char
  | '=' :: rest => rest.dropWhile (" \t\n\x0b\x0c\r".toList.contains ·)
  | rest => rest

/-- Drop a conversion. -/
def dropConversion : List Char → Option (List Char)
  | '!' :: c :: rest => if "sra".toList.contains c then some rest else none
  | ['!'] => none
  | rest => some rest

/-- Read a field after its opening brace, given the reader of its format: its expression and those in
the format.  An expression is more than blanks. -/
def readField (format : List Char → Option (List (List Char) × List Char)) (s : List Char) :
    Option (List (List Char) × List Char) := do
  let (text, rest) ← untilFieldEnd {} s
  if text.all (" \t\n\x0c".toList.contains ·) then none
  let rest ← dropConversion (dropShown rest)
  let (inner, rest) ← match rest with
    | ':' :: rest => format rest
    | rest => some ([], rest)
  match rest with
  | '\x7d' :: rest => some (text :: inner, rest)
  | _ => none

/-- Read fields and the text between them: to the end, or inside a format to the brace that closes its
field.  Every turn takes a brace off, so fuel for each character is enough. -/
def readFields (raw : Bool) : Nat → Nat → List Char → Option (List (List Char) × List Char)
  | 0, _, _ => none
  | fuel + 1, level, s => do
    let (front, rest) := untilBrace raw .plain s
    if !raw && (unescape false 0 front).isNone then none
    match rest with
    | [] => some ([], [])
    | b :: rest =>
      if level = 0 && rest.head? = some b then readFields raw fuel level rest.tail
      else if b = '\x7d' then if level = 0 then none else some ([], b :: rest)
      else if 2 ≤ level then none
      else do
        let (first, rest) ← readField (readFields raw fuel (level + 1)) rest
        let (more, rest) ← readFields raw fuel level rest
        return (first ++ more, rest)

/-- The expressions in the content of formatted text.  Nothing comes back if it is malformed. -/
def fieldTexts (raw : Bool) (content : List Char) : Option (List (List Char)) := do
  let (texts, _) ← readFields raw (content.length + 1) 0 content
  return texts

end Lalr.Code
