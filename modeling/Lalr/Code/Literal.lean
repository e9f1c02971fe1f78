import Lalr.Text.Hex
import Lalr.Text.Identifier

/-!
# Lalr.Code.Literal

Literals of the action language: numbers, and the content of quoted text.
-/

namespace Lalr.Code

/-! ## numbers -/

/-- The most decimal digits that numbers are read from or written with. -/
def maxDigits : Nat := 4300

/-- A number.  Only whole numbers have a value here. -/
inductive Number where
  | whole (n : Nat)
  /-- A whole number with more decimal digits than code may have. -/
  | long (n : Nat)
  /-- A number with a point or an exponent. -/
  | fraction
  | imaginary
deriving DecidableEq, Repr

namespace Number

/-- Whether a number is whole. -/
def isWhole : Number → Bool
  | .whole _ | .long _ => true
  | _ => false

/-- The value of a whole number. -/
def value? : Number → Option Nat
  | .whole n | .long n => some n
  | _ => none

end Number

/-- A character that may stand inside a word; which words are names is looked at later. -/
def isWordPart (c : Char) : Bool := c.isAlphanum || c = '_' || 0x80 ≤ c.toNat

/-- The keywords that may follow a number without a space between. -/
def wordsAfterNumber : List (List Char) :=
  ["and", "else", "for", "if", "in", "is", "not", "or"].map String.toList

/-- Whether a number may end before a text. -/
def endsNumber (rest : List Char) : Bool :=
  match rest with
  | [] => true
  | c :: _ => !isWordPart c || wordsAfterNumber.any (·.isPrefixOf rest)

/-- Digits, with single underscores between them, at the start of a text.  An underscore that no
digit follows makes the number malformed. -/
def readDigits (isDigit : Char → Bool) : List Char → Option (List Char × List Char)
  | [] => some ([], [])
  | '_' :: c :: rest =>
    if isDigit c then do
      let (ds, rest) ← readDigits isDigit rest
      return (c :: ds, rest)
    else none
  | c :: rest =>
    if isDigit c then do
      let (ds, rest) ← readDigits isDigit rest
      return (c :: ds, rest)
    else if c = '_' then none
    else some ([], c :: rest)

/-- The number that digits below a base spell. -/
def valueOf (base : Nat) (ds : List Char) : Nat :=
  ds.foldl (fun n d => base * n + (Text.hexValue? d).getD 0) 0

/-- The whole number that decimal digits spell.  Zeros count for nothing if they come first. -/
def Number.ofDigits (ds : List Char) : Number :=
  if ds.head? = some '0' || ds.length ≤ maxDigits then .whole (valueOf 10 ds)
  else .long (valueOf 10 ds)

/-- A number with the digits of a base, after its announcing letter. -/
def readBased (base : Nat) (s : List Char) : Option (Number × List Char) := do
  let isDigit (c : Char) : Bool := (Text.hexValue? c).any (· < base)
  let (ds, rest) ← readDigits isDigit s
  if ds.isEmpty || !endsNumber rest || rest.head?.any Char.isDigit then none
  else return (.whole (valueOf base ds), rest)

/-- An exponent, if there is one; whether there was tells the first component. -/
def readExponent (s : List Char) : Option (Bool × List Char) :=
  match s with
  | e :: rest =>
    if e = 'e' || e = 'E' then
      let (signed, body) : Bool × List Char :=
        match rest with
        | '+' :: r => (true, r)
        | '-' :: r => (true, r)
        | r => (false, r)
      if body.head?.any Char.isDigit then do
        let (_, rest) ← readDigits Char.isDigit body
        return (true, rest)
      else if signed then none
      else some (false, s)
    else some (false, s)
  | [] => some (false, [])

/-- What may follow the digits before or after a point: an exponent and the mark of imaginary
numbers.  The value is kept only if neither is there. -/
def readTail (value : Number) (s : List Char) : Option (Number × List Char) := do
  let (scaled, rest) ← readExponent s
  let value := if scaled then .fraction else value
  match rest with
  | c :: rest' =>
    if c = 'j' || c = 'J' then if endsNumber rest' then some (.imaginary, rest') else none
    else if endsNumber rest then some (value, rest)
    else none
  | [] => some (value, [])

/-- The part of a number after its point. -/
def readFraction (s : List Char) : Option (Number × List Char) := do
  if s.head?.any Char.isDigit then
    let (_, rest) ← readDigits Char.isDigit s
    readTail .fraction rest
  else readTail .fraction s

/-- A number that begins with a decimal digit.  The digits of a whole number may begin with zeros only
if all of them are zeros. -/
def readDecimal (s : List Char) : Option (Number × List Char) := do
  let (ds, rest) ← readDigits Char.isDigit s
  let padded := ds.head? = some '0' && ds.any (· ≠ '0')
  match rest with
  | '.' :: rest => readFraction rest
  | rest =>
    let (value, rest) ← readTail (.ofDigits ds) rest
    if value.isWhole && padded then none else some (value, rest)

/-- Read a number at the start of a text. -/
def readNumber (s : List Char) : Option (Number × List Char) :=
  match s with
  | '.' :: rest => readFraction rest
  | '0' :: c :: rest =>
    if c = 'x' || c = 'X' then readBased 16 rest
    else if c = 'o' || c = 'O' then readBased 8 rest
    else if c = 'b' || c = 'B' then readBased 2 rest
    else readDecimal s
  | _ => readDecimal s

/-! ## quoted text -/

/-- The kinds of quoted text, told by the letters before the quote. -/
structure Quotation where
  raw : Bool
  bytes : Bool
  formatted : Bool
deriving DecidableEq, Repr

/-- The kind of quoted text that a word before a quote announces. -/
def quotation? (word : List Char) : Option Quotation :=
  let w := String.ofList (word.map Char.toLower)
  if w = "" || w = "u" then some ⟨false, false, false⟩
  else if w = "r" then some ⟨true, false, false⟩
  else if w = "b" then some ⟨false, true, false⟩
  else if w = "f" then some ⟨false, false, true⟩
  else if w = "rb" || w = "br" then some ⟨true, true, false⟩
  else if w = "rf" || w = "fr" then some ⟨true, false, true⟩
  else none

/-- The content up to a single quote on the same line, and the text behind it. -/
def untilQuote (q : Char) : List Char → Option (List Char × List Char)
  | [] => none
  | '\\' :: c :: rest => do
    let (content, rest) ← untilQuote q rest
    return ('\\' :: c :: content, rest)
  | c :: rest =>
    if c = q then some ([], rest)
    else if c = '\n' then none
    else do
      let (content, rest) ← untilQuote q rest
      return (c :: content, rest)

/-- The content up to three quotes, and the text behind them. -/
def untilTriple (q : Char) : List Char → Option (List Char × List Char)
  | [] => none
  | '\\' :: c :: rest => do
    let (content, rest) ← untilTriple q rest
    return ('\\' :: c :: content, rest)
  | c :: rest =>
    if c = q && [q, q].isPrefixOf rest then some ([], rest.drop 2)
    else do
      let (content, rest) ← untilTriple q rest
      return (c :: content, rest)

/-- The content of quoted text after its first quote. -/
def readQuoted (q : Char) (s : List Char) : Option (List Char × List Char) :=
  if [q, q].isPrefixOf s then untilTriple q (s.drop 2) else untilQuote q s

/-- The letters of escapes for one character. -/
def simpleEscape? (c : Char) : Option (List Char) :=
  if c = '\n' then some []
  else if c = '\\' || c = '\'' || c = '"' then some [c]
  else if c = 'a' then some ['\x07']
  else if c = 'b' then some ['\x08']
  else if c = 'f' then some ['\x0c']
  else if c = 'n' then some ['\n']
  else if c = 'r' then some ['\r']
  else if c = 't' then some ['\t']
  else if c = 'v' then some ['\x0b']
  else none

/-- The number of digits after the letter of an escape by code point. -/
def codeWidth? (bytes : Bool) (c : Char) : Option Nat :=
  if c = 'x' then some 2
  else if bytes then none
  else if c = 'u' then some 4
  else if c = 'U' then some 8
  else none

/-- An octal digit. -/
def isOctal (c : Char) : Bool := '0' ≤ c && c ≤ '7'

/-- A character of the names of characters. -/
def isCharNamePart (c : Char) : Bool := c.isAlphanum || c = ' ' || c = '-'

/-- Skip the name of a character between braces.  Which names there are is not known here. -/
def skipCharName : List Char → Option (List Char)
  | '\x7b' :: rest =>
    match rest.dropWhile isCharNamePart with
    | '\x7d' :: after => if (rest.takeWhile isCharNamePart).isEmpty then none else some after
    | _ => none
  | _ => none

/-- Resolve the escapes in the content of quoted text; `skip` characters belong to an escape that
has been resolved.  A backslash before any other character stands for itself. -/
def unescape (bytes : Bool) (skip : Nat) : List Char → Option (List Char)
  | [] => some []
  | c :: rest =>
    match skip with
    | skip + 1 => unescape bytes skip rest
    | 0 =>
      if c ≠ '\\' then do return c :: (← unescape bytes 0 rest)
      else
        match rest with
        | [] => some ['\\']
        | e :: more =>
          match simpleEscape? e, codeWidth? bytes e with
          | some cs, _ => do return cs ++ (← unescape bytes 1 rest)
          | none, some width => do
            let digits := more.take width
            let n ← Text.readHex? digits
            if digits.length ≠ width || 0x110000 ≤ n then none
            else return Char.ofNat n :: (← unescape bytes (1 + width) rest)
          | none, none =>
            if isOctal e then do
              let digits := (rest.take 3).takeWhile isOctal
              return Char.ofNat (valueOf 8 digits) :: (← unescape bytes digits.length rest)
            else if e = 'N' && !bytes then do
              let after ← skipCharName more
              return '\ufffd' :: (← unescape bytes (1 + (more.length - after.length)) rest)
            else do return '\\' :: (← unescape bytes 0 rest)

/-- The value of the content of quoted text.  Formatted text is kept as it is written. -/
def contentValue (k : Quotation) (content : List Char) : Option (List Char) :=
  if k.bytes && content.any (0x80 ≤ ·.toNat) then none
  else if k.raw || k.formatted then some content
  else unescape k.bytes 0 content

end Lalr.Code
