import Lalr.Code.Literal
import Lalr.Text.Lines

/-!
# Lalr.Code.Lexeme

Cutting code of the action language into lexemes.  Lines end statements, except inside brackets and
after a backslash; the margin of a line opens and closes blocks.  Comments and blank lines count for
nothing.
-/

namespace Lalr.Code

/-- A lexeme of the action language. -/
inductive Lexeme where
  | name (id : String)
  | keyword (word : String)
  | number (value : Number)
  /-- Quoted text of some kind. -/
  | text (kind : Quotation) (value : String)
  | sign (s : String)
  | newline
  | indent
  | dedent
deriving DecidableEq, Repr

/-- The reserved words. -/
def keywords : List String :=
  ["False", "None", "True", "and", "as", "assert", "async", "await", "break", "class", "continue",
   "def", "del", "elif", "else", "except", "finally", "for", "from", "global", "if", "import", "in",
   "is", "lambda", "nonlocal", "not", "or", "pass", "raise", "return", "try", "while", "with",
   "yield"]

/-- The signs of one, two and three characters. -/
def signs : List (List Char) :=
  ["**=", "//=", ">>=", "<<=", "...", "**", "//", ">>", "<<", "<=", ">=", "==", "!=", "->", "+=",
   "-=", "*=", "/=", "%=", "&=", "|=", "^=", "@=", ":=", "+", "-", "*", "/", "%", "@", "&", "|",
   "^", "~", "<", ">", "(", ")", "[", "]", "\x7b", "\x7d", ",", ":", ".", ";", "="].map String.toList

/-- The longest sign at the start of a text. -/
def readSign (s : List Char) : Option (List Char) := signs.find? (·.isPrefixOf s)

/-! ## words -/

/-- A decimal digit that is a variant of an ASCII digit counts as that digit in names. -/
def plainDigit (c : Char) : Char :=
  let n := c.toNat
  if 0xff10 ≤ n && n ≤ 0xff19 then Char.ofNat (n - 0xff10 + 0x30)
  else if 0x1d7ce ≤ n && n ≤ 0x1d7ff then Char.ofNat ((n - 0x1d7ce) % 10 + 0x30)
  else if 0x1fbf0 ≤ n && n ≤ 0x1fbf9 then Char.ofNat (n - 0x1fbf0 + 0x30)
  else c

/-- The lexeme of a word: a keyword or a name. -/
def wordLexeme (word : List Char) : Option Lexeme :=
  let s := String.ofList word
  if keywords.contains s then some (.keyword s)
  else if Text.isIdentifier word then some (.name (String.ofList (word.map plainDigit)))
  else none

/-- Quoted text of a kind, after its first quote. -/
def readText (k : Quotation) (q : Char) (s : List Char) : Option (Lexeme × List Char) := do
  let (content, rest) ← readQuoted q s
  return (.text k (String.ofList (← contentValue k content)), rest)

/-- A word, or quoted text that a word announces. -/
def readWord (s : List Char) : Option (Lexeme × List Char) :=
  let word := s.takeWhile isWordPart
  let rest := s.dropWhile isWordPart
  match rest, quotation? word with
  | '\'' :: after, some k => readText k '\'' after
  | '"' :: after, some k => readText k '"' after
  | _, _ => do return (← wordLexeme word, rest)

/-! ## margins and brackets -/

/-- The width of a margin, with tabs to the next multiple of eight, and its width with tabs that
count as one.  Lines whose margins cannot be compared both ways are refused. -/
structure Margin where
  width : Nat
  narrow : Nat
deriving DecidableEq, Repr

/-- The margin of a line, and what stands behind it.  A form feed starts the margin anew.  A line may
be continued inside its margin; the first margin before a backslash, if not empty, is then the one
that counts. -/
def readMargin (m : Margin) (first : Nat) : List Char → Margin × List Char
  | ' ' :: rest => readMargin ⟨m.width + 1, m.narrow + 1⟩ first rest
  | '\t' :: rest => readMargin ⟨(m.width / 8 + 1) * 8, m.narrow + 1⟩ first rest
  | '\x0c' :: rest => readMargin ⟨0, 0⟩ first rest
  | '\\' :: '\n' :: c :: rest => readMargin m (if first = 0 then m.width else first) (c :: rest)
  | rest => (if first = 0 then m else ⟨first, first⟩, rest)

/-- The blocks that a line closes, by its margin: the dedent lexemes and the open blocks after it. -/
def closeBlocks (m : Margin) : List Margin → Option (List Lexeme × List Margin)
  | [] => if m = ⟨0, 0⟩ then some ([], []) else none
  | top :: outer =>
    if m.width < top.width then do
      let (lexemes, blocks) ← closeBlocks m outer
      return (.dedent :: lexemes, blocks)
    else if m = top then some ([], top :: outer)
    else none

/-- The blocks that a line opens or closes. -/
def changeBlocks (m : Margin) (blocks : List Margin) : Option (List Lexeme × List Margin) :=
  let top := blocks.headD ⟨0, 0⟩
  if top.width < m.width then
    if top.narrow < m.narrow ∧ blocks.length < 99 then some ([.indent], m :: blocks) else none
  else closeBlocks m blocks

/-- The brackets that are open after a sign. -/
def changeBrackets (closers : List Char) (sign : List Char) : Option (List Char) :=
  match sign with
  | ['('] => if closers.length < 200 then some (')' :: closers) else none
  | ['['] => if closers.length < 200 then some (']' :: closers) else none
  | ['\x7b'] => if closers.length < 200 then some ('\x7d' :: closers) else none
  | [c] =>
    if c = ')' || c = ']' || c = '\x7d' then
      match closers with
      | top :: outer => if top = c then some outer else none
      | [] => none
    else some closers
  | _ => some closers

/-! ## the whole text -/

/-- A comment's line ending and what follows. -/
def skipComment (s : List Char) : List Char := s.dropWhile (· ≠ '\n')

/-- One lexeme inside a line that is neither a line ending nor blank, and the brackets that are open
after it. -/
def readLexeme (closers : List Char) (c : Char) (rest : List Char) :
    Option (Lexeme × List Char × List Char) :=
  if c = '\'' || c = '"' then do
    let (t, rest) ← readText ⟨false, false, false⟩ c rest
    return (t, rest, closers)
  else if c.isDigit || (c = '.' && rest.head?.any Char.isDigit) then do
    let (value, rest) ← readNumber (c :: rest)
    return (.number value, rest, closers)
  else if isWordPart c then do
    let (t, rest) ← readWord (c :: rest)
    return (t, rest, closers)
  else do
    let sign ← readSign (c :: rest)
    return (.sign (String.ofList sign), (c :: rest).drop sign.length, ← changeBrackets closers sign)

/-- Cut text into lexemes: `blocks` holds the margins of the open blocks and `closers` what closes the
open brackets; `fresh` tells whether a line begins.  Every turn takes a character off, so fuel for
each of them is enough. -/
def lexemesFrom (fuel : Nat) (blocks : List Margin) (closers : List Char) (fresh : Bool)
    (s : List Char) : Option (List Lexeme) :=
  match fuel with
  | 0 => none
  | fuel + 1 =>
    if fresh && closers.isEmpty then
      let (m, rest) := readMargin ⟨0, 0⟩ 0 s
      match rest with
      | [] => some (blocks.map fun _ => .dedent)
      | '\n' :: rest => lexemesFrom fuel blocks closers true rest
      | '#' :: rest => lexemesFrom fuel blocks closers true (skipComment rest)
      | rest => do
        let (change, blocks) ← changeBlocks m blocks
        return change ++ (← lexemesFrom fuel blocks closers false rest)
    else
      match s with
      | [] => if closers.isEmpty then some (blocks.map fun _ => .dedent) else none
      | '\n' :: rest =>
        if closers.isEmpty then do return .newline :: (← lexemesFrom fuel blocks closers true rest)
        else lexemesFrom fuel blocks closers false rest
      | '#' :: rest => lexemesFrom fuel blocks closers false (skipComment rest)
      | '\\' :: '\n' :: c :: rest => lexemesFrom fuel blocks closers false (c :: rest)
      | c :: rest =>
        if c = ' ' || c = '\t' || c = '\x0c' then lexemesFrom fuel blocks closers false rest
        else do
          let (t, rest, closers) ← readLexeme closers c rest
          return t :: (← lexemesFrom fuel blocks closers false rest)

/-- The lexemes of a text whose line endings are newlines; nothing if it cannot be cut into lexemes. -/
def lexemes (s : List Char) : Option (List Lexeme) :=
  if s.contains '\x00' then none else lexemesFrom (2 * s.length + 2) [] [] true s

/-- The lexemes of an expression. -/
def expressionLexemes (s : List Char) : Option (List Lexeme) := lexemes (Text.plainNewlines s)

/-- The lexemes of a block of statements; its last line needs no ending. -/
def blockLexemes (s : List Char) : Option (List Lexeme) :=
  let s := Text.plainNewlines s
  lexemes (if s.getLast? = some '\n' then s else s ++ ['\n'])

end Lalr.Code
