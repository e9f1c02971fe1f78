import Lalr.Symbol

/-!
# Lalr.Lexer.Token

Positions in a source, and tokens: the name of a terminal, the text it matched and where that text
begins.
-/

namespace Lalr

/-- A place in a source: characters before it, line and column.  Lines and columns count from one. -/
structure Position where
  offset : Nat
  line : Nat
  column : Nat
deriving DecidableEq, Repr, Inhabited

namespace Position

/-- The start of a source. -/
def start : Position := ⟨0, 1, 1⟩

/-- The line and the column, as messages show a place. -/
def text (p : Position) : String := toString p.line ++ ":" ++ toString p.column

/-- The place after one more character. -/
def next (p : Position) (c : Char) : Position :=
  if c = '\n' then ⟨p.offset + 1, p.line + 1, 1⟩ else ⟨p.offset + 1, p.line, p.column + 1⟩

/-- The place after some text. -/
def after (p : Position) (cs : List Char) : Position := cs.foldl next p

end Position

/-- A token. -/
structure Token where
  name : Symbol
  text : String
  position : Position
deriving DecidableEq, Repr, Inhabited

/-- The token that ends every stream. -/
def Token.ending (p : Position) : Token := ⟨endMarker, "", p⟩

end Lalr
