import Lalr.Text.Blank

/-!
# Lalr.Text.Lines

Cutting text into lines, and shifting blocks of lines.  There are two notions of a line: lines that
end at a newline only, by which a block's common margin is removed, and lines that end at any line
boundary (returns, vertical tabs, form feeds, separators), by which a block is indented.
-/

namespace Lalr.Text

/-! ## lines at any boundary -/

/-- A character that ends a line.  A return followed by a newline is one boundary. -/
def isLineBoundary (c : Char) : Bool :=
  within [(0xa, 0xd), (0x1c, 0x1e), (0x85, 0x85), (0x2028, 0x2029)] c

/-- Cut a text into lines, each with its boundary; `line` holds the current line, last character
first. -/
def linesFrom (line : List Char) : List Char → List (List Char)
  | [] => if line.isEmpty then [] else [line.reverse]
  | '\r' :: '\n' :: rest => ('\n' :: '\r' :: line).reverse :: linesFrom [] rest
  | c :: rest =>
    if isLineBoundary c then (c :: line).reverse :: linesFrom [] rest else linesFrom (c :: line) rest

/-- The lines of a text, each with its boundary; only the last may lack one. -/
def lines (cs : List Char) : List (List Char) := linesFrom [] cs

/-- Begin every line that is not blank with a margin. -/
def indent (margin : List Char) (cs : List Char) : List Char :=
  ((lines cs).map fun line => if line.all isBlank then line else margin ++ line).flatten

/-! ## lines at newlines -/

/-- Cut a text at its newlines, which are dropped; `line` holds the current line, last character
first. -/
def splitFrom (line : List Char) : List Char → List (List Char)
  | [] => [line.reverse]
  | '\n' :: rest => line.reverse :: splitFrom [] rest
  | c :: rest => splitFrom (c :: line) rest

/-- The pieces of a text between its newlines. -/
def splitNewlines (cs : List Char) : List (List Char) := splitFrom [] cs

/-- Join pieces with newlines. -/
def joinNewlines (pieces : List (List Char)) : List Char := List.intercalate ['\n'] pieces

/-- Turn every return, and every return with a newline after it, into a newline. -/
def plainNewlines : List Char → List Char
  | [] => []
  | '\r' :: '\n' :: rest => '\n' :: plainNewlines rest
  | '\r' :: rest => '\n' :: plainNewlines rest
  | c :: rest => c :: plainNewlines rest

/-- A space or a tab: what a margin may consist of. -/
def isMargin (c : Char) : Bool := c == ' ' || c == '\t'

/-- The longest common start of two lists. -/
def commonStart : List Char → List Char → List Char
  | a :: as, b :: bs => if a = b then a :: commonStart as bs else []
  | _, _ => []

/-- The longest common start of the margins of a list of lines; nothing for no lines. -/
def commonMargin : List (List Char) → List Char
  | [] => []
  | line :: rest => rest.foldl (fun m l => commonStart m (l.takeWhile isMargin)) (line.takeWhile isMargin)

/-- Empty the lines that hold spaces and tabs only, and remove the margin that all other lines
share. -/
def dedent (cs : List Char) : List Char :=
  let pieces := (splitNewlines cs).map fun l => if l.all isMargin then [] else l
  let margin := commonMargin (pieces.filter (!·.isEmpty))
  joinNewlines (pieces.map (·.drop margin.length))

end Lalr.Text
