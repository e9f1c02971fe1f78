/-!
# Lalr.Lexer.Source

What a lexer reads from: a stream that is asked for one character at a time, and that may fail at
some of the requests and still answer later ones.
-/

namespace Lalr

/-- The answer to one request for a character. -/
inductive Read where
  | char (c : Char)
  /-- The request failed; the next one may not. -/
  | failure (message : String)
  /-- There are no more characters, and none will be asked for. -/
  | finish
deriving DecidableEq, Repr

/-- The answers to all requests, in order.  After them there are no more characters. -/
abbrev Source := List Read

/-- The source that is just a text. -/
def Source.ofString (s : String) : Source := s.toList.map .char

end Lalr
