import Lalr.Lexer.Basic

/-!
# Lalr.Parser.Supply

Where a parser's tokens come from: a list of tokens, or a lexer that is asked for one token at a
time.  Either way the parser sees exactly one ending token, and sees it last.
-/

namespace Lalr

/-- The answer to the request for a token. -/
inductive Pull where
  | token (t : Token)
  | error (e : LexError)
  /-- The ending token was given out before. -/
  | exhausted
deriving DecidableEq, Repr

/-- A way to get tokens from a state. -/
structure Supply (σ : Type) where
  next : σ → Pull × σ

namespace Supply

/-- The tokens of a list up to the first ending token.  A list without one gets it where its last
token begins, or at the start if it has none. -/
def terminated (last : Position) : List Token → List Token
  | [] => [.ending last]
  | t :: rest => if t.name = endMarker then [t] else t :: terminated t.position rest

/-- Tokens from a list that has its ending token. -/
def ofTokens : Supply (List Token) where
  next
    | [] => (.exhausted, [])
    | t :: rest => (.token t, rest)

/-- Tokens from a lexer, on demand; there is no lexer any more once the ending token was given
out. -/
def ofLexer : Supply (Option Lexer) where
  next
    | none => (.exhausted, none)
    | some l =>
      match l.next with
      | (.error e, l) => (.error e, some l)
      | (.ok t, l) => (.token t, if t.name = endMarker then none else some l)

end Supply

end Lalr
