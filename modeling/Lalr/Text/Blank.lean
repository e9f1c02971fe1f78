import Lalr.Text.Ranges

/-!
# Lalr.Text.Blank

Two classes of blank characters.  `isWhiteSpace` is the property that patterns mean by white space;
`isBlank` has the four information separators besides, and is what stripping removes.
-/

namespace Lalr.Text

/-- The characters with the property of being white space. -/
def whiteSpaceRanges : List (Nat × Nat) :=
  [(0x9, 0xd), (0x20, 0x20), (0x85, 0x85), (0xa0, 0xa0), (0x1680, 0x1680), (0x2000, 0x200a),
   (0x2028, 0x2029), (0x202f, 0x202f), (0x205f, 0x205f), (0x3000, 0x3000)]

/-- White space, as patterns understand it. -/
def isWhiteSpace (c : Char) : Bool := within whiteSpaceRanges c

/-- White space or one of the four information separators U+001C to U+001F. -/
def isBlank (c : Char) : Bool := isWhiteSpace c || (0x1c ≤ c.toNat && c.toNat ≤ 0x1f)

/-- The list without the characters at its end that satisfy the test. -/
def dropEndWhile (p : Char → Bool) (cs : List Char) : List Char := (cs.reverse.dropWhile p).reverse

/-- The list without the characters at either end that satisfy the test. -/
def trim (p : Char → Bool) (cs : List Char) : List Char := dropEndWhile p (cs.dropWhile p)

/-- Whether a text has only blank characters. -/
def isBlankText (s : String) : Bool := s.toList.all isBlank

end Lalr.Text
