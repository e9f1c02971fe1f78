import Lalr.Text.Blank
import Lalr.Text.Digit
import Lalr.Text.WordChar

/-!
# Lalr.Pattern.CharClass

Character classes: what a pattern says about a single character.
-/

namespace Lalr.Pattern

/-- A member of a class: a range of code points, or one of the named classes or its complement. -/
inductive ClassItem where
  | range (lo hi : Nat)
  | digit (positive : Bool)
  | space (positive : Bool)
  | word (positive : Bool)
deriving DecidableEq, Repr

/-- Whether a member covers a character. -/
def ClassItem.contains (c : Char) : ClassItem → Bool
  | .range lo hi => lo ≤ c.toNat && c.toNat ≤ hi
  | .digit positive => Text.isDigit c == positive
  | .space positive => Text.isWhiteSpace c == positive
  | .word positive => Text.isWordChar c == positive

/-- The member that covers one code point. -/
def ClassItem.single (n : Nat) : ClassItem := .range n n

/-- A class: the characters that some member covers, or if it is negated all others. -/
structure CharClass where
  negated : Bool
  items : List ClassItem
deriving DecidableEq, Repr

namespace CharClass

/-- The class of one code point. -/
def single (n : Nat) : CharClass := ⟨false, [.single n]⟩

/-- The class of all characters but the newline. -/
def notNewline : CharClass := ⟨true, [.single 0xa]⟩

/-- Whether a class covers a character. -/
def contains (k : CharClass) (c : Char) : Bool := k.items.any (·.contains c) != k.negated

/-! ## classes without characters -/

/-- The code points from `start` on that lie in none of some ranges, which ascend by their lower
ends. -/
def gaps (start : Nat) : List (Nat × Nat) → List (Nat × Nat)
  | [] => if start ≤ 0x10ffff then [(start, 0x10ffff)] else []
  | (lo, hi) :: rest =>
    if start < lo then (start, lo - 1) :: gaps (max start (hi + 1)) rest
    else gaps (max start (hi + 1)) rest

/-- The code points outside some ranges. -/
def complement (ranges : List (Nat × Nat)) : List (Nat × Nat) :=
  gaps 0 (ranges.mergeSort fun a b => a.1 ≤ b.1)

/-- The code points of a named class or its complement. -/
def signed (positive : Bool) (ranges : List (Nat × Nat)) : List (Nat × Nat) :=
  if positive then ranges else complement ranges

/-- The code points that a member covers. -/
def itemRanges : ClassItem → List (Nat × Nat)
  | .range lo hi => [(lo, hi)]
  | .digit positive => signed positive Text.digitRanges
  | .space positive => signed positive Text.whiteSpaceRanges
  | .word positive => signed positive Text.wordRanges

/-- The code points that a class covers. -/
def ranges (k : CharClass) : List (Nat × Nat) := signed (!k.negated) (k.items.flatMap itemRanges)

/-- Whether a range of code points has no characters: it is empty, lies among the surrogates or
beyond the last character. -/
def isVoidRange (r : Nat × Nat) : Bool :=
  r.2 < r.1 || (0xd800 ≤ r.1 && r.2 ≤ 0xdfff) || 0x10ffff < r.1

/-- Whether a class covers no character at all. -/
def isVoid (k : CharClass) : Bool := k.ranges.all isVoidRange

end CharClass

end Lalr.Pattern
