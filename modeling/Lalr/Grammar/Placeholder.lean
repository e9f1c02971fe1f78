import Lalr.Text.Digit

/-!
# Lalr.Grammar.Placeholder

Positional placeholders in action code: a dollar sign and a run of decimal digits stand for the
value of the symbol with that number.  `pieces` cuts code into placeholders and plain characters;
checking and substitution both work on the pieces, so they see the same placeholders.
-/

namespace Lalr.Placeholder

/-- A part of action code: a plain character, or a placeholder with its digits. -/
inductive Piece where
  | plain (c : Char)
  | placeholder (digits : List Char)
deriving DecidableEq, Repr

/-- Cut code into pieces.  A dollar sign that no digit follows is plain. -/
def pieces : List Char → List Piece
  | [] => []
  | c :: rest =>
    if c = '$' && (rest.head?.any Text.isDigit) then
      .placeholder (rest.takeWhile Text.isDigit) :: pieces (rest.dropWhile Text.isDigit)
    else .plain c :: pieces rest
termination_by cs => cs.length
decreasing_by
  · have := (List.dropWhile_sublist (p := Text.isDigit) (l := rest)).length_le
    simp only [List.length_cons]; omega
  · simp only [List.length_cons, Nat.lt_add_one]

/-- The digits of every placeholder in a code, in order. -/
def occurrences (code : String) : List (List Char) :=
  (pieces code.toList).filterMap fun
    | .plain _ => none
    | .placeholder ds => some ds

/-- The name that stands for a placeholder in a rendered function. -/
def parameter (digits : List Char) : List Char := '_' :: digits

/-- The code of a piece with placeholders replaced by names. -/
def Piece.render : Piece → List Char
  | .plain c => [c]
  | .placeholder ds => parameter ds

/-- Replace every placeholder by the name that stands for it. -/
def substitute (code : List Char) : List Char := (pieces code).flatMap Piece.render

end Lalr.Placeholder
