import Lalr.Pattern.Basic

/-!
# Lalr.Pattern.Residual

Matching by residuals.  After some text has been read, a list of patterns tells how the text may go
on; the list is empty exactly if it may not.  Reading a character replaces every pattern by the
patterns of what may follow that character.
-/

namespace Lalr.Pattern

/-- What may follow a character: the text goes on with a match of one of these patterns. -/
def residuals (c : Char) : Pattern → List Pattern
  | .empty => []
  | .chars k => if k.contains c then [.empty] else []
  | .seq a b =>
    (residuals c a).map (·.followedBy b) ++ if a.nullable then residuals c b else []
  | .alt a b => residuals c a ++ residuals c b
  | .rep body least most =>
    if most.any (fun n => n = 0 ∨ n < least) then []
    else
      (residuals c body).map (·.followedBy (.rep body (least - 1) (most.map (· - 1))))

/-- How a text may go on: with a match of any of these patterns. -/
structure Residue where
  patterns : List Pattern
deriving DecidableEq, Repr

namespace Residue

/-- Before any text: a match of the whole pattern. -/
def ofPattern (p : Pattern) : Residue := ⟨[p]⟩

/-- The same without the parts that match no text, so that no pattern of it is void, now or after
any text. -/
def ofPruned (p : Pattern) : Residue := ⟨p.prune.toList⟩

/-- What may come after one more character. -/
def step (r : Residue) (c : Char) : Residue := ⟨(r.patterns.flatMap (residuals c)).eraseDups⟩

/-- What may come after a text. -/
def run (r : Residue) (u : List Char) : Residue := u.foldl step r

/-- Whether the text may end here. -/
def accepts (r : Residue) : Bool := r.patterns.any Pattern.nullable

/-- Whether the text may go on to a match, or is one, when no pattern is void. -/
def alive (r : Residue) : Bool := !r.patterns.isEmpty

end Residue

/-- Whether a pattern matches a text in full. -/
def fullMatch (p : Pattern) (u : List Char) : Bool := ((Residue.ofPattern p).run u).accepts

/-- Whether a text is the beginning of one that the pattern matches. -/
def partialMatch (p : Pattern) (u : List Char) : Bool := ((Residue.ofPruned p).run u).alive

end Lalr.Pattern
