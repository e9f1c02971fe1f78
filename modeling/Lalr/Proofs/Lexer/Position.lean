import Lalr.Lexer.Token
import Mathlib.Data.List.DropRight

/-!
# Lalr.Proofs.Lexer.Position

Positions are kept by going on from character to character.  `Position.of` tells where one comes to
after some text by looking at the text as a whole: how long it is, how many newlines it has, and how
much stands after the last of them.  The two agree (`Position.after_of`).
-/

namespace Lalr.Position

/-- The place after a text that begins at the start of the source. -/
def of (before : List Char) : Position :=
  ⟨before.length, before.count '\n' + 1, (before.rtakeWhile (· ≠ '\n')).length + 1⟩

@[simp] theorem offset_of (before : List Char) : (of before).offset = before.length := rfl

theorem of_nil : of [] = start := rfl

theorem after_append (p : Position) (u v : List Char) : p.after (u ++ v) = (p.after u).after v :=
  List.foldl_append

/-- One more character. -/
theorem next_of (before : List Char) (c : Char) : (of before).next c = of (before ++ [c]) := by
  by_cases h : c = '\n'
  · subst h
    simp [next, of, List.rtakeWhile_concat_neg]
  · simp [next, of, h, List.rtakeWhile_concat_pos]

/-- Going on from a place is the same as starting over with the whole text. -/
theorem after_of (before u : List Char) : (of before).after u = of (before ++ u) := by
  induction u generalizing before with
  | nil => rw [List.append_nil]; rfl
  | cons c u ih =>
      rw [after, List.foldl_cons, next_of, ← after, ih, List.append_assoc, List.singleton_append]

end Lalr.Position
