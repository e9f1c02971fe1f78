import Lalr.Pattern.CharClass

/-!
# Lalr.Pattern.Basic

Regular patterns over characters, and the language of a pattern.  `Matches p u` says that the
pattern `p` matches the text `u` in full; matching in the other modules is decided by residuals and
is about this relation.
-/

namespace Lalr

/-- A pattern.  A repetition without an upper bound has no `most`. -/
inductive Pattern where
  | empty
  | chars (k : Pattern.CharClass)
  | seq (a b : Pattern)
  | alt (a b : Pattern)
  | rep (body : Pattern) (least : Nat) (most : Option Nat)
deriving DecidableEq, Repr, Inhabited

namespace Pattern

/-- The language of a pattern. -/
inductive Matches : Pattern → List Char → Prop where
  | empty : Matches .empty []
  | chars {k : CharClass} {c : Char} (h : k.contains c = true) : Matches (.chars k) [c]
  | seq {a b : Pattern} {u v : List Char} (ha : Matches a u) (hb : Matches b v) :
    Matches (.seq a b) (u ++ v)
  | altLeft {a b : Pattern} {u : List Char} (h : Matches a u) : Matches (.alt a b) u
  | altRight {a b : Pattern} {u : List Char} (h : Matches b u) : Matches (.alt a b) u
  | rep {body : Pattern} {least : Nat} {most : Option Nat} {us : List (List Char)}
    (h : ∀ u ∈ us, Matches body u) (hl : least ≤ us.length)
    (hm : ∀ n, most = some n → us.length ≤ n) : Matches (.rep body least most) us.flatten

/-- One pattern after the other. -/
def followedBy (a b : Pattern) : Pattern :=
  if a = .empty then b else if b = .empty then a else .seq a b

/-- The alternation of some patterns; without any it is the pattern of the empty text. -/
def anyOf : List Pattern → Pattern
  | [] => .empty
  | [p] => p
  | p :: ps => .alt p (anyOf ps)

/-- Whether a pattern matches the empty text. -/
def nullable : Pattern → Bool
  | .empty => true
  | .chars _ => false
  | .seq a b => a.nullable && b.nullable
  | .alt a b => a.nullable || b.nullable
  | .rep body least most => most.all (least ≤ ·) && (least == 0 || body.nullable)

/-- The pattern without the parts that match no text; nothing if no text is left. -/
def prune : Pattern → Option Pattern
  | .empty => some .empty
  | .chars k => if k.isVoid then none else some (.chars k)
  | .seq a b => do return .seq (← a.prune) (← b.prune)
  | .alt a b =>
    match a.prune, b.prune with
    | some a, some b => some (.alt a b)
    | some a, none => some a
    | none, b => b
  | .rep body least most =>
    if most.any (· < least) then none
    else
      match body.prune with
      | some body => some (.rep body least most)
      | none => if least = 0 then some .empty else none

end Pattern

end Lalr
