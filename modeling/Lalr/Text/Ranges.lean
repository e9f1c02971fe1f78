/-!
# Lalr.Text.Ranges

Classes of characters given by closed ranges of code points.
-/

namespace Lalr.Text

/-- What is said of the characters in a list is decided along the list, and not by trying every
character there is. -/
instance decidableForallMem (P : Char → Prop) [DecidablePred P] (s : List Char) :
    Decidable (∀ c ∈ s, P c) :=
  List.decidableBAll P s

/-- Whether a character lies in one of the ranges. -/
def within (ranges : List (Nat × Nat)) (c : Char) : Bool :=
  ranges.any fun r => r.1 ≤ c.toNat && c.toNat ≤ r.2

end Lalr.Text
