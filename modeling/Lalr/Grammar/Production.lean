import Lalr.Symbol

/-!
# Lalr.Grammar.Production

Productions, and items: productions with a pointer that marks how much of them has been seen.
-/

namespace Lalr

/-- A production: a nonterminal and the symbols it may be replaced by. -/
structure Production where
  name : Symbol
  symbols : List Symbol
deriving DecidableEq, Repr, Inhabited

namespace Production

/-- The production of a nonterminal with the given symbols; the empty production may also be
written as the marker of emptiness alone. -/
def of (name : Symbol) (symbols : List Symbol) : Production :=
  ⟨name, if symbols = [epsilon] then [] else symbols⟩

/-- The number of symbols. -/
def length (p : Production) : Nat := p.symbols.length

/-- The production as it is written, with the marker of emptiness if it has no symbols. -/
def text (p : Production) : String :=
  p.name ++ " -> " ++ if p.symbols.isEmpty then epsilon else " ".intercalate p.symbols

end Production

/-- A production with a pointer: the symbols before the pointer have been seen. -/
structure Item where
  production : Production
  pointer : Nat
deriving DecidableEq, Repr, Inhabited

namespace Item

/-- The production with nothing seen. -/
def fresh (p : Production) : Item := ⟨p, 0⟩

/-- The pointer lies within the production. -/
def WellFormed (i : Item) : Prop := i.pointer ≤ i.production.length

instance (i : Item) : Decidable i.WellFormed := inferInstanceAs (Decidable (_ ≤ _))

/-- Whether the whole production has been seen. -/
def atEnd (i : Item) : Bool := i.pointer == i.production.length

/-- The symbol after the pointer, if there is one. -/
def next? (i : Item) : Option Symbol := i.production.symbols[i.pointer]?

/-- The item with one more symbol seen. -/
def shifted (i : Item) : Item := { i with pointer := i.pointer + 1 }

/-- The item with nothing seen. -/
def rewind (i : Item) : Item := { i with pointer := 0 }

/-- The item with a star before the symbol after the pointer, or at the end. -/
def text (i : Item) : String :=
  let marked := i.production.symbols.zipIdx.map fun (s, n) => if n = i.pointer then "* " ++ s else s
  i.production.name ++ " -> " ++ " ".intercalate (if i.atEnd then marked ++ ["*"] else marked)

/-- Why the pointer of an item cannot be read or moved. -/
inductive PointerError where
  /-- The pointer lies beyond the end, so there is nothing it points at. -/
  | beyondEnd (item : Item)
  /-- Everything has been seen already. -/
  | exhausted (item : Item)
deriving DecidableEq, Repr

/-- The wording of a pointer error. -/
def PointerError.message : PointerError → String
  | .beyondEnd i => "The pointer lies beyond the end of " ++ i.text
  | .exhausted i => "Cannot advance past the end of " ++ i.text

/-- The symbol after the pointer, or nothing at the end; a pointer beyond the end is an error. -/
def pointed (i : Item) : Except PointerError (Option Symbol) :=
  if i.WellFormed then .ok i.next? else .error (.beyondEnd i)

/-- Move the pointer past one symbol.  Only an item that is exactly at its end refuses. -/
def advance (i : Item) : Except PointerError Item :=
  if i.atEnd then .error (.exhausted i) else .ok i.shifted

end Item

end Lalr
