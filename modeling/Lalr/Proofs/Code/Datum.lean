import Lalr.Code.Reading

/-!
# Lalr.Proofs.Code.Datum

Literals: texts, numbers and truth values, lists and dictionaries of literals, and calls of
constructors with literals as named arguments.  Code that is data is read without being evaluated.
-/

namespace Lalr.Code

open Reading

/-- What a literal stands for. -/
inductive Datum where
  | text (s : String)
  | number (n : Nat)
  | truth (b : Bool)
  | list (items : List Datum)
  | dict (entries : List (Datum × Datum))
  /-- A call of a constructor with named arguments. -/
  | record (constructor : String) (arguments : List (String × Datum))
deriving Repr, Inhabited

namespace Datum

/-! ## reading -/

/-- The literal that a lexeme is by itself. -/
def scalar? : Lexeme → Option Datum
  | .text ⟨_, false, false⟩ s => some (.text s)
  | .number v => v.value?.map .number
  | .keyword "True" => some (.truth true)
  | .keyword "False" => some (.truth false)
  | _ => none

/-- Things with commas between, and perhaps a comma at the end, up to a closing sign. -/
def itemsFrom {α : Type} (p : Reading α) (close : String) : Nat → Reading (List α)
  | 0 => failure
  | fuel + 1 => do
    if ← sign close then return []
    let a ← p
    if ← sign "," then return a :: (← itemsFrom p close fuel)
    else
      expect (.sign close)
      return [a]

/-- Things up to a closing sign.  Each takes a lexeme off. -/
def items {α : Type} (p : Reading α) (close : String) : Reading (List α) := do
  itemsFrom p close (← get).length

/-- Two things with a sign between. -/
def pair {α β : Type} (p : Reading α) (s : String) (q : Reading β) : Reading (α × β) := do
  let a ← p
  expect (.sign s)
  return (a, ← q)

/-- Read a literal that is nested no deeper than a bound. -/
def read : Nat → Reading Datum
  | 0 => failure
  | depth + 1 => do
    match ← acceptIf scalar? with
    | some d => return d
    | none =>
      if ← sign "[" then return .list (← items (read depth) "]")
      else if ← sign "\x7b" then
        return .dict (← items (pair (read depth) ":" (read depth)) "\x7d")
      else do
        let constructor ← name
        expect (.sign "(")
        return .record constructor (← items (pair name "=" (read depth)) ")")

/-- A literal that is given a name, on a line of its own. -/
def assignment (depth : Nat) : Reading (String × Datum) := do
  let a ← pair name "=" (read depth)
  expect .newline
  return a

/-- Read code that gives a literal a name, and does nothing else.  The code has a character at least
for each level of nesting. -/
def readAssignment (code : List Char) : Option (String × Datum) := do
  match (assignment code.length).run (← blockLexemes code) with
  | some (a, []) => some a
  | _ => none

/-! ## what literals are -/

/-- The text that a literal is. -/
def text? : Datum → Option String
  | .text s => some s
  | _ => none

/-- The number that a literal is. -/
def number? : Datum → Option Nat
  | .number n => some n
  | _ => none

/-- The truth value that a literal is. -/
def truth? : Datum → Option Bool
  | .truth b => some b
  | _ => none

/-- The items of a list. -/
def items? : Datum → Option (List Datum)
  | .list items => some items
  | _ => none

/-- The entries of a dictionary. -/
def entries? : Datum → Option (List (Datum × Datum))
  | .dict entries => some entries
  | _ => none

end Datum

end Lalr.Code
