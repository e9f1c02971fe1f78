/-!
# Lalr.Pattern.Fuzzy

Braces in a written pattern may also hold a constraint on how far a match may differ from the pattern,
such as the one that allows a single error, with `e<=1` between the braces.  No pattern here has such a
constraint; this module only tells them from braces that stand for themselves.
-/

namespace Lalr.Pattern

/-- The number that ASCII digits spell. -/
def count (ds : List Char) : Nat := ds.foldl (fun n d => 10 * n + (d.toNat - '0'.toNat)) 0

/-- Cut off the ASCII digits at the start of a text. -/
def takeDigits (s : List Char) : List Char × List Char :=
  (s.takeWhile Char.isDigit, s.dropWhile Char.isDigit)

namespace Fuzzy

/-- Why a part of a constraint cannot be read: there is none, or it is malformed behind a point where it
cannot be anything else. -/
inductive Fault where
  | absent
  | malformed
deriving DecidableEq, Repr

/-- A reader of a part of a constraint. -/
abbrev Reader := StateT (List Char) (Except Fault)

/-- Take the next character. -/
def next : Reader Char := do
  match ← get with
  | c :: rest =>
    set rest
    return c
  | [] => throw .absent

/-- Take a character, if it comes first; whether it did. -/
def accept (c : Char) : Reader Bool := do
  match ← get with
  | d :: rest =>
    if d = c then
      set rest
      return true
    else return false
  | [] => return false

/-- The digits of a number, if there are any. -/
def digits : Reader (List Char) := modifyGet takeDigits

/-- The least number that is more than a sign and a number behind it allow; nothing if no sign comes
first. -/
def limit? : Reader (Option Nat) := do
  if ← accept '<' then
    let inclusive ← accept '='
    let ds ← digits
    if ds.isEmpty then throw .malformed
    return some (count ds + if inclusive then 1 else 0)
  else return none

/-- The letter of a kind of error that has no limits yet. -/
def kind (seen : List Char) : Reader Char := do
  let c ← next
  if "deis".toList.contains c && !seen.contains c then return c else throw .absent

/-- Limits for one kind of error: none, an upper one behind the letter, or one on either side. -/
def limits (seen : List Char) : Reader Char := do
  let ds ← digits
  if ds.isEmpty then
    let c ← kind seen
    if (← limit?) = some 0 then throw .malformed
    return c
  else
    if !(← accept '<') then throw .absent
    let least := count ds + if ← accept '=' then 0 else 1
    let c ← kind seen
    match ← limit? with
    | some most => if most ≤ least then throw .malformed else return c
    | none => throw .absent

/-- Kinds of errors with their weights.  Each of the three kinds has one weight, so fuel for one more is
enough. -/
def weights : Nat → List Char → Reader Unit
  | 0, _ => throw .absent
  | fuel + 1, seen => do
    let _ ← digits
    let c ← next
    if !"dis".toList.contains c then throw .absent
    if seen.contains c then throw .malformed
    if ← accept '+' then weights fuel (c :: seen)

/-- A limit for the weight of all errors. -/
def equation (weighed : Bool) : Reader Unit := do
  if weighed then throw .malformed
  weights 4 []
  match ← limit? with
  | some most => if most = 0 then throw .malformed
  | none => throw .absent

/-- The parts of a constraint, with commas between.  There is at most one for each kind of error and one
for their weight, so fuel for one more is enough. -/
def parts : Nat → List Char → Bool → Reader Unit
  | 0, _, _ => throw .absent
  | fuel + 1, seen, weighed => do
    let limited ← try some <$> limits seen catch
      | .absent => do
        equation weighed
        pure none
      | e => throw e
    if ← accept ',' then parts fuel (limited.toList ++ seen) (weighed || limited.isNone)

/-- The characters of limits and weights. -/
def isLimitChar (c : Char) : Bool := c.isAlphanum || "<=+,".toList.contains c

end Fuzzy

/-- Whether what follows an opening brace is the beginning of a constraint, perhaps a malformed one. -/
def beginsFuzzy (s : List Char) : Bool :=
  match (Fuzzy.parts 6 [] false).run (s.takeWhile Fuzzy.isLimitChar) with
  | .error .absent => false
  | _ => true

end Lalr.Pattern
