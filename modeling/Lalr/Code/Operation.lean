import Lalr.Code.Basic
import Lalr.Code.Value

/-!
# Lalr.Code.Operation

What operators, selections and builtin functions do with values.
-/

namespace Lalr.Code

namespace Value

/-! ## arithmetic -/

/-- A list as many times in a row as a number says; not at all for negative numbers. -/
def repeated {α : Type} (items : List α) (n : Int) : List α :=
  (List.replicate n.toNat items).flatten

/-- A sequence as many times in a row as a number says. -/
def times (n : Int) : Value → Except EvalError Value
  | .text s => .ok (.text (String.ofList (repeated s.toList n)))
  | .list items => .ok (.list (repeated items n))
  | .tuple items => .ok (.tuple (repeated items n))
  | _ => .error .wrongKind

/-- The sum of two numbers, or two sequences of one kind in a row. -/
def add : Value → Value → Except EvalError Value
  | .text s, .text t => .ok (.text (s ++ t))
  | .list vs, .list ws => .ok (.list (vs ++ ws))
  | .tuple vs, .tuple ws => .ok (.tuple (vs ++ ws))
  | v, w =>
    match v.number?, w.number? with
    | some m, some n => .ok (.int (m + n))
    | _, _ => .error .wrongKind

/-- The product of two numbers, or a sequence repeated. -/
def mul (v w : Value) : Except EvalError Value :=
  match v.number?, w.number? with
  | some m, some n => .ok (.int (m * n))
  | some m, none => times m w
  | none, some n => times n v
  | none, none => .error .wrongKind

/-- The result of an operation on numbers whose second one must not be zero. -/
def divide (f : Int → Int → Int) (v w : Value) : Except EvalError Value :=
  match v.number?, w.number? with
  | some m, some n => if n = 0 then .error .divisionByZero else .ok (.int (f m n))
  | _, _ => .error .wrongKind

/-- The rest of a division.  A text on the left is a template: if it has no places to fill, then
nothing must be given to fill them, or something that can be looked up in. -/
def modulo : Value → Value → Except EvalError Value
  | .text s, w =>
    if s.toList.contains '%' then .error .unsupported
    else
      match w with
      | .tuple [] => .ok (.text s)
      | .list _ => .ok (.text s)
      | .dict _ => .ok (.text s)
      | _ => .error .wrongKind
  | v, w => divide Int.fmod v w

/-- An operation on two values.  Division goes to the floor, and the rest has the sign of the
divisor. -/
def operate : BinaryOp → Value → Value → Except EvalError Value
  | .add, v, w => add v w
  | .sub, v, w =>
    match v.number?, w.number? with
    | some m, some n => .ok (.int (m - n))
    | _, _ => .error .wrongKind
  | .mul, v, w => mul v w
  | .floorDiv, v, w => divide Int.fdiv v w
  | .mod, v, w => modulo v w

/-- A number with the opposite sign. -/
def negate (v : Value) : Except EvalError Value :=
  match v.number? with
  | some n => .ok (.int (-n))
  | none => .error .wrongKind

/-- Whether a comparison holds. -/
def holds : Comparison → Value → Value → Except EvalError Bool
  | .eq, v, w => .ok (equal v w)
  | .ne, v, w => .ok !(equal v w)
  | .lt, v, w => less v w
  | .gt, v, w => less w v
  | .le, v, w => do return (← less v w) || equal v w
  | .ge, v, w => do return (← less w v) || equal v w

/-! ## selection -/

/-- The item at a place that is counted from the start, or from the end if it is negative. -/
def itemAt {α : Type} (items : List α) (i : Int) : Except EvalError α :=
  let place := if i < 0 then i + items.length else i
  if place < 0 then .error .outOfRange
  else
    match items[place.toNat]? with
    | some a => .ok a
    | none => .error .outOfRange

/-- The value of a key in the entries of a dictionary. -/
def lookUp (key : Value) (entries : List (Value × Value)) : Option Value :=
  (entries.find? fun e => equal e.1 key).map Prod.snd

/-- The item of a value that another value selects. -/
def index (v i : Value) : Except EvalError Value :=
  match v with
  | .dict entries =>
    if !i.isKey then .error .wrongKind
    else
      match lookUp i entries with
      | some w => .ok w
      | none => .error (.missingKey i)
  | .list items =>
    match i.number? with
    | some n => itemAt items n
    | none => .error .wrongKind
  | .tuple items =>
    match i.number? with
    | some n => itemAt items n
    | none => .error .wrongKind
  | .text s =>
    match i.number? with
    | some n => (itemAt s.toList n).map fun c => .text (String.singleton c)
    | none => .error .wrongKind
  | _ => .error .wrongKind

/-- A bound of a slice, moved into the range from `low` to `high`; negative bounds count from the
end. -/
def clamp (length low high bound : Int) : Int :=
  max low (min high (if bound < 0 then bound + length else bound))

/-- The places from one to before another, in steps. -/
def places (start stop step : Int) : List Int :=
  let count := if 0 < step then (stop - start + step - 1) / step else (start - stop - step - 1) / -step
  (List.range count.toNat).map fun (k : Nat) => start + k * step

/-- The items of a slice: from the lower bound to before the upper one, in steps.  Steps backwards
begin at the end. -/
def sliceOf {α : Type} (items : List α) (lower upper : Option Int) (step : Int) : List α :=
  let length : Int := items.length
  let chosen :=
    if 0 < step then
      places ((lower.map (clamp length 0 length)).getD 0)
        ((upper.map (clamp length 0 length)).getD length) step
    else
      places ((lower.map (clamp length (-1) (length - 1))).getD (length - 1))
        ((upper.map (clamp length (-1) (length - 1))).getD (-1)) step
  chosen.filterMap fun i => items[i.toNat]?

/-- A bound of a slice as a number, if there is one. -/
def boundOf : Value → Except EvalError (Option Int)
  | .absent => .ok none
  | v =>
    match v.number? with
    | some n => .ok (some n)
    | none => .error .wrongKind

/-- The items of a sequence between two bounds.  The step is looked at first. -/
def slice (v lower upper step : Value) : Except EvalError Value := do
  let cut {α : Type} (items : List α) : Except EvalError (List α) := do
    let step := (← boundOf step).getD 1
    if step = 0 then throw .zeroStep
    let lower ← boundOf lower
    let upper ← boundOf upper
    return sliceOf items lower upper step
  match v with
  | .text s => return .text (String.ofList (← cut s.toList))
  | .list items => return .list (← cut items)
  | .tuple items => return .tuple (← cut items)
  | _ => throw .wrongKind

/-- A part of a token or of a position. -/
def field (v : Value) (name : String) : Except EvalError Value :=
  match v, name with
  | .token t, "name" => .ok (.text t.name)
  | .token t, "text" => .ok (.text t.text)
  | .token t, "position" => .ok (.position t.position)
  | .position p, "offset" => .ok (.int p.offset)
  | .position p, "line" => .ok (.int p.line)
  | .position p, "column" => .ok (.int p.column)
  | _, _ => .error (.unknownAttribute name)

/-! ## dictionaries -/

/-- Give a key a value among the entries of a dictionary: in place if the key is there, else at the
end. -/
def putEntry (key value : Value) : List (Value × Value) → List (Value × Value)
  | [] => [(key, value)]
  | (k, v) :: rest => if equal k key then (k, value) :: rest else (k, v) :: putEntry key value rest

/-- The dictionary of some entries; the last value of a key counts. -/
def ofEntries (entries : List (Value × Value)) : Except EvalError Value := do
  let all ← entries.foldlM (fun es e =>
    if e.1.isKey then .ok (putEntry e.1 e.2 es) else .error EvalError.wrongKind) []
  return .dict all

/-! ## calls -/

/-- The number of items of a value. -/
def size : Value → Except EvalError Nat
  | .text s => .ok s.length
  | .list items => .ok items.length
  | .tuple items => .ok items.length
  | .dict entries => .ok entries.length
  | _ => .error .wrongKind

/-- The number that a value is or spells. -/
def toNumber : Value → Except EvalError Int
  | .text s =>
    match numeral? s with
    | some n => .ok n
    | none => .error .badNumeral
  | v =>
    match v.number? with
    | some n => .ok n
    | none => .error .wrongKind

/-- The text of a value; numbers with too many digits have none. -/
def toText : Value → Except EvalError String
  | .int n => if Nat.pow 10 maxDigits ≤ n.natAbs then .error .badNumeral else .ok (toString n)
  | v => .ok v.plain

/-- The value of a call. -/
def call (function : Value) (arguments : List Value) : Except EvalError Value :=
  match function, arguments with
  | .builtin .int, [] => .ok (.int 0)
  | .builtin .int, [v] => do return .int (← toNumber v)
  | .builtin .str, [] => .ok (.text "")
  | .builtin .str, [v] => do return .text (← toText v)
  | .builtin .len, [v] => do return .int (← size v)
  | _, _ => .error .wrongKind

end Value

end Lalr.Code
