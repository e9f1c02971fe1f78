import Lalr.Code.Basic
import Lalr.Code.Formatted
import Lalr.Code.Reading

/-!
# Lalr.Code.Expression

Reading expressions.  Every reader here is given the readers for what is nested inside it; the knot
is tied by `readersWith`, which reads expressions up to a depth of nesting.  Each level of nesting
takes at least one lexeme, so the number of lexemes is depth enough.  Expressions inside formatted text
are read in the same way, at the next of as many levels as the text has characters.
-/

namespace Lalr.Code

open Reading

/-- The readers for nested expressions: of any kind, and of operands behind a sign; and the check of
the expressions inside formatted text. -/
structure Nested where
  expression : Reading Expr
  operand : Reading Expr
  formatted : Bool → String → Bool

namespace Nested

variable (nested : Nested)

/-! ## parameters -/

/-- What has been read of a list of parameters: names, whether all parameters are plain, and which
marks and defaults there have been.  A star without a name wants a named parameter after it, and
nothing follows two stars. -/
structure ParameterList where
  names : List String := []
  plain : Bool := true
  defaulted : Bool := false
  slashed : Bool := false
  starred : Bool := false
  wanting : Bool := false
  closed : Bool := false

/-- The annotation of a parameter, where parameters have them. -/
def annotation (annotated : Bool) (p : Reading Expr) : Reading Unit := do
  if annotated then
    let _ ← after ":" p

/-- Whether a name comes next. -/
def atName : Reading Bool := return (← peek).any fun | .name _ => true | _ => false

/-- One more parameter. -/
def parameter (annotated : Bool) (ps : ParameterList) : Reading ParameterList := do
  if ps.closed then failure
  if ← sign "**" then
    if ps.wanting then failure
    let _ ← name
    annotation annotated nested.expression
    return { ps with plain := false, closed := true }
  else if ← sign "*" then
    if ps.starred then failure
    if ← atName then
      let _ ← name
      annotation annotated do
        if ← sign "*" then nested.operand else nested.expression
      return { ps with plain := false, starred := true }
    else return { ps with plain := false, starred := true, wanting := true }
  else if ← sign "/" then
    if ps.starred || ps.slashed || ps.names.isEmpty then failure
    return { ps with plain := false, slashed := true }
  else do
    let id ← name
    annotation annotated nested.expression
    let ps := { ps with names := ps.names ++ [id], wanting := false }
    if ← sign "=" then
      let _ ← nested.expression
      return { ps with plain := false, defaulted := true }
    else
      if ps.defaulted && !ps.starred then failure
      return ps

/-- The parameters that follow, up to a closing sign. -/
def parametersFrom (annotated : Bool) (close : String) :
    Nat → ParameterList → Reading ParameterList
  | 0, _ => failure
  | fuel + 1, ps => do
    if (← peek) = some (.sign close) then return ps
    let ps ← nested.parameter annotated ps
    if ← sign "," then parametersFrom annotated close fuel ps else return ps

/-- A list of parameters before a closing sign: their names, if all of them are plain. -/
def parameters (annotated : Bool) (close : String) : Reading (Option (List String)) := do
  let ps ← nested.parametersFrom annotated close ((← get).length + 1) {}
  if ps.wanting then failure
  return if ps.plain then some ps.names else none

/-- A function without a name, after its keyword. -/
def lambda : Reading Expr := do
  let _ ← nested.parameters false ":"
  expect (.sign ":")
  let _ ← nested.expression
  return .other

/-! ## items -/

/-- An expression, or a name that is bound to one on the way. -/
def named : Reading Expr := do
  match ← peek with
  | some (.name _) =>
    if ← followedBy (.sign ":=") then
      let _ ← name
      let _ ← sign ":="
      let _ ← nested.expression
      return .other
    else nested.expression
  | _ => nested.expression

/-- The levels of operators between two operands, from the loosest to the tightest. -/
def operatorLevels : List (List String) :=
  [["|"], ["^"], ["&"], ["<<", ">>"], ["+", "-"], ["*", "/", "//", "%", "@"]]

/-- The operation of a sign, if it is evaluated. -/
def operation? (s : String) : Option BinaryOp :=
  match s with
  | "+" => some .add
  | "-" => some .sub
  | "*" => some .mul
  | "//" => some .floorDiv
  | "%" => some .mod
  | _ => none

/-- Apply an operator to its operands. -/
def combine (a : Expr) (step : String × Expr) : Expr :=
  match operation? step.1 with
  | some op => .binary op a step.2
  | none => .other

/-- Operands with operators of the given levels between them, to be grouped from the left. -/
def operands : List (List String) → Reading Expr
  | [] => nested.operand
  | level :: tighter => do
    let first ← operands tighter
    let rest ← many do
      match ← acceptIf fun | .sign s => if level.contains s then some s else none | _ => none with
      | some s => return some (s, ← operands tighter)
      | none => return none
    return rest.foldl combine first

/-- Operands with any operators between them. -/
def arithmetic : Reading Expr := nested.operands operatorLevels

/-- A starred expression, after its star. -/
def starredRest : Reading Expr := return .starred (← nested.arithmetic)

/-- An item of a list: perhaps starred, perhaps binding a name. -/
def item : Reading Expr := do
  if ← sign "*" then nested.starredRest else nested.named

/-- An item of a list outside of brackets. -/
def bareItem : Reading Expr := do
  if ← sign "*" then nested.starredRest else nested.expression

/-- Items with commas between make a tuple; a single one without a comma stands for itself. -/
def bareTuple (p : Reading Expr) : Reading Expr := do
  let (items, comma) ← commaList (← p) p
  match items, comma with
  | [e], false => return e
  | _, _ => return .tuple items

/-- The expression of a statement: items with commas between. -/
def bare : Reading Expr := bareTuple nested.bareItem

/-- A value that a function gives on the way, after its keyword. -/
def yieldRest : Reading Expr := do
  if ← keyword "from" then
    let _ ← nested.expression
    return .other
  else if (← peek).any opensItem then
    let _ ← nested.bare
    return .other
  else return .other

/-! ## comparisons and connectives -/

/-- A comparison sign, with its meaning if it is evaluated. -/
def comparison? : Lexeme → Option (Option Comparison)
  | .sign "<" => some (some .lt)
  | .sign "<=" => some (some .le)
  | .sign ">" => some (some .gt)
  | .sign ">=" => some (some .ge)
  | .sign "==" => some (some .eq)
  | .sign "!=" => some (some .ne)
  | _ => none

/-- A comparison between two operands. -/
def comparator : Reading (Option (Option Comparison)) := do
  match ← acceptIf comparison? with
  | some c => return some c
  | none =>
    if ← keyword "in" then return some none
    else if ← keyword "is" then
      let _ ← keyword "not"
      return some none
    else if (← peek) = some (.keyword "not") then
      if ← followedBy (.keyword "in") then
        let _ ← keyword "not"
        let _ ← keyword "in"
        return some none
      else return none
    else return none

/-- Operands with comparisons between them. -/
def comparison : Reading Expr := do
  let first ← nested.arithmetic
  let links ← many do
    match ← comparator with
    | some c => return some (c, ← nested.arithmetic)
    | none => return none
  if links.isEmpty then return first
  else
    match links.mapM fun l => l.1.map (·, l.2) with
    | some links => return .compare first links
    | none => return .other

/-- A comparison, perhaps negated. -/
def inversion : Reading Expr := do
  let nots ← many (afterWord "not" (return ()))
  return nots.foldl (fun e _ => .not e) (← nested.comparison)

/-- Comparisons that must all hold. -/
def conjunction : Reading Expr := do
  let first ← nested.inversion
  return (← many (afterWord "and" nested.inversion)).foldl .both first

/-- Conjunctions of which one must hold. -/
def disjunction : Reading Expr := do
  let first ← nested.conjunction
  return (← many (afterWord "or" nested.conjunction)).foldl .either first

/-- A choice between two expressions, or one alone. -/
def choice : Reading Expr := do
  let yes ← nested.disjunction
  if ← keyword "if" then
    let condition ← nested.disjunction
    expect (.keyword "else")
    return .choice condition yes (← nested.expression)
  else return yes

/-! ## brackets -/

/-- One clause of a comprehension, after its keyword.  The targets are read by `primary`. -/
def clauseRest (primary : Reading Expr) : Reading Unit := do
  let target : Reading Expr := do
    if ← sign "*" then return .starred (← primary) else primary
  let targets ← bareTuple target
  if !(if targets.isStarred then Expr.areTargets [targets] else targets.isTarget) then failure
  expect (.keyword "in")
  let _ ← nested.disjunction
  let _ ← many (afterWord "if" nested.disjunction)

/-- A clause of a comprehension, if one comes. -/
def clause (primary : Reading Expr) : Reading (Option Unit) := do
  let async := (← peek) = some (.keyword "async")
  if async && (← followedBy (.keyword "for")) then
    let _ ← keyword "async"
  afterWord "for" (nested.clauseRest primary)

/-- Whether a comprehension goes on here; if so, its clauses are read. -/
def comprehension (primary : Reading Expr) : Reading Bool := do
  return !(← many (nested.clause primary)).isEmpty

/-- What is between round brackets, after the opening one. -/
def roundRest (primary : Reading Expr) : Reading Expr := do
  if ← sign ")" then return .tuple []
  if ← keyword "yield" then
    let e ← nested.yieldRest
    expect (.sign ")")
    return e
  let first ← nested.item
  if !first.isStarred then
    if ← nested.comprehension primary then
      expect (.sign ")")
      return .other
  let (items, comma) ← commaList first nested.item
  expect (.sign ")")
  match items, comma with
  | [e], false => if e.isStarred then failure else return e
  | _, _ => return .tuple items

/-- What is between square brackets, after the opening one. -/
def squareRest (primary : Reading Expr) : Reading Expr := do
  if ← sign "]" then return .list []
  let first ← nested.item
  if !first.isStarred then
    if ← nested.comprehension primary then
      expect (.sign "]")
      return .other
  let (items, _) ← commaList first nested.item
  expect (.sign "]")
  return .list items

/-- An entry of a dictionary; nothing for the entries of another one. -/
def entry : Reading (Option (Expr × Expr)) := do
  if ← sign "**" then
    let _ ← nested.arithmetic
    return none
  else do
    let key ← nested.expression
    expect (.sign ":")
    return some (key, ← nested.expression)

/-- The entries of a dictionary after the first. -/
def entriesRest (first : Option (Expr × Expr)) : Reading Expr := do
  let opens (t : Lexeme) : Bool := opensItem t || t = .sign "**"
  let (entries, _) ← commaList first nested.entry opens
  expect (.sign "\x7d")
  match entries.mapM id with
  | some entries => return .dict entries
  | none => return .other

/-- What is between braces, after the opening one. -/
def bracesRest (primary : Reading Expr) : Reading Expr := do
  if ← sign "\x7d" then return .dict []
  if (← peek) = some (.sign "**") then nested.entriesRest (← nested.entry)
  else do
    let binding ← followedBy (.sign ":=")
    let first ← nested.item
    let paired ← if binding || first.isStarred then pure false else sign ":"
    if paired then
      let value ← nested.expression
      if ← nested.comprehension primary then
        expect (.sign "\x7d")
        return .other
      else nested.entriesRest (some (first, value))
    else do
      if !first.isStarred then
        if ← nested.comprehension primary then
          expect (.sign "\x7d")
          return .other
      let _ ← commaList first nested.item
      expect (.sign "\x7d")
      return .other

/-! ## atoms and what follows them -/

/-- Whether quoted text can be read beside other text.  Texts beside each other are all of bytes or none
is; formatted text needs another look. -/
def takesText (bytes : Bool) (kind : Quotation) (s : String) : Bool :=
  kind.bytes == bytes && (!kind.formatted || nested.formatted kind.raw s)

/-- Quoted texts beside each other are one. -/
def textRest (kind : Quotation) (first : String) : Reading Expr := do
  let rest ← many (acceptIf fun | .text k s => some (k, s) | _ => none)
  if !((kind, first) :: rest).all (fun t => nested.takesText kind.bytes t.1 t.2) then failure
  if kind.bytes || kind.formatted || rest.any (·.1.formatted) then return .other
  else return .text (String.join (first :: rest.map Prod.snd))

/-- The smallest expressions. -/
def atom (primary : Reading Expr) : Reading Expr := do
  match ← acceptIf some with
  | some (.name id) => return .name id
  | some (.keyword "None") => return .absent
  | some (.keyword "True") => return .bool true
  | some (.keyword "False") => return .bool false
  | some (.number (.whole n)) => return .int n
  | some (.number (.long _)) => failure
  | some (.number _) => return .other
  | some (.text k s) => nested.textRest k s
  | some (.sign "...") => return .other
  | some (.sign "(") => nested.roundRest primary
  | some (.sign "[") => nested.squareRest primary
  | some (.sign "\x7b") => nested.bracesRest primary
  | _ => failure

/-- How far a list of arguments has come: arguments by position, by name, or from dictionaries. -/
inductive ArgumentPhase where
  | positional | byName | fromDict
deriving DecidableEq

/-- One argument: the phase it belongs to, and its expression if it is a plain one. -/
def argument (phase : ArgumentPhase) : Reading (ArgumentPhase × Option Expr) := do
  if ← sign "**" then
    let _ ← nested.expression
    return (.fromDict, none)
  else if ← sign "*" then
    if phase = .fromDict then failure
    let _ ← nested.expression
    return (phase, none)
  else if ← followedBy (.sign "=") then
    let _ ← name
    let _ ← sign "="
    let _ ← nested.expression
    return (if phase = .fromDict then .fromDict else .byName, none)
  else
    if phase ≠ .positional then failure
    return (.positional, some (← nested.named))

/-- The arguments that follow, up to the closing bracket. -/
def argumentsFrom : Nat → ArgumentPhase → Reading (List (Option Expr))
  | 0, _ => failure
  | fuel + 1, phase => do
    if ← sign ")" then return []
    let (phase, e) ← nested.argument phase
    if ← sign "," then return e :: (← argumentsFrom fuel phase)
    else
      expect (.sign ")")
      return [e]

/-- A call, after its opening bracket.  A comprehension may stand alone as the argument. -/
def callRest (primary : Reading Expr) (function : Expr) : Reading Expr := do
  if ← sign ")" then return .call function []
  let (phase, first) ← nested.argument .positional
  if first.isSome then
    if ← nested.comprehension primary then
      expect (.sign ")")
      return .other
  let more ← if ← sign "," then nested.argumentsFrom ((← get).length + 1) phase
    else do
      expect (.sign ")")
      pure []
  match (first :: more).mapM id with
  | some arguments => return .call function arguments
  | none => return .other

/-- What selects from a sequence: an item, or the bounds of a slice. -/
inductive Selector where
  | item (e : Expr)
  | slice (lower upper step : Option Expr)

/-- A bound of a slice, if it is given. -/
def bound : Reading (Option Expr) := do
  if (← peek).any opensItem then return some (← nested.expression) else return none

/-- The bounds of a slice after its first colon. -/
def sliceRest (lower : Option Expr) : Reading Selector := do
  let upper ← nested.bound
  let step ← if ← sign ":" then nested.bound else pure none
  return .slice lower upper step

/-- One selector. -/
def selector : Reading Selector := do
  if ← sign ":" then nested.sliceRest none
  else do
    let binding ← followedBy (.sign ":=")
    let e ← nested.item
    if binding || e.isStarred then return .item e
    else if ← sign ":" then nested.sliceRest (some e)
    else return .item e

/-- A selection, after its opening bracket. -/
def selectRest (e : Expr) : Reading Expr := do
  let opens (t : Lexeme) : Bool := opensItem t || t = .sign ":"
  let (selectors, comma) ← commaList (← nested.selector) nested.selector opens
  expect (.sign "]")
  match selectors, comma with
  | [.item i], false => return .index e (if i.isStarred then .other else i)
  | [.slice lower upper step], false => return .slice e lower upper step
  | _, _ =>
    match selectors.mapM fun | .item i => if i.isStarred then none else some i | _ => none with
    | some items => return .index e (.tuple items)
    | none => return .index e .other

/-- Whatever follows an expression closely, again and again. -/
def trailers (primary : Reading Expr) : Nat → Expr → Reading Expr
  | 0, _ => failure
  | fuel + 1, e => do
    if ← sign "." then trailers primary fuel (.field e (← name))
    else if ← sign "(" then trailers primary fuel (← nested.callRest primary e)
    else if ← sign "[" then trailers primary fuel (← nested.selectRest e)
    else return e

/-- An atom with whatever follows it closely; `inner` reads the targets of comprehensions. -/
def primaryWith (inner : Reading Expr) : Reading Expr := do
  let e ← nested.atom inner
  nested.trailers inner ((← get).length + 1) e

/-- An atom with whatever follows it, and an exponent. -/
def power (primary : Reading Expr) : Reading Expr := do
  let awaited ← keyword "await"
  let e ← primary
  if ← sign "**" then
    let _ ← nested.operand
    return .other
  else return if awaited then .other else e

/-- An operand with the signs before it. -/
def signed (primary : Reading Expr) : Reading Expr := do
  if ← sign "-" then return .negate (← nested.operand)
  else if ← sign "+" then
    let _ ← nested.operand
    return .other
  else if ← sign "~" then
    let _ ← nested.operand
    return .other
  else nested.power primary

/-- An expression of any kind. -/
def any : Reading Expr := do
  if ← keyword "lambda" then nested.lambda else nested.choice

end Nested

/-! ## tying the knot -/

/-- Readers of expressions that are nested no deeper than a bound, together with a reader of atoms
and what follows them. -/
def readersWith (formatted : Bool → String → Bool) : Nat → Nested × Reading Expr
  | 0 => (⟨failure, failure, formatted⟩, failure)
  | depth + 1 =>
    let (nested, inner) := readersWith formatted depth
    let primary := nested.primaryWith inner
    (⟨nested.any, nested.signed primary, formatted⟩, primary)

/-- Whether the expression of a field can be read.  It is read between brackets, so that it may take
several lines. -/
def readsField (formatted : Bool → String → Bool) (text : List Char) : Bool :=
  match lexemes ('(' :: text ++ [')']) with
  | some ls => (readAll (readersWith formatted (ls.length + 1)).1.bare ls).isSome
  | none => false

/-- Whether formatted text can be read that is nested in formatted text no deeper than a bound. -/
def readsFormatted : Nat → Bool → String → Bool
  | 0 => fun _ _ => false
  | level + 1 => fun raw s => (fieldTexts raw s.toList).any (·.all (readsField (readsFormatted level)))

/-- Readers of expressions that are nested no deeper than a bound, with formatted text in them. -/
def readersOfDepth (depth : Nat) : Nested × Reading Expr :=
  readersWith (fun raw s => readsFormatted (s.length + 1) raw s) depth

end Lalr.Code
