/-!
# Lalr.Code.Basic

Expressions and statements of the action language.  What can be evaluated is kept in full.  Of all
else the language has, only the shape is kept that decides where it may stand: whether it can be
assigned to.
-/

namespace Lalr.Code

/-- An operation on two values. -/
inductive BinaryOp where
  | add | sub | mul | floorDiv | mod
deriving DecidableEq, Repr

/-- A comparison of two values. -/
inductive Comparison where
  | lt | le | gt | ge | eq | ne
deriving DecidableEq, Repr

/-- An expression. -/
inductive Expr where
  | name (id : String)
  | absent
  | bool (b : Bool)
  | int (n : Nat)
  | text (s : String)
  | list (items : List Expr)
  | tuple (items : List Expr)
  | dict (entries : List (Expr × Expr))
  | negate (e : Expr)
  | not (e : Expr)
  | binary (op : BinaryOp) (a b : Expr)
  | both (a b : Expr)
  | either (a b : Expr)
  /-- A chain of comparisons, each between neighbours. -/
  | compare (first : Expr) (links : List (Comparison × Expr))
  | choice (condition yes no : Expr)
  | field (e : Expr) (name : String)
  | index (e i : Expr)
  | slice (e : Expr) (lower upper step : Option Expr)
  | call (function : Expr) (arguments : List Expr)
  /-- An item of a list or a target that stands for several. -/
  | starred (e : Expr)
  /-- Well formed, and beyond what is evaluated. -/
  | other
deriving Repr, Inhabited

/-- A statement. -/
inductive Stmt where
  | assign (targets : List Expr) (value : Expr)
  | give (value : Option Expr)
  | pass
  | evaluate (e : Expr)
  | define (name : String) (parameters : List String) (body : List Stmt)
  /-- Well formed, and beyond what is evaluated. -/
  | other
deriving Repr, Inhabited

namespace Expr

/-- A place for one value: a name, an attribute, an item or a slice. -/
def isPlace : Expr → Bool
  | .name _ | .field .. | .index .. | .slice .. => true
  | _ => false

mutual

/-- Whether an expression can be assigned to: a place, or a list or tuple of such expressions. -/
def isTarget : Expr → Bool
  | .list items => areTargets items
  | .tuple items => areTargets items
  | e => e.isPlace

/-- Whether all items can be assigned to; an item may be starred. -/
def areTargets : List Expr → Bool
  | [] => true
  | .starred e :: rest => e.isTarget && areTargets rest
  | e :: rest => e.isTarget && areTargets rest

end

mutual

/-- Whether an expression can be removed: a place, or a list or tuple of such expressions. -/
def isRemovable : Expr → Bool
  | .list items => areRemovable items
  | .tuple items => areRemovable items
  | e => e.isPlace

/-- Whether all items can be removed. -/
def areRemovable : List Expr → Bool
  | [] => true
  | e :: rest => e.isRemovable && areRemovable rest

end

/-- Whether an expression is starred. -/
def isStarred : Expr → Bool
  | .starred _ => true
  | _ => false

end Expr

end Lalr.Code
