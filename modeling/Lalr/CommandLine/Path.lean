import Lalr.Text.Utf8

/-!
# Lalr.CommandLine.Path

Paths: where they start and the names on the way.  Empty names and single dots mean nothing; double
dots stay, for what they mean depends on the directories that they go through.
-/

namespace Lalr.CommandLine

/-- A path: its slashes at the start, if it has any, and the names on the way. -/
structure Path where
  root : String
  names : List String
deriving DecidableEq, Repr

namespace Path

/-- The pieces of a text between slashes; `piece` holds the current one, last character first. -/
def piecesFrom (piece : List Char) : List Char → List (List Char)
  | [] => [piece.reverse]
  | c :: rest =>
    if c = '/' then piece.reverse :: piecesFrom [] rest else piecesFrom (c :: piece) rest

/-- The path that a text spells.  Exactly two slashes at the start differ from one. -/
def ofString (s : String) : Path :=
  let slashes := (s.toList.takeWhile (· = '/')).length
  ⟨if slashes = 0 then "" else if slashes = 2 then "//" else "/",
    ((piecesFrom [] s.toList).filter fun p => !p.isEmpty && p ≠ ['.']).map String.ofList⟩

/-- A path as text. -/
def text (p : Path) : String :=
  if p.root = "" && p.names.isEmpty then "." else p.root ++ "/".intercalate p.names

/-- A name without its suffix: what follows its last dot, unless the dot is at either end. -/
def stem (name : List Char) : List Char :=
  let suffix := (name.reverse.takeWhile (· ≠ '.')).length
  if suffix = 0 || name.length ≤ suffix + 1 then name else name.take (name.length - suffix - 1)

/-- A path whose last name has another suffix. -/
def withSuffix (p : Path) (suffix : String) : Path :=
  match p.names.getLast? with
  | none => p
  | some name => ⟨p.root, p.names.dropLast ++ [String.ofList (stem name.toList) ++ suffix]⟩

/-- Whether a path can be given to a file system at all. -/
def isUsable (p : Path) : Bool := !p.text.toList.contains '\x00'

end Path

end Lalr.CommandLine
