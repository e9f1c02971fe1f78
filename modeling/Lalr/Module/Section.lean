import Lalr.Keyed
import Lalr.Text.Lines

/-!
# Lalr.Module.Section

The sections of a module: generated text, and named manual sections between a pair of marker lines.
The marker lines belong to the generated text around them.
-/

namespace Lalr.Module

/-- A run of lines, each with its ending; a manual section has a name. -/
structure Section where
  name : Option (List Char)
  lines : List (List Char)
deriving DecidableEq, Repr

/-- What opens a manual section, up to its name. -/
def openingMarker : List Char := "# BEGIN MANUAL SECTION ".toList

/-- What closes a manual section. -/
def closingMarker : List Char := "# END MANUAL SECTION".toList

/-- What is left of a text behind some other text that it begins with. -/
def after? : List Char → List Char → Option (List Char)
  | [], cs => some cs
  | m :: ms, c :: cs => if m = c then after? ms cs else none
  | _ :: _, [] => none

/-- The name of the section that a line opens: what follows the marker up to the next blank. -/
def opens? (line : List Char) : Option (List Char) :=
  match after? openingMarker (line.dropWhile Text.isBlank) with
  | none => none
  | some rest =>
    let name := rest.takeWhile (!Text.isBlank ·)
    if name.isEmpty then none else some name

/-- Whether a line closes a section. -/
def closes (line : List Char) : Bool := (after? closingMarker (line.dropWhile Text.isBlank)).isSome

/-- Cut lines into sections: `name` is that of the current section, and `found` its lines so far. -/
def sectionsFrom (name : Option (List Char)) (found : List (List Char)) :
    List (List Char) → List Section
  | [] => [⟨name, found⟩]
  | line :: rest =>
    match name with
    | none =>
      match opens? line with
      | some opened => ⟨none, found ++ [line]⟩ :: sectionsFrom (some opened) [] rest
      | none => sectionsFrom none (found ++ [line]) rest
    | some manual =>
      if closes line then ⟨some manual, found⟩ :: sectionsFrom none [line] rest
      else sectionsFrom (some manual) (found ++ [line]) rest

/-- The sections of a text, generated and manual in turn. -/
def sections (source : List Char) : List Section := sectionsFrom none [] (Text.lines source)

/-- The lines outside manual sections. -/
def generatedLines (source : List Char) : List (List Char) :=
  ((sections source).filter (·.name.isNone)).flatMap Section.lines

/-- The text of a manual section with its marker lines; the last one has no ending.  The newlines at
the end of the body count as one, if there is a body at all. -/
def manualSection (name body margin : List Char) : List Char :=
  let content := if body.isEmpty then [] else [Text.dropEndWhile (· == '\n') body]
  Text.joinNewlines <|
    (margin ++ openingMarker ++ name) :: (content ++ [margin ++ closingMarker])

/-! ## merging -/

/-- The lines of every manual section by name; sections of one name are joined. -/
def manualLines (source : List Char) : Keyed (List Char) (List (List Char)) :=
  (sections source).foldl (fun m s => match s.name with
    | none => m
    | some name => m.update name [] (· ++ s.lines)) ∅

/-- The lines of a section, or those that take their place. -/
def mergedLines (manual : Keyed (List Char) (List (List Char))) (s : Section) : List (List Char) :=
  match s.name with
  | none => s.lines
  | some name => (manual.get? name).getD s.lines

/-- The generated text with the content of every manual section that the existing text has too.
Other manual sections of the existing text are dropped. -/
def merge (existing generated : List Char) : List Char :=
  ((sections generated).flatMap (mergedLines (manualLines existing))).flatten

end Lalr.Module
