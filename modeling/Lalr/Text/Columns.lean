/-!
# Lalr.Text.Columns

Text in columns: cells padded on the right with spaces, and tables whose rows are numbered.
-/

namespace Lalr.Text

/-- Pad a text on the right to a width; a longer text is left as it is. -/
def padRight (width : Nat) (s : String) : String :=
  s ++ String.ofList (List.replicate (width - s.length) ' ')

/-- A line of cells. -/
def cells (texts : List String) : String := " ".intercalate (texts.map (padRight 6))

/-- A table under a ruled header; rows are numbered from zero, and a row is a cell per column. -/
def numberedTable (columns : List String) (rows : List (List String)) : String :=
  let header := "     | " ++ cells columns
  let rule := String.ofList (List.replicate header.length '-')
  let body := rows.zipIdx.map fun (row, i) => padRight 4 (toString i) ++ " | " ++ cells row
  "\n".intercalate (header :: rule :: body)

end Lalr.Text
