import Lalr.Grammar.Basic
import Lalr.Text.Blank

/-!
# Lalr.Pattern.Literal

Patterns that match one text and nothing else: every character that has a meaning in patterns, or
is blank, gets a backslash.
-/

namespace Lalr.Pattern

/-- The characters that have a meaning in patterns, inside classes or out. -/
def specialChars : List Char := "()[]\x7b\x7d?*+|^$\\.-#&~".toList

/-- Write one character so that it stands for itself. -/
def escapeChar (c : Char) : List Char :=
  if specialChars.contains c || Text.isBlank c then ['\\', c] else [c]

/-- The pattern of a text. -/
def escape (cs : List Char) : List Char := cs.flatMap escapeChar

end Lalr.Pattern

/-- The terminal that matches one text. -/
def Lalr.Terminal.literal (name : Lalr.Symbol) (text : String) (skip : Bool) : Lalr.Terminal :=
  ⟨name, String.ofList (Lalr.Pattern.escape text.toList), skip⟩
