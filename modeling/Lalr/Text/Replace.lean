/-!
# Lalr.Text.Replace

Finding and replacing a text inside another.  Occurrences are taken from the left and do not
overlap; the empty text occurs before every character and at the end.
-/

namespace Lalr.Text

/-- Replace every occurrence of a text that begins with `o` and goes on with `os`. -/
def replaceFrom (o : Char) (os new : List Char) : List Char → List Char
  | [] => []
  | c :: rest =>
    if (o :: os).isPrefixOf (c :: rest) then new ++ replaceFrom o os new (rest.drop os.length)
    else c :: replaceFrom o os new rest
termination_by cs => cs.length

/-- Replace every occurrence of one text by another. -/
def replaceChars (old new cs : List Char) : List Char :=
  match old with
  | [] => new ++ cs.flatMap (· :: new)
  | o :: os => replaceFrom o os new cs

/-- The number of occurrences of a text that begins with `o` and goes on with `os`. -/
def countFrom (o : Char) (os : List Char) : List Char → Nat
  | [] => 0
  | c :: rest =>
    if (o :: os).isPrefixOf (c :: rest) then 1 + countFrom o os (rest.drop os.length)
    else countFrom o os rest
termination_by cs => cs.length

/-- The number of occurrences of one text in another. -/
def countChars (old cs : List Char) : Nat :=
  match old with
  | [] => cs.length + 1
  | o :: os => countFrom o os cs

/-- Replace every occurrence of one text by another. -/
def replace (s old new : String) : String :=
  String.ofList (replaceChars old.toList new.toList s.toList)

/-- The number of occurrences of a text. -/
def count (s old : String) : Nat := countChars old.toList s.toList

end Lalr.Text
