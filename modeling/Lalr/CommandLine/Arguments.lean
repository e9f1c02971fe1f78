import Lalr.Text.Digit
import Lalr.Text.Quoted

/-!
# Lalr.CommandLine.Arguments

The arguments of the command: one grammar, and switches that may stand anywhere before a double
dash.  Long names may be shortened and may have their value behind an equals sign; short names may
be written in one word, the last with its value.
-/

namespace Lalr.CommandLine

/-- What the command is asked to do. -/
structure Request where
  grammar : String
  output : Option String
  verbose : Bool
  check : Bool
deriving DecidableEq, Repr

/-- Why there is nothing to do. -/
inductive Refusal where
  /-- Help was asked for. -/
  | help
  /-- The arguments make no sense. -/
  | misuse (message : String)
deriving DecidableEq, Repr

/-! ## help -/

/-- How to call the command. -/
def usage : String := "usage: lalrgen [-h] [-o OUTPUT] [-v] [--check] grammar\n"

/-- The lines that explain the command. -/
def helpLines : List String :=
  ["",
   "Generate an LALR(1) lexer and parser module from a grammar description",
   "",
   "positional arguments:",
   "  grammar               Path to the grammar description file",
   "",
   "options:",
   "  -h, --help            show this help message and exit",
   "  -o OUTPUT, --output OUTPUT",
   "                        Path of the Python module to write. The default is the",
   "                        grammar path with a .py suffix. If the file exists and",
   "                        was generated by lalrgen, its manual sections are",
   "                        kept.",
   "  -v, --verbose         Log every intermediate structure: item sets,",
   "                        transitions, the extended grammar, FIRST and FOLLOW",
   "                        sets, and the parse table.",
   "  --check               Only build the tables and report conflicts; don't",
   "                        write anything.",
   ""]

/-- The whole help. -/
def helpText : String := usage ++ "\n".intercalate helpLines

/-! ## words -/

/-- A switch. -/
inductive Switch where
  | help | output | verbose | check
deriving DecidableEq, Repr

/-- The names of the switches. -/
def switches : List (String × Switch) :=
  [("-h", .help), ("--help", .help), ("-o", .output), ("--output", .output), ("-v", .verbose),
   ("--verbose", .verbose), ("--check", .check)]

/-- All names of a switch, as messages show them. -/
def Switch.names (s : Switch) : String :=
  "/".intercalate ((switches.filter (·.2 = s)).map Prod.fst)

/-- The switch of a name. -/
def switch? (name : String) : Option Switch := (switches.find? (·.1 = name)).map Prod.snd

/-- A value in the same word as a switch, and whether an equals sign stands between them. -/
structure Attached where
  equals : Bool
  value : List Char
deriving DecidableEq, Repr

/-- A word of the command line. -/
inductive Word where
  | plain (s : String)
  /-- A double dash: no switch comes after it. -/
  | marker
  | switch (long : Bool) (s : Switch) (attached : Option Attached)
  /-- Something that looks like a switch. -/
  | unknown (s : String)
deriving DecidableEq, Repr

/-- Cut a text at its first equals sign. -/
def cutAtEquals (cs : List Char) : List Char × Option Attached :=
  match cs.dropWhile (· ≠ '=') with
  | [] => (cs, none)
  | _ :: value => (cs.takeWhile (· ≠ '='), some ⟨true, value⟩)

/-- Whether a text looks like a negative number; a newline may end it. -/
def isNegativeNumber (cs : List Char) : Bool :=
  match cs with
  | '-' :: body =>
    let body := if body.getLast? = some '\n' then body.dropLast else body
    match body.dropWhile Text.isDigit with
    | [] => !body.isEmpty
    | '.' :: fraction => !fraction.isEmpty && fraction.all Text.isDigit
    | _ => false
  | _ => false

/-- A word that begins with a dash and is no switch: numbers and words with spaces are plain. -/
def noSwitch (s : String) : Word :=
  if isNegativeNumber s.toList || s.toList.contains ' ' then .plain s else .unknown s

/-- The switches whose names begin with some text. -/
def switchesFrom (cs : List Char) : List (String × Switch) :=
  switches.filter fun e => cs.isPrefixOf e.1.toList

/-- A word that begins with two dashes: a long name, perhaps shortened. -/
def longWord (s : String) : Except Refusal Word :=
  let (name, attached) := cutAtEquals s.toList
  match switchesFrom name with
  | [] => .ok (noSwitch s)
  | [(_, found)] => .ok (.switch true found attached)
  | several =>
    .error (.misuse ("ambiguous option: " ++ s ++ " could match " ++
      ", ".intercalate (several.map Prod.fst)))

/-- What kind of word an argument is. -/
def wordOf (s : String) : Except Refusal Word :=
  match s.toList with
  | '-' :: c :: rest =>
    match switch? s with
    | some found => .ok (.switch (c = '-') found none)
    | none =>
      let (name, attached) := cutAtEquals s.toList
      match switch? (String.ofList name), attached with
      | some found, some a => .ok (.switch (c = '-') found (some a))
      | _, _ =>
        if c = '-' then longWord s
        else
          match switch? (String.ofList ['-', c]) with
          | some found => .ok (.switch false found (some ⟨false, rest⟩))
          | none => .ok (noSwitch s)
  | _ => .ok (.plain s)

/-- The words of the arguments.  After a double dash all words are plain. -/
def wordsOf : List String → Except Refusal (List Word)
  | [] => .ok []
  | s :: rest =>
    if s = "--" then .ok (.marker :: rest.map .plain)
    else do
      let w ← wordOf s
      return w :: (← wordsOf rest)

/-! ## reading the words -/

/-- What has been read so far; `extra` holds the words that nothing can be done with. -/
structure Reading where
  grammar : Option String := none
  output : Option String := none
  verbose : Bool := false
  check : Bool := false
  extra : List String := []
deriving Repr

/-- Turn a switch without a value on. -/
def Reading.turnOn (r : Reading) : Switch → Except Refusal Reading
  | .help => .error .help
  | .verbose => .ok { r with verbose := true }
  | .check => .ok { r with check := true }
  | .output => .ok r

/-- The switches in one word: those without a value, and what the word ends with. -/
inductive WordEnd where
  /-- No value is needed. -/
  | nothing
  /-- The value of the output is in the word. -/
  | value (s : String)
  /-- The value of the output is the next word. -/
  | wanted
  /-- The rest of the word is no switch. -/
  | extra (s : String)
deriving DecidableEq, Repr

/-- The complaint about a value that a switch has no use for. -/
def ignored (s : Switch) (value : List Char) : Refusal :=
  .misuse ("argument " ++ s.names ++ ": ignored explicit argument " ++
    Text.quote (String.ofList value))

/-- Read the switches that are written in one word. -/
def splitWord (long : Bool) (s : Switch) (attached : Option Attached) :
    Except Refusal (List Switch × WordEnd) :=
  match s, attached with
  | .output, none => .ok ([], .wanted)
  | .output, some a => .ok ([], .value (String.ofList a.value))
  | s, none => .ok ([s], .nothing)
  | s, some ⟨equals, value⟩ =>
    if long then .error (ignored s value)
    else
      match value with
      | [] => .error (ignored s [])
      | c :: rest =>
        if equals || c = '-' then .error (ignored s (c :: rest))
        else
          match switch? (String.ofList ['-', c]) with
          | none => .ok ([s], .extra (String.ofList ('-' :: c :: rest)))
          | some next =>
            match rest with
            | [] => do
              let (more, e) ← splitWord false next none
              return (s :: more, e)
            | d :: rest => do
              let (more, e) ←
                if d = '=' then splitWord false next (some ⟨true, rest⟩)
                else splitWord false next (some ⟨false, d :: rest⟩)
              return (s :: more, e)
termination_by (attached.map (·.value.length + 1)).getD 0

/-- Read the words from the left to the right.  The marker that follows the grammar or precedes it
belongs to it. -/
def readWords (r : Reading) : List Word → Except Refusal Reading
  | [] => .ok r
  | .marker :: .plain s :: rest =>
    match r.grammar with
    | none => readWords { r with grammar := some s } rest
    | some _ => readWords { r with extra := r.extra ++ ["--", s] } rest
  | .marker :: rest => readWords { r with extra := r.extra ++ ["--"] } rest
  | .plain s :: .marker :: rest =>
    match r.grammar with
    | none => readWords { r with grammar := some s } rest
    | some _ => readWords { r with extra := r.extra ++ [s, "--"] } rest
  | .plain s :: rest =>
    match r.grammar with
    | none => readWords { r with grammar := some s } rest
    | some _ => readWords { r with extra := r.extra ++ [s] } rest
  | .unknown s :: rest => readWords { r with extra := r.extra ++ [s] } rest
  | .switch long s attached :: rest => do
    let (on, e) ← splitWord long s attached
    match e, rest with
    | .nothing, rest => readWords (← on.foldlM Reading.turnOn r) rest
    | .extra x, rest =>
      let r ← on.foldlM Reading.turnOn r
      readWords { r with extra := r.extra ++ [x] } rest
    | .value v, rest =>
      let r ← on.foldlM Reading.turnOn r
      readWords { r with output := some v } rest
    | .wanted, .plain v :: rest =>
      let r ← on.foldlM Reading.turnOn r
      readWords { r with output := some v } rest
    | .wanted, _ =>
      throw (.misuse ("argument " ++ Switch.output.names ++ ": expected one argument"))

/-- What the arguments ask for. -/
def Request.ofArguments (arguments : List String) : Except Refusal Request := do
  let r ← readWords {} (← wordsOf arguments)
  match r.grammar with
  | none => throw (.misuse "the following arguments are required: grammar")
  | some grammar =>
    if r.extra.isEmpty then return ⟨grammar, r.output, r.verbose, r.check⟩
    else throw (.misuse ("unrecognized arguments: " ++ " ".intercalate r.extra))

end Lalr.CommandLine
