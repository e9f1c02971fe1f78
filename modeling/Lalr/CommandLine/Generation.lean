import Lalr.CommandLine.Arguments
import Lalr.CommandLine.Storage
import Lalr.Construction.Report
import Lalr.Description.Reader
import Lalr.Module.Emission

/-!
# Lalr.CommandLine.Generation

The command: read a description, build its table, check its code, and write the module beside it.
Everything that can fail comes before the one write, so a command that fails changes nothing.
-/

namespace Lalr.CommandLine

/-- A fault that is no mistake of the grammar or of a file's name: the command breaks off. -/
inductive Breakdown where
  /-- A file is not text. -/
  | undecodable
  /-- No file can have this name. -/
  | unusableName
  /-- The construction failed for another reason than the grammar. -/
  | construction (e : BuildError)
deriving DecidableEq, Repr

/-- Why a command does not succeed. -/
inductive Failure where
  /-- A mistake that is reported. -/
  | reported (message : String)
  | brokenOff (b : Breakdown)
deriving DecidableEq, Repr

/-- What a command has written to its two streams. -/
structure Streams where
  out : String := ""
  err : String := ""
deriving DecidableEq, Repr

/-- A command while it runs. -/
abbrev Session (m : Type → Type) := ExceptT Failure (StateT Streams m)

namespace Session

variable {m : Type → Type} [Monad m]

/-- Write a line to the stream of results. -/
def print (line : String) : Session m Unit :=
  modifyGet fun s => ((), { s with out := s.out ++ line ++ "\n" })

/-- Write a line to the stream of diagnostics. -/
def complain (line : String) : Session m Unit :=
  modifyGet fun s => ((), { s with err := s.err ++ line ++ "\n" })

/-- The lowest severity that is shown. -/
def threshold (verbose : Bool) : Nat := if verbose then Severity.debug.rank else Severity.warning.rank

/-- Show diagnostics of a part of the program. -/
def log (verbose : Bool) (part : String) (lines : List LogLine) : Session m Unit :=
  (LogLine.atLeast (threshold verbose) lines).forM fun l => complain (part ++ ": " ++ l.message)

/-- Something that a file may refuse. -/
def ofFile {α : Type} (p : Path) (x : m (Except FileError α)) : Session m α := do
  if !p.isUsable then throw (.brokenOff .unusableName)
  match ← (liftM x : StateT Streams m (Except FileError α)) with
  | .ok a => return a
  | .error e => throw (.reported (e.message p))

end Session

open Session

/-! ## reading -/

/-- The text of a file as a source, which fails where the file is no text. -/
def sourceOf (bytes : List UInt8) : Source :=
  let (cs, whole) := Text.Utf8.readable bytes
  cs.map Read.char ++ if whole then [] else [.failure "not a text"]

/-- What an error in a description means; the only reads that fail are those of a file that is no
text. -/
def ofReadError : Description.ReadError → Failure
  | .parse (.lexical ⟨.unreadable _, _⟩) => .brokenOff .undecodable
  | e => .reported e.message

/-- The wording of a construction error that is a mistake of the grammar. -/
def mistake? : BuildError → Option String
  | .grammar e => some e.message
  | .table (.conflict c) => some c.message
  | _ => none

/-- What a construction error means. -/
def ofBuildError (e : BuildError) : Failure :=
  match mistake? e with
  | some message => .reported message
  | none => .brokenOff (.construction e)

/-- The diagnostics of reading a description: a line for every step of the parse. -/
def stepLines (source : Source) : List LogLine := (Description.trace source).map (⟨.debug, ·⟩)

variable {m : Type → Type} [Monad m]

/-- Get the result of a computation that may fail. -/
def orFail {ε α : Type} (f : ε → Failure) (x : Except ε α) : Session m α :=
  match x with
  | .ok a => return a
  | .error e => throw (f e)

/-- Read the grammar at a path. -/
def readGrammar (st : Storage m) (verbose : Bool) (p : Path) : Session m Grammar := do
  let source := sourceOf (← ofFile p (st.read p))
  if verbose then log verbose "lalrgen.action" (stepLines source)
  orFail ofReadError (Description.read source)

/-! ## writing -/

/-- What is worth telling about an existing module: that its layout is old, and that edits will be
lost. -/
def warnings (p : Path) (existing : List Char) : Except Module.SignatureError (List LogLine) := do
  let current ← Module.isCurrent existing
  let valid ← Module.validate existing
  return (if current then []
      else [⟨.info, p.text ++ " was written by an older lalrgen; upgrading it"⟩]) ++
    (if valid then []
      else [⟨.warning, p.text ++
        " was edited outside of its manual sections; those edits will be lost"⟩])

/-- A new module with the manual sections of the existing one, if that was generated too. -/
def mergeWith (verbose : Bool) (p : Path) (existing source : List Char) :
    Session m (List Char) := do
  if Module.isSigned existing then
    log verbose "lalrgen.cli" (← orFail (fun e => .reported e.message) (warnings p existing))
    return Module.merge existing source
  else return source

/-- The text at a path, if there is something. -/
def existingText (st : Storage m) (p : Path) : Session m (Option (List Char)) := do
  if ← ofFile p (st.present p) then
    match Text.Utf8.decode (← ofFile p (st.read p)) with
    | some cs => return some (Text.plainNewlines cs)
    | none => throw (.brokenOff .undecodable)
  else return none

/-- Write a module to a path. -/
def writeModule (st : Storage m) (verbose : Bool) (p : Path) (source : List Char) :
    Session m Unit := do
  let merged ← match ← existingText st p with
    | some existing => mergeWith verbose p existing source
    | none => pure source
  ofFile p (st.write p (Text.Utf8.encode merged))
  log verbose "lalrgen.cli" [⟨.info, "Wrote " ++ p.text⟩]

/-! ## the command -/

/-- The path of the module for a request. -/
def outputPath (r : Request) : Path :=
  match r.output with
  | some s => .ofString s
  | none => (Path.ofString r.grammar).withSuffix ".py"

/-- Do what is asked for. -/
def generate (st : Storage m) (r : Request) (lang : Code.Language := .readable) : Session m Unit := do
  let p := Path.ofString r.grammar
  let g ← readGrammar st r.verbose p
  if r.verbose then log r.verbose "lalrgen.build" (Construction.report g)
  let c ← orFail ofBuildError (Construction.ofGrammar g)
  orFail (fun e => .reported e.message) (Code.check g lang)
  if r.check then
    print (p.text ++ ": " ++ toString c.table.rows.length ++ " states, no conflicts")
  else
    let source ← orFail (fun e => .reported e.message) (Module.emit g c.table lang)
    writeModule st r.verbose (outputPath r) source

/-- How a command ends. -/
inductive Ending where
  | exit (status : Nat)
  | brokenOff (b : Breakdown)
deriving DecidableEq, Repr

/-- What a command leaves besides files. -/
structure Outcome where
  ending : Ending
  streams : Streams
deriving DecidableEq, Repr

/-- The end of a request, with a reported mistake under the name of the grammar. -/
def finish (r : Request) (result : Except Failure Unit) (s : Streams) : Outcome :=
  match result with
  | .ok () => ⟨.exit 0, s⟩
  | .error (.reported message) =>
    ⟨.exit 1, { s with err := s.err ++ r.grammar ++ ": " ++ message ++ "\n" }⟩
  | .error (.brokenOff b) => ⟨.brokenOff b, s⟩

/-- Run the command with its arguments. -/
def run (st : Storage m) (arguments : List String) (lang : Code.Language := .readable) : m Outcome :=
  match Request.ofArguments arguments with
  | .error .help => pure ⟨.exit 0, ⟨helpText, ""⟩⟩
  | .error (.misuse message) =>
    pure ⟨.exit 2, ⟨"", usage ++ "lalrgen: error: " ++ message ++ "\n"⟩⟩
  | .ok r => do
    let (result, s) ← StateT.run (ExceptT.run (generate st r lang)) {}
    return finish r result s

end Lalr.CommandLine
