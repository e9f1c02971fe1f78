import Lalr.CommandLine.Generation

/-!
# Lalr.Main

The command with the files of the machine.
-/

namespace Lalr.CommandLine

/-- An error of the machine as an error of a file. -/
def FileError.ofMachine : IO.Error → FileError
  | .noFileOrDirectory .. => .notFound
  | .inappropriateType _ code details =>
    if code = 20 then .notDirectory
    else if code = 21 then .isDirectory
    else .other code.toNat details
  | .permissionDenied _ code details => .other code.toNat details
  | .resourceExhausted _ code details => .other code.toNat details
  | e => .other 5 (toString e)

/-- Run an action of the machine on a file. -/
def onMachine {α : Type} (x : IO α) : IO (Except FileError α) := do
  try return .ok (← x)
  catch e => return .error (.ofMachine e)

/-- The content of a file of the machine. -/
def readFile (p : Path) : IO (Except FileError (List UInt8)) :=
  onMachine do return (← IO.FS.readBinFile p.text).data.toList

/-- The files of the machine. -/
def machine : Storage IO where
  present p := do
    match ← readFile p with
    | .ok _ => return .ok true
    | .error .isDirectory => return .ok true
    | .error .notFound => return .ok false
    | .error .notDirectory => return .ok false
    | .error e => return .error e
  read := readFile
  write p bytes := onMachine (IO.FS.writeBinFile p.text ⟨bytes.toArray⟩)

/-- What is shown of a breakdown. -/
def Breakdown.message : Breakdown → String
  | .undecodable => "A file is not encoded as text"
  | .unusableName => "No file can have this name"
  | .construction _ => "The construction of the table broke off"

/-- Run the command with the arguments of the program. -/
def command (arguments : List String) : IO UInt32 := do
  let outcome ← run machine arguments
  IO.print outcome.streams.out
  IO.eprint outcome.streams.err
  match outcome.ending with
  | .exit status => return status.toUInt32
  | .brokenOff b =>
    IO.eprintln b.message
    return 1

end Lalr.CommandLine

/-- Run the command with the arguments of the program. -/
def main (arguments : List String) : IO UInt32 := Lalr.CommandLine.command arguments
