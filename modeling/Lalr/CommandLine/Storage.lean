import Lalr.CommandLine.Path
import Lalr.Keyed
import Lalr.Text.Quoted

/-!
# Lalr.CommandLine.Storage

Files.  `Storage` is what the command needs of a file system, in some monad; `Directory` is a
directory in memory that provides it.
-/

namespace Lalr.CommandLine

/-- Why a file cannot be used. -/
inductive FileError where
  | notFound
  | notDirectory
  | isDirectory
  | nameTooLong
  | other (code : Nat) (reason : String)
deriving DecidableEq, Repr

namespace FileError

/-- The number of an error. -/
def code : FileError → Nat
  | .notFound => 2
  | .notDirectory => 20
  | .isDirectory => 21
  | .nameTooLong => 36
  | .other code _ => code

/-- What an error means. -/
def reason : FileError → String
  | .notFound => "No such file or directory"
  | .notDirectory => "Not a directory"
  | .isDirectory => "Is a directory"
  | .nameTooLong => "File name too long"
  | .other _ reason => reason

/-- The wording of an error at a path. -/
def message (e : FileError) (p : Path) : String :=
  "[Errno " ++ toString e.code ++ "] " ++ e.reason ++ ": " ++ Text.quote p.text

end FileError

/-- What the command needs of a file system. -/
structure Storage (m : Type → Type) where
  /-- Whether there is a file or a directory. -/
  present : Path → m (Except FileError Bool)
  read : Path → m (Except FileError (List UInt8))
  write : Path → List UInt8 → m (Except FileError Unit)

/-! ## a directory in memory -/

/-- The names on the way to a place, from the directory on. -/
abbrev Location := List String

/-- A directory: its files with their contents, and the directories in it. -/
structure Directory where
  files : Keyed Location (List UInt8)
  directories : List Location

/-- What is at a place. -/
inductive Place where
  | directory
  | file (location : Location)
  /-- Nothing is there, and a file can be. -/
  | free (location : Location)
deriving DecidableEq, Repr

namespace Directory

/-- The most bytes in a name. -/
def maxName : Nat := 255

/-- The most bytes in a path. -/
def maxPath : Nat := 4095

/-- Follow names from a place on.  Nothing outside of the directory is known to be there. -/
def follow (d : Directory) (location : Location) : List String → Except FileError Place
  | [] => .ok .directory
  | name :: rest =>
    if name = ".." then
      if location.isEmpty then if rest.all (· = "..") then .ok .directory else .error .notFound
      else follow d location.dropLast rest
    else if maxName < name.utf8ByteSize then .error .nameTooLong
    else
      let next := location ++ [name]
      if next ∈ d.directories then follow d next rest
      else if d.files.contains next then
        if rest.isEmpty then .ok (.file next) else .error .notDirectory
      else if rest.isEmpty then .ok (.free next)
      else .error .notFound

/-- What is at the end of a path. -/
def locate (d : Directory) (p : Path) : Except FileError Place :=
  if maxPath < p.text.utf8ByteSize then .error .nameTooLong
  else if p.root = "" then d.follow [] p.names
  else if p.names.all (· = "..") then .ok .directory
  else .error .notFound

/-- Whether there is a file or a directory.  A way that leads nowhere is no error. -/
def present (d : Directory) (p : Path) : Except FileError Bool :=
  match d.locate p with
  | .ok (.free _) => .ok false
  | .ok _ => .ok true
  | .error .notFound => .ok false
  | .error .notDirectory => .ok false
  | .error e => .error e

/-- The content of a file. -/
def read (d : Directory) (p : Path) : Except FileError (List UInt8) :=
  match d.locate p with
  | .error e => .error e
  | .ok .directory => .error .isDirectory
  | .ok (.free _) => .error .notFound
  | .ok (.file location) =>
    match d.files.get? location with
    | some bytes => .ok bytes
    | none => .error .notFound

/-- Give a file another content; a file that is not there is made. -/
def write (d : Directory) (p : Path) (bytes : List UInt8) : Except FileError Directory :=
  match d.locate p with
  | .error e => .error e
  | .ok .directory => .error .isDirectory
  | .ok (.free location) => .ok { d with files := d.files.set location bytes }
  | .ok (.file location) => .ok { d with files := d.files.set location bytes }

/-- A directory in memory as storage.  A write that fails changes nothing. -/
def storage : Storage (StateM Directory) where
  present p := return (← get).present p
  read p := return (← get).read p
  write p bytes := do
    match (← get).write p bytes with
    | .error e => return .error e
    | .ok d =>
      set d
      return .ok ()

end Directory

end Lalr.CommandLine
