import Workflow.Path
import Workflow.Store.Table
import Workflow.Text.Utf8

/-!
# Disks

Files and directories by their paths, and the stores that are kept in files.
Relative paths start at the working directory, and every step of a path but the
last has to be a directory that is there.

## Main definitions

* `Disk`: What is stored where.
* `Disk.locate`: The place that a path leads to.
* `Disk.readText`: The text in a file.
* `Disk.makeDirectory`, `Disk.write`: Changes.
* `Disk.openStore`, `Disk.keepStore`: Stores in files.
-/

namespace Workflow

/-- What is under a path. -/
inductive DiskEntry
  | directory
  | file (content : List UInt8)
  | store (table : Table String)
deriving DecidableEq, Inhabited

/-- Why a file cannot be read. -/
inductive AccessError
  | missing
  | notDirectory
  | isDirectory
  | nameTooLong
  | notText
deriving DecidableEq, Repr, Inhabited

/-- What is said about a file that cannot be read. -/
def AccessError.message : AccessError → String
  | missing => "No such file or directory (os error 2)"
  | notDirectory => "Not a directory (os error 20)"
  | isDirectory => "Is a directory (os error 21)"
  | nameTooLong => "File name too long (os error 36)"
  | notText => "stream did not contain valid UTF-8"

/-- A place: the names from the root on. -/
abbrev Place := List String

/-- What is stored where. -/
structure Disk where
  here : Place := []
  entries : List (Place × DiskEntry) := []
deriving Inhabited

namespace Disk

/-- What is at a place. The root is always there, and so is the working
    directory. -/
def find? (d : Disk) (place : Place) : Option DiskEntry :=
  if place.isPrefixOf d.here then some .directory
  else (d.entries.find? fun entry => entry.1 = place).map (·.2)

/-- The disk with something at a place. -/
def put (d : Disk) (place : Place) (entry : DiskEntry) : Disk :=
  { d with entries := (place, entry) :: d.entries.filter fun other => other.1 ≠ place }

/-- Where a path starts. -/
def start (d : Disk) (path : String) : Place :=
  if Path.isAbsolute path then [] else d.here

/-- One step of a path. -/
def advance (d : Disk) (place : Place) (name : String) : Except AccessError Place :=
  match d.find? place with
  | none => .error .missing
  | some .directory =>
      if name.isEmpty || name = "." then .ok place
      else if name = ".." then .ok place.dropLast
      else if Path.nameLimit < name.utf8ByteSize then .error .nameTooLong
      else .ok (place ++ [name])
  | some _ => .error .notDirectory

/-- The place that a path leads to. There need not be anything yet. -/
def locate (d : Disk) (path : String) : Except AccessError Place :=
  if path.isEmpty then .error .missing
  else if Path.limit < path.utf8ByteSize then .error .nameTooLong
  else (Path.steps path).foldlM d.advance (d.start path)

/-- What a path leads to. -/
def lookUp (d : Disk) (path : String) : Except AccessError DiskEntry := do
  match d.find? (← d.locate path) with
  | some entry => return entry
  | none => throw .missing

/-- Whether a path leads to something. -/
def holds (d : Disk) (path : String) : Bool := (d.lookUp path).toBool

/-- The content of a file. -/
def content? (d : Disk) (path : String) : Option (List UInt8) :=
  match d.lookUp path with
  | .ok (.file content) => some content
  | _ => none

/-- The text in a file. The file of a store is not a text. -/
def readText (d : Disk) (path : String) : Except AccessError String := do
  match ← d.lookUp path with
  | .directory => throw .isDirectory
  | .store _ => throw .notText
  | .file content =>
      match Text.Utf8.decode? content with
      | some chars => return String.ofList chars
      | none => throw .notText

/-- One step of making a directory with all directories above it. -/
def makeStep (state : Disk × Place) (name : String) : Option (Disk × Place) :=
  match state.1.advance state.2 name with
  | .error _ => none
  | .ok place =>
      match state.1.find? place with
      | none => some (state.1.put place .directory, place)
      | some .directory => some (state.1, place)
      | some _ => none

/-- Makes a directory with all directories above it. -/
def makeDirectory (d : Disk) (path : String) : Option Disk :=
  if path.isEmpty then some d
  else ((Path.steps path).foldlM makeStep (d, d.start path)).map (·.1)

/-- Writes a file into a directory that is there. -/
def write (d : Disk) (path : String) (entry : DiskEntry) : Option Disk :=
  match d.locate path with
  | .error _ => none
  | .ok place =>
      match d.find? place with
      | some .directory => none
      | _ => some (d.put place entry)

/-- Whether a store under this path is gone when it is closed. -/
def isFleeting (path : String) : Bool := path.isEmpty || path = ":memory:"

/-- The store in a file. It is made when there is none. -/
def openStore (d : Disk) (path : String) : Option (Disk × Table String) :=
  if isFleeting path then some (d, [])
  else do
    let d ← d.makeDirectory (Path.parent path)
    match d.lookUp path with
    | .ok (.store table) => return (d, table)
    | .ok (.file []) | .error .missing => return (← d.write path (.store []), [])
    | _ => none

/-- Writes a store back. -/
def keepStore (d : Disk) (path : String) (store : Store) : Disk :=
  match store with
  | .text table => if isFleeting path then d else (d.write path (.store table)).getD d
  | .memory _ => d

end Disk

end Workflow
