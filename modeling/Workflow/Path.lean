import Workflow.Text.Search

/-!
# Paths

Paths of files: names with slashes between them. A path that starts with a
slash starts at the root.

## Main definitions

* `Path.join`: A path below a directory.
* `Path.steps`: The names of a path.
* `Path.parent`: The path of the directory that a path is in.
* `Path.stem`: The last name without its extension.
-/

namespace Workflow

namespace Path

/-- How many bytes the name of a file may have. -/
def nameLimit : Nat := 255

/-- How many bytes a path may have. -/
def limit : Nat := 4095

/-- Whether a path starts at the root. -/
def isAbsolute (path : String) : Bool := path.toList.head? = some '/'

/-- A path below a directory. -/
def join (directory name : String) : String :=
  if isAbsolute name then name
  else if directory.isEmpty || directory.toList.getLast? = some '/' then directory ++ name
  else directory ++ "/" ++ name

/-- The steps of a path: its names, and empty ones where slashes meet. -/
def steps (path : String) : List String := (Text.splitAt '/' path.toList).map String.ofList

/-- The names of a path up to the last one that leads anywhere. -/
def climbed (path : String) : List String :=
  (steps path).reverse.dropWhile fun name => name.isEmpty || name = "."

/-- The path of the directory that a path is in. -/
def parent (path : String) : String :=
  let names := ((climbed path).drop 1).reverse.dropWhile String.isEmpty
  (if isAbsolute path then "/" else "") ++ "/".intercalate names

/-- The last name of a path, without what follows its last dot. A name with no
    dot but at its start is kept as it is. -/
def stem (path : String) : String :=
  match climbed path with
  | [] => ""
  | name :: _ =>
      match (name.toList.reverse.dropWhile (· ≠ '.')).drop 1 with
      | [] => name
      | rest => String.ofList rest.reverse

end Path

end Workflow
