import Workflow.Json.Document

/-!
# Tables of TOML Documents

How the tables of a document are built up. A table comes into being in one of
three ways, and that decides how it may still be extended:

* by its own header, which may stand only once;
* on the way to the header of a table inside it, and then a header of its own
  may follow;
* by a dotted key, and then only dotted keys may add to it.

Inline tables and arrays are values. They are complete where they stand and
cannot be extended.

## Main definitions

* `Item`: What a key stands for.
* `Members`: The contents of a table.
* `Members.assign`: A key and its value.
* `Members.openTable`, `Members.openElement`: Headers.
* `Members.toDocument`: The finished document.
-/

namespace Workflow

namespace Toml

/-- How a table came into being. -/
inductive Origin
  | header
  | passing
  | dotted
deriving DecidableEq, Repr, Inhabited

/-- What a key stands for: a value, a table, or an array of tables. -/
inductive Item
  | value (document : Document)
  | table (origin : Origin) (members : List (String × Item))
  | tables (elements : List (List (String × Item)))

/-- The contents of a table. -/
abbrev Members := List (String × Item)

namespace Members

/-- What a key stands for. -/
def find? (key : String) (t : Members) : Option Item :=
  (List.find? (fun entry => entry.1 = key) t).map (·.2)

/-- Lets a key that is in use stand for something else. -/
def replace (key : String) (item : Item) (t : Members) : Members :=
  t.map fun entry => if entry.1 = key then (key, item) else entry

/-- A key and its value. The path is what a dotted key has before its last
    part. On its way it may go through the last of an array of tables, but not
    end there. -/
def assign (document : Document) (key : String) : List String → Members → Option Members
  | [], t =>
      match find? key t with
      | none => some (t ++ [(key, .value document)])
      | some _ => none
  | part :: path, t =>
      match find? part t with
      | none => do
          let inner ← assign document key path []
          return t ++ [(part, .table .dotted inner)]
      | some (.table origin inner) =>
          if origin = .header || (path.isEmpty && origin ≠ .dotted) then none
          else do
            let inner ← assign document key path inner
            return replace part (.table origin inner) t
      | some (.tables elements) =>
          match elements.getLast? with
          | none => none
          | some last =>
              if path.isEmpty then none
              else do
                let last ← assign document key path last
                return replace part (.tables (elements.dropLast ++ [last])) t
      | some (.value _) => none

/-- Changes the table at a path, the last one where the path meets an array of
    tables. Tables that are missing on the way come into being. -/
def changeAt (change : Members → Option Members) : List String → Members → Option Members
  | [], t => change t
  | part :: path, t =>
      match find? part t with
      | none => do
          let inner ← changeAt change path []
          return t ++ [(part, .table .passing inner)]
      | some (.table origin inner) => do
          let inner ← changeAt change path inner
          return replace part (.table origin inner) t
      | some (.tables elements) =>
          match elements.getLast? with
          | none => none
          | some last => do
              let last ← changeAt change path last
              return replace part (.tables (elements.dropLast ++ [last])) t
      | some (.value _) => none

/-- The header of a table. -/
def openTable (key : String) (t : Members) : Option Members :=
  match find? key t with
  | none => some (t ++ [(key, .table .header [])])
  | some (.table .passing inner) => some (replace key (.table .header inner) t)
  | some _ => none

/-- The header of one more element of an array of tables. -/
def openElement (key : String) (t : Members) : Option Members :=
  match find? key t with
  | none => some (t ++ [(key, .tables [[]])])
  | some (.tables elements) => some (replace key (.tables (elements ++ [[]])) t)
  | some _ => none

end Members

mutual

/-- What a key stands for, as a document. -/
def Item.toDocument : Item → Document
  | .value document => document
  | .table _ members => .object (membersToDocument members)
  | .tables elements => .array (elementsToDocument elements)

/-- The contents of a table as the members of a document. -/
def membersToDocument : List (String × Item) → List (Option String × Document)
  | [] => []
  | (key, item) :: rest => (some key, item.toDocument) :: membersToDocument rest

/-- The elements of an array of tables as documents. -/
def elementsToDocument : List (List (String × Item)) → List Document
  | [] => []
  | element :: rest => .object (membersToDocument element) :: elementsToDocument rest

end

/-- The contents of a table as a document. -/
def Members.toDocument (t : Members) : Document := .object (membersToDocument t)

end Toml

end Workflow
