import Workflow.Json.Document

/-!
# Reading Records

Decoding documents into types. A decoder either gives a value or refuses; it
does not say why, because a refusal is reported as one kind of error.

A record is written as an object, or as the array of its fields in order. In
an object, fields may come in any order, unknown ones are skipped whatever
they hold, and none may be repeated. In an array, fields at the end may be
missing if they have a default. A field may have a default, and an optional
field may also be left out of an object, or be null.

Arrays and objects that are kept may be nested to a depth of 127.

## Main definitions

* `Scope`: How deep a document may still be nested, and whether an array may
  hold more items than its record has fields.
* `Decoder`: A reader of one type.
* `Decoder.record`: Reads a record by the names of its fields.
* `Fields.required`, `Fields.defaulted`, `Fields.optional`: Reads one field.
-/

namespace Workflow

/-- What a decoder may rely on: how many arrays and objects may still be
    opened, and whether surplus items of a record's array are ignored. -/
structure Scope where
  room : Nat
  surplus : Bool
deriving DecidableEq, Repr

namespace Scope

/-- The scope of a JSON text. -/
def text : Scope := ⟨127, false⟩

/-- The scope inside one more array or object. -/
def enter? (s : Scope) : Option Scope :=
  match s.room with
  | 0 => none
  | room + 1 => some { s with room := room }

end Scope

/-- A reader of one type from documents. -/
abbrev Decoder (α : Type) := Scope → Document → Option α

/-- A field of a record as a document has it: left out of an object, beyond
    the end of an array, or given. -/
inductive Slot
  | absent
  | beyond
  | given (value : Document)

/-- The fields of a record that is being read. -/
structure Fields where
  scope : Scope
  slots : List (String × Slot)

namespace Fields

/-- A field by its name. -/
def slot (fields : Fields) (name : String) : Slot :=
  (Entries.find? name fields.slots).getD .absent

variable {α : Type}

/-- Reads a field that has to be there. -/
def required (fields : Fields) (name : String) (read : Decoder α) : Option α :=
  match fields.slot name with
  | .given value => read fields.scope value
  | _ => none

/-- Reads a field that has a default. -/
def defaulted (fields : Fields) (name : String) (read : Decoder α) (default : α) : Option α :=
  match fields.slot name with
  | .given value => read fields.scope value
  | _ => some default

/-- Reads a field that may be left out of an object. -/
def optional (fields : Fields) (name : String) (read : Decoder (Option α)) :
    Option (Option α) :=
  match fields.slot name with
  | .given value => read fields.scope value
  | .absent => some none
  | .beyond => none

end Fields

namespace Decoder

variable {α : Type}

/-- Reads a text. -/
def string : Decoder String
  | _, .string text => text
  | _, _ => none

/-- Reads a truth value. -/
def bool : Decoder Bool
  | _, .bool b => some b
  | _, _ => none

/-- Reads a natural number below a limit. -/
def natBelow (limit : Nat) : Decoder Nat
  | _, .number l => do
      let i ← l.integer?
      if 0 ≤ i && i < limit then some i.toNat else none
  | _, _ => none

/-- Reads a natural number of 64 bits. -/
def nat64 : Decoder Nat := natBelow 0x10000000000000000

/-- Reads a natural number of 32 bits. -/
def nat32 : Decoder Nat := natBelow 0x100000000

/-- Reads a binary64 number; integers are rounded to the nearest one. -/
def real : Decoder Binary64
  | _, .number l =>
      match l.integer? with
      | some i => Binary64.ofInt? i
      | none => l.real?
  | _, _ => none

/-- Reads a value as it is. -/
def json : Decoder Json
  | scope, document => document.toJson? scope.room

/-- Reads null as nothing. -/
def nullable (read : Decoder α) : Decoder (Option α)
  | _, .null => some none
  | scope, document => (read scope document).map some

/-- Reads an array. -/
def array (read : Decoder α) : Decoder (List α)
  | scope, .array items => do
      let scope ← scope.enter?
      items.mapM (read scope)
  | _, _ => none

/-- Reads a free-form object; the last of repeated keys counts. -/
def entries (read : Decoder α) : Decoder (Entries α)
  | scope, .object members => do
      let scope ← scope.enter?
      let found ← members.mapM fun (key, value) => do
        return ((← key), ← read scope value)
      return Entries.ofList found
  | _, _ => none

/-- Reads one of several names, written as a text or as an object with this
    one key and the value null. -/
def name (ofName? : String → Option α) : Decoder α
  | _, .string text => do ofName? (← text)
  | scope, .object [(some key, .null)] => do
      let _ ← scope.enter?
      ofName? key
  | _, _ => none

/-- The slots of a record that is written as an object: no field may be
    repeated, and every key has to be a text. -/
def objectSlots (names : List String) (members : List (Option String × Document)) :
    Option (List (String × Slot)) := do
  let members ← members.mapM fun (key, value) => do return ((← key), value)
  names.mapM fun name =>
    match members.filter fun member => member.1 = name with
    | [] => some (name, .absent)
    | [(_, value)] => some (name, .given value)
    | _ => none

/-- The slots of a record that is written as an array. -/
def arraySlots : List String → List Document → List (String × Slot)
  | [], _ => []
  | name :: names, [] => (name, .beyond) :: arraySlots names []
  | name :: names, item :: rest => (name, .given item) :: arraySlots names rest

/-- Reads a record by the names of its fields. -/
def record (names : List String) (read : Fields → Option α) : Decoder α
  | scope, .object members => do
      let scope ← scope.enter?
      read ⟨scope, ← objectSlots names members⟩
  | scope, .array items => do
      let scope' ← scope.enter?
      if names.length < items.length && !scope.surplus then none
      else read ⟨scope', arraySlots names items⟩
  | _, _ => none

/-- Reads a type from a JSON text. -/
def ofText? (read : Decoder α) (text : String) : Option α := do
  read Scope.text (← Document.read? text)

end Decoder

namespace Json

/-- The value that a text holds. -/
def read? (text : String) : Option Json := Decoder.ofText? Decoder.json text

end Json

end Workflow
