import Workflow.Json.Printer
import Workflow.Text.Blank
import Workflow.Text.Search

/-!
# Conditions

Expressions that a Condition evaluates against what it is given. There are
four forms:

* a path, a blank and the word "exists": the path leads to something that is
  not null;
* a path, the word "contains" between blanks, and an operand: the path leads
  to a text in which the operand occurs, or to an array with an item whose
  text it is;
* a path, an exclamation mark with an equals sign, and an operand: the path
  leads to something whose text differs from the operand;
* a path, two equals signs, and an operand: the path leads to something whose
  text is the operand.

They are tried in this order. The operand may stand in quotes. The text of a
value that is no text is its JSON text. A path has parts between points; after
the first, each is the name of a member or the number of an item. What has no
form is false.

## Main definitions

* `Condition.lookUp`: The value a path leads to.
* `Condition.textOf`: The text of a value.
* `Condition.evaluate`: The truth of an expression.
* `Condition.scope`: What an expression is evaluated against.
-/

namespace Workflow

namespace Condition

/-- The limit of item numbers. -/
def itemLimit : Nat := 0x10000000000000000

/-- The number of an item. A plus sign may precede it. -/
def itemNumber? (part : List Char) : Option Nat :=
  let digits := match part with
    | '+' :: rest => rest
    | _ => part
  if digits.isEmpty || !digits.all Char.isDigit then none
  else
    let n := digits.foldl (fun n c => n * 10 + (c.toNat - 48)) 0
    if n < itemLimit then some n else none

/-- The value one part of a path leads to. -/
def follow (part : List Char) : Json → Option Json
  | .object members => Entries.find? (String.ofList part) members
  | .array items => do items[← itemNumber? part]?
  | _ => none

/-- The value that a path leads to. -/
def lookUp (scope : Entries Json) (path : List Char) : Option Json :=
  match Text.splitAt '.' path with
  | [] => none
  | first :: rest => do
      rest.foldlM (fun value part => follow part value)
        (← Entries.find? (String.ofList first) scope)

/-- The text of a value. -/
def textOf : Json → List Char
  | .string s => s.toList
  | value => value.compactChars

/-- The path and the operand around an operator. The operand may stand in
    quotes, and the path may not be empty. -/
def split? (operator : List Char) (expression : List Char) : Option (List Char × List Char) := do
  let (left, right) ← Text.splitFirst operator expression
  let path := Text.trim left
  if path.isEmpty then none
  else some (path, Text.dropEnds (· = '"') (Text.trim right))

/-- Whether a value contains an operand. -/
def contains (operand : List Char) : Json → Bool
  | .string s => Text.occursIn operand s.toList
  | .array items => items.any fun item => textOf item = operand
  | _ => false

/-- Whether a path leads to a value with a property. -/
def leadsTo (scope : Entries Json) (path : List Char) (p : Json → Bool) : Bool :=
  match lookUp scope path with
  | some value => p value
  | none => false

/-- The truth of an expression. -/
def evaluate (expression : String) (scope : Entries Json) : Bool :=
  let e := Text.trim expression.toList
  match Text.dropSuffix? " exists".toList e with
  | some path => leadsTo scope (Text.trim path) fun value => !value.isNull
  | none =>
      match split? " contains ".toList e with
      | some (path, operand) => leadsTo scope path (contains operand)
      | none =>
          match split? "!=".toList e with
          | some (path, operand) => leadsTo scope path fun value => textOf value ≠ operand
          | none =>
              match split? "==".toList e with
              | some (path, operand) => leadsTo scope path fun value => textOf value = operand
              | none => false

/-- What one input contributes to a scope: its members, or itself under the
    name of the node it comes from. -/
def contribution (id : String) : Json → List (String × Json)
  | .object members => members
  | value => [(id, value)]

/-- What an expression is evaluated against: what the run was started with,
    and then each input in order. What comes later wins. -/
def scope (runInput : Json) (inputs : Entries Json) : Entries Json :=
  let start := match runInput with
    | .object members => Entries.ofList members
    | _ => []
  inputs.foldl (fun found input => found.merge (contribution input.1 input.2)) start

end Condition

end Workflow
