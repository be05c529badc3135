import Workflow.Json.Value
import Workflow.Number.Literal

/-!
# JSON Documents

A document as it is written, before anything is made of it: members in their
order with repeated keys, numbers as literals, and texts whose escapes may
name half a surrogate pair, which is no character.

The difference to a value matters because a reader of records skips what it
has no field for. Anything well formed may be skipped: a number out of range,
half a surrogate pair, any depth of nesting. What is kept has to be a value.

The grammar is read from a list of characters. Every step of it takes a
character, so twice the length of a text is enough fuel for it.

## Main definitions

* `Document`: A document as it is written.
* `Document.read?`: The document that a text holds.
* `Document.toJson?`: The value of a document, if it has one.
-/

namespace Workflow

/-- A document as it is written. A text is `none` when its escapes do not
    spell characters. -/
inductive Document
  | null
  | bool (value : Bool)
  | number (literal : Literal)
  | string (text : Option String)
  | array (items : List Document)
  | object (members : List (Option String × Document))
deriving Inhabited

namespace Document

/-- The characters between tokens. -/
def isSpace (c : Char) : Bool := c = ' ' || c = '\n' || c = '\t' || c = '\r'

/-- A piece of a quoted text: a character, or a UTF-16 unit by its number. -/
inductive Piece
  | char (c : Char)
  | unit (n : Nat)
deriving DecidableEq, Repr

/-- The value of a hexadecimal digit. -/
def hexDigit? (c : Char) : Option Nat :=
  if '0' ≤ c && c ≤ '9' then some (c.toNat - 48)
  else if 'a' ≤ c && c ≤ 'f' then some (c.toNat - 87)
  else if 'A' ≤ c && c ≤ 'F' then some (c.toNat - 55)
  else none

/-- The character of a one-letter escape. -/
def shortEscape? (c : Char) : Option Char :=
  if c = '"' || c = '\\' || c = '/' then some c
  else if c = 'b' then some (Char.ofNat 8)
  else if c = 'f' then some (Char.ofNat 12)
  else if c = 'n' then some '\n'
  else if c = 'r' then some '\r'
  else if c = 't' then some '\t'
  else none

/-- The pieces of a text after its opening quote, and what follows its closing
    quote. -/
def pieces : List Char → Option (List Piece × List Char)
  | '"' :: rest => some ([], rest)
  | '\\' :: 'u' :: a :: b :: c :: d :: rest => do
      let w ← hexDigit? a
      let x ← hexDigit? b
      let y ← hexDigit? c
      let z ← hexDigit? d
      let (found, after) ← pieces rest
      return (.unit (((w * 16 + x) * 16 + y) * 16 + z) :: found, after)
  | '\\' :: e :: rest => do
      let c ← shortEscape? e
      let (found, after) ← pieces rest
      return (.char c :: found, after)
  | c :: rest =>
      if c.toNat < 32 || c = '\\' then none
      else do
        let (found, after) ← pieces rest
        return (.char c :: found, after)
  | [] => none

/-- The characters of a text; `none` if half a surrogate pair stands alone. -/
def join : List Piece → Option (List Char)
  | [] => some []
  | .char c :: rest => (join rest).map (c :: ·)
  | .unit n :: rest =>
      if 0xD800 ≤ n && n < 0xDC00 then
        match rest with
        | .unit m :: rest =>
            if 0xDC00 ≤ m && m < 0xE000 then
              (join rest).map
                (Char.ofNat (0x10000 + (n - 0xD800) * 0x400 + (m - 0xDC00)) :: ·)
            else none
        | _ => none
      else if 0xDC00 ≤ n && n < 0xE000 then none
      else (join rest).map (Char.ofNat n :: ·)

/-- A text after its opening quote. -/
def quoted (cs : List Char) : Option (Option String × List Char) :=
  (pieces cs).map fun found => ((join found.1).map String.ofList, found.2)

/-- The digits that a text starts with. -/
def digits (cs : List Char) : List Nat × List Char :=
  ((cs.takeWhile Char.isDigit).map fun c => c.toNat - 48, cs.dropWhile Char.isDigit)

/-- The digits before the point: a single zero, or digits without a leading
    zero. -/
def wholePart (cs : List Char) : Option (List Nat × List Char) :=
  match cs with
  | '0' :: rest => some ([0], rest)
  | _ =>
      let (found, after) := digits cs
      if found.isEmpty then none else some (found, after)

/-- The point and the digits after it, if there is a point. -/
def fractionPart (cs : List Char) : Option (List Nat × List Char) :=
  match cs with
  | '.' :: rest =>
      let (found, after) := digits rest
      if found.isEmpty then none else some (found, after)
  | _ => some ([], cs)

/-- The exponent, if there is one. -/
def exponentPart (cs : List Char) : Option (Option Int × List Char) :=
  match cs with
  | e :: rest =>
      if e = 'e' || e = 'E' then
        let (negative, rest) := match rest with
          | '+' :: rest => (false, rest)
          | '-' :: rest => (true, rest)
          | _ => (false, rest)
        let (found, after) := digits rest
        if found.isEmpty then none
        else
          let n : Nat := found.foldl (fun n d => n * 10 + d) 0
          some (some (if negative then -(n : Int) else n), after)
      else some (none, cs)
  | [] => some (none, [])

/-- A number literal. -/
def literal (cs : List Char) : Option (Literal × List Char) := do
  let (negative, cs) := match cs with
    | '-' :: rest => (true, rest)
    | _ => (false, cs)
  let (whole, cs) ← wholePart cs
  let (fraction, cs) ← fractionPart cs
  let (exponent, cs) ← exponentPart cs
  return (⟨negative, whole, fraction, exponent⟩, cs)

mutual

/-- A document at the start of a text, and what follows it. -/
def value : Nat → List Char → Option (Document × List Char)
  | 0, _ => none
  | fuel + 1, cs =>
      match cs.dropWhile isSpace with
      | 'n' :: 'u' :: 'l' :: 'l' :: rest => some (.null, rest)
      | 't' :: 'r' :: 'u' :: 'e' :: rest => some (.bool true, rest)
      | 'f' :: 'a' :: 'l' :: 's' :: 'e' :: rest => some (.bool false, rest)
      | '"' :: rest => do
          let (text, after) ← quoted rest
          return (.string text, after)
      | '[' :: rest =>
          match rest.dropWhile isSpace with
          | ']' :: after => some (.array [], after)
          | _ => do
              let (found, after) ← items fuel rest
              return (.array found, after)
      | '\x7b' :: rest =>
          match rest.dropWhile isSpace with
          | '\x7d' :: after => some (.object [], after)
          | _ => do
              let (found, after) ← members fuel rest
              return (.object found, after)
      | cs => do
          let (found, after) ← literal cs
          return (.number found, after)

/-- The items of an array after its opening bracket, up to its closing one. -/
def items : Nat → List Char → Option (List Document × List Char)
  | 0, _ => none
  | fuel + 1, cs => do
      let (item, rest) ← value fuel cs
      match rest.dropWhile isSpace with
      | ',' :: rest => do
          let (found, after) ← items fuel rest
          return (item :: found, after)
      | ']' :: after => return ([item], after)
      | _ => none

/-- The members of an object after its opening brace, up to its closing
    one. -/
def members : Nat → List Char → Option (List (Option String × Document) × List Char)
  | 0, _ => none
  | fuel + 1, cs => do
      match cs.dropWhile isSpace with
      | '"' :: rest => do
          let (key, rest) ← quoted rest
          match rest.dropWhile isSpace with
          | ':' :: rest => do
              let (found, rest) ← value fuel rest
              match rest.dropWhile isSpace with
              | ',' :: rest => do
                  let (more, after) ← members fuel rest
                  return ((key, found) :: more, after)
              | '\x7d' :: after => return ([(key, found)], after)
              | _ => none
          | _ => none
      | _ => none

end

/-- The document that a list of characters holds, with nothing but blanks
    around it. -/
def readChars? (cs : List Char) : Option Document := do
  let (found, after) ← value (2 * cs.length + 2) cs
  if (after.dropWhile isSpace).isEmpty then some found else none

/-- The document that a text holds. -/
def read? (text : String) : Option Document := readChars? text.toList

end Document

namespace Literal

/-- The value of a literal, if it is in range. -/
def number? (l : Literal) : Option Number :=
  match l.integer? with
  | some i => some (.int i)
  | none => l.real?.map .real

end Literal

namespace Document

mutual

/-- The value of a document in which at most `room` arrays and objects are
    open at a time. The last of repeated keys counts. -/
def toJson? (room : Nat) : Document → Option Json
  | .null => some .null
  | .bool b => some (.bool b)
  | .number l => l.number?.map .number
  | .string text => text.map .string
  | .array items =>
      match room with
      | 0 => none
      | room + 1 => (itemsToJson? room items).map .array
  | .object members =>
      match room with
      | 0 => none
      | room + 1 => (membersToJson? room members).map fun found =>
          .object (Entries.ofList found)

/-- The values of the items of an array. -/
def itemsToJson? (room : Nat) : List Document → Option (List Json)
  | [] => some []
  | item :: rest => do
      let first ← toJson? room item
      return first :: (← itemsToJson? room rest)

/-- The values of the members of an object, in their order. -/
def membersToJson? (room : Nat) : List (Option String × Document) →
    Option (List (String × Json))
  | [] => some []
  | (key, value) :: rest => do
      let key ← key
      let first ← toJson? room value
      return (key, first) :: (← membersToJson? room rest)

end

end Document

end Workflow
