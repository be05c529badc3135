import Workflow.Json.Value
import Workflow.Number.Shortest

/-!
# Writing JSON

The text of a value, without blanks or laid out over lines with an indent of
two spaces. A text escapes the quote, the backslash and the characters below
U+0020, and nothing else.

## Main definitions

* `Json.quote`: A text in quotes.
* `Json.compactChars`, `Json.compact`: The text without blanks.
* `Json.prettyChars`, `Json.pretty`: The text over lines.
-/

namespace Workflow

namespace Number

/-- The text of a number. -/
def chars : Number → List Char
  | .int (.ofNat n) => Decimal.numeral n
  | .int (.negSucc n) => '-' :: Decimal.numeral (n + 1)
  | .real x => x.documentText

end Number

namespace Json

/-- A lower-case hexadecimal digit. -/
def hexDigit (n : Nat) : Char :=
  if n < 10 then Char.ofNat (48 + n) else Char.ofNat (87 + n)

/-- A character as it is written between quotes. -/
def escape (c : Char) : List Char :=
  if c = '"' then ['\\', '"']
  else if c = '\\' then ['\\', '\\']
  else if c.toNat = 8 then ['\\', 'b']
  else if c.toNat = 9 then ['\\', 't']
  else if c.toNat = 10 then ['\\', 'n']
  else if c.toNat = 12 then ['\\', 'f']
  else if c.toNat = 13 then ['\\', 'r']
  else if c.toNat < 32 then
    ['\\', 'u', '0', '0', hexDigit (c.toNat / 16), hexDigit (c.toNat % 16)]
  else [c]

/-- A text in quotes. -/
def quote (s : List Char) : List Char :=
  '"' :: (s.flatMap escape ++ ['"'])

mutual

/-- The text of a value without blanks. -/
def compactChars : Json → List Char
  | .null => "null".toList
  | .bool b => if b then "true".toList else "false".toList
  | .number n => n.chars
  | .string s => quote s.toList
  | .array items => '[' :: (compactItems items ++ [']'])
  | .object members => '\x7b' :: (compactMembers members ++ ['\x7d'])

/-- The items of an array, with commas between them. -/
def compactItems : List Json → List Char
  | [] => []
  | [item] => compactChars item
  | item :: next :: rest => compactChars item ++ ',' :: compactItems (next :: rest)

/-- The members of an object, with commas between them. -/
def compactMembers : List (String × Json) → List Char
  | [] => []
  | [(key, value)] => quote key.toList ++ ':' :: compactChars value
  | (key, value) :: next :: rest =>
      quote key.toList ++ ':' :: (compactChars value ++ ',' :: compactMembers (next :: rest))

end

/-- The text of a value without blanks. -/
def compact (value : Json) : String := String.ofList value.compactChars

/-- A line break and the indent of a level. -/
def lineBreak (level : Nat) : List Char :=
  '\n' :: List.replicate (2 * level) ' '

mutual

/-- The text of a value over lines, at a level of nesting. -/
def prettyChars (level : Nat) : Json → List Char
  | .array (item :: rest) =>
      '[' :: (lineBreak (level + 1) ++ prettyItems (level + 1) (item :: rest)
        ++ lineBreak level ++ [']'])
  | .object (member :: rest) =>
      '\x7b' :: (lineBreak (level + 1) ++ prettyMembers (level + 1) (member :: rest)
        ++ lineBreak level ++ ['\x7d'])
  | .null => "null".toList
  | .bool b => if b then "true".toList else "false".toList
  | .number n => n.chars
  | .string s => quote s.toList
  | .array [] => ['[', ']']
  | .object [] => ['\x7b', '\x7d']

/-- The items of an array, one to a line. -/
def prettyItems (level : Nat) : List Json → List Char
  | [] => []
  | [item] => prettyChars level item
  | item :: next :: rest =>
      prettyChars level item ++ ',' :: (lineBreak level ++ prettyItems level (next :: rest))

/-- The members of an object, one to a line. -/
def prettyMembers (level : Nat) : List (String × Json) → List Char
  | [] => []
  | [(key, value)] => quote key.toList ++ ':' :: ' ' :: prettyChars level value
  | (key, value) :: next :: rest =>
      quote key.toList ++ ':' :: ' ' :: (prettyChars level value ++ ',' ::
        (lineBreak level ++ prettyMembers level (next :: rest)))

end

/-- The text of a value over lines. -/
def pretty (value : Json) : String := String.ofList (value.prettyChars 0)

end Json

end Workflow
