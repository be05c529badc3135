import Workflow.Json.Printer

/-!
# Random Identifiers

Ids for nodes and runs that nobody has chosen. An id has 128 bits, written as
32 hexadecimal digits in groups of 8, 4, 4, 4 and 12. All bits are random but
six, which say that they are: the 13th digit is 4, and the 17th is one of 8, 9,
a and b.

## Main definitions

* `Identifier.ofRandom`: The id that a random number stands for.
-/

namespace Workflow

namespace Identifier

/-- The last hexadecimal digits of a number. -/
def digits : Nat → Nat → List Char
  | 0, _ => []
  | width + 1, n => digits width (n / 16) ++ [Json.hexDigit (n % 16)]

/-- The id that a random number stands for. -/
def ofRandom (n : Nat) : String :=
  let last := n % 0x1000000000000
  let clock := 0x8000 + n / 0x1000000000000 % 0x4000
  let version := 4 * 0x1000 + n / 0x4000000000000000 % 0x1000
  let middle := n / 0x4000000000000000000 % 0x10000
  let first := n / 0x40000000000000000000000
  String.ofList <| digits 8 first ++ '-' :: digits 4 middle ++ '-' :: digits 4 version
    ++ '-' :: digits 4 clock ++ '-' :: digits 12 last

/-- How many characters an id has. -/
def length : Nat := 36

end Identifier

end Workflow
