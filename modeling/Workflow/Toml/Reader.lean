import Workflow.Text.Utf8
import Workflow.Time.Calendar
import Workflow.Toml.Table

/-!
# Reading TOML

The format in which settings are written, after version 1.0 of its
specification. A text is read into a document; what is wrong with a text that
cannot be read is not told.

Line breaks are unified first, so that a carriage return that is left is one
that may not stand where it does. Integers have 64 bits. Dates and times are
checked and then kept as records of their own, which no setting takes for a
value. Numbers that are infinite, or none, become literals that are out of
range.

Arrays and inline tables may be nested to a depth of 79, and dotted keys may
have as many parts.

## Main definitions

* `escape`, `line`, `block`, `rawLine`, `rawBlock`: Strings.
* `integer`, `real`, `moment`: Numbers, dates and times.
* `path`: Keys.
* `value`: Values.
* `expressions`: The lines of a document.
* `Toml.read?`: A whole document.
-/

namespace Workflow

namespace Toml

/-- Blanks within a line. -/
def isBlank (c : Char) : Bool := c = ' ' || c = '\t'

/-- Characters that may stand in a line of text. -/
def isPlain (c : Char) : Bool := c = '\t' || (32 ≤ c.toNat && c.toNat ≠ 127)

/-- Characters of keys without quotes. -/
def isBare (c : Char) : Bool := c.isAlphanum || c = '_' || c = '-'

/-- Drops blanks within a line. -/
def skipBlanks (cs : List Char) : List Char := cs.dropWhile isBlank

/-- Unifies line breaks. -/
def unify : List Char → List Char
  | '\r' :: '\n' :: rest => '\n' :: unify rest
  | c :: rest => c :: unify rest
  | [] => []

/-- The character that a number of hexadecimal digits stands for. -/
def hexChar? (width : Nat) (cs : List Char) : Option (Char × List Char) := do
  let digits ← (cs.take width).mapM Text.hexValue?
  let n := digits.foldl (fun n d => n * 16 + d) 0
  if digits.length = width && n.isValidChar then some (Char.ofNat n, cs.drop width) else none

/-- The character of an escape, after its backslash. -/
def escape (cs : List Char) : Option (Char × List Char) :=
  match cs with
  | 'b' :: rest => some (Char.ofNat 8, rest)
  | 't' :: rest => some ('\t', rest)
  | 'n' :: rest => some ('\n', rest)
  | 'f' :: rest => some (Char.ofNat 12, rest)
  | 'r' :: rest => some ('\r', rest)
  | '"' :: rest => some ('"', rest)
  | '\\' :: rest => some ('\\', rest)
  | 'u' :: rest => hexChar? 4 rest
  | 'U' :: rest => hexChar? 8 rest
  | _ => none

/-- A string in quotes, after the first quote. -/
def line : Nat → List Char → Option (List Char × List Char)
  | 0, _ => none
  | fuel + 1, cs =>
      match cs with
      | '"' :: rest => some ([], rest)
      | '\\' :: rest => do
          let (c, rest) ← escape rest
          let (text, after) ← line fuel rest
          return (c :: text, after)
      | c :: rest =>
          if isPlain c then (line fuel rest).map fun found => (c :: found.1, found.2) else none
      | [] => none

/-- The end of a string in three quotes, where up to two more belong to the
    string. -/
def closing (quote : Char) (cs : List Char) : Option (List Char × List Char) :=
  match cs with
  | a :: b :: c :: rest =>
      if a = quote && b = quote && c = quote then
        let extra := (rest.take 2).takeWhile fun d => d = quote
        some (extra, rest.drop extra.length)
      else none
  | _ => none

/-- A string in three quotes, after the first three. A backslash at the end of
    a line hides all blanks and line breaks that follow. -/
def block : Nat → List Char → Option (List Char × List Char)
  | 0, _ => none
  | fuel + 1, cs =>
      match closing '"' cs, cs with
      | some found, _ => some found
      | none, '\\' :: rest =>
          match skipBlanks rest with
          | '\n' :: hidden => block fuel (hidden.dropWhile fun c => isBlank c || c = '\n')
          | _ => do
              let (c, rest) ← escape rest
              let (text, after) ← block fuel rest
              return (c :: text, after)
      | none, c :: rest =>
          if isPlain c || c = '\n' then
            (block fuel rest).map fun found => (c :: found.1, found.2)
          else none
      | none, [] => none

/-- A string in apostrophes, after the first one. -/
def rawLine : List Char → Option (List Char × List Char)
  | '\'' :: rest => some ([], rest)
  | c :: rest =>
      if isPlain c then (rawLine rest).map fun found => (c :: found.1, found.2) else none
  | [] => none

/-- A string in three apostrophes, after the first three. -/
def rawBlock : List Char → Option (List Char × List Char)
  | [] => none
  | c :: rest =>
      match closing '\'' (c :: rest) with
      | some found => some found
      | none =>
          if isPlain c || c = '\n' then
            (rawBlock rest).map fun found => (c :: found.1, found.2)
          else none

/-- Drops the line break that may follow three opening quotes. -/
def skipBreak (cs : List Char) : List Char :=
  match cs with
  | '\n' :: rest => rest
  | _ => cs

/-- A string of any kind. -/
def string (cs : List Char) : Option (List Char × List Char) :=
  match cs with
  | '"' :: '"' :: '"' :: rest => block (rest.length + 1) (skipBreak rest)
  | '\'' :: '\'' :: '\'' :: rest => rawBlock (skipBreak rest)
  | '"' :: rest => line (rest.length + 1) rest
  | '\'' :: rest => rawLine rest
  | _ => none

/-- Digits that follow a digit; a line below may stand between two of them. -/
def moreDigits (isDigit : Char → Bool) : List Char → List Char × List Char
  | [] => ([], [])
  | c :: rest =>
      if isDigit c then
        let (digits, after) := moreDigits isDigit rest
        (c :: digits, after)
      else
        match c, rest with
        | '_', d :: _ => if isDigit d then moreDigits isDigit rest else ([], c :: rest)
        | _, _ => ([], c :: rest)

/-- Digits, at least one. -/
def digits (isDigit : Char → Bool) (cs : List Char) : Option (List Char × List Char) :=
  match cs with
  | c :: rest =>
      if isDigit c then
        let (digits, after) := moreDigits isDigit rest
        some (c :: digits, after)
      else none
  | [] => none

/-- A sign, and whether it is a minus. -/
def sign (cs : List Char) : Bool × List Char :=
  match cs with
  | '-' :: rest => (true, rest)
  | '+' :: rest => (false, rest)
  | _ => (false, cs)

/-- Decimal digits without a leading zero. -/
def wholeDigits (cs : List Char) : Option (List Char × List Char) :=
  match cs with
  | '0' :: rest => some (['0'], rest)
  | _ => digits Char.isDigit cs

/-- The number that digits stand for. -/
def number (base : Nat) (ds : List Char) : Nat :=
  ds.foldl (fun n c => n * base + (Text.hexValue? c).getD 0) 0

/-- The literal of an integer of 64 bits. -/
def integerOf (negative : Bool) (n : Nat) : Option Document :=
  if n < 0x8000000000000000 || (negative && n = 0x8000000000000000) then
    let digits := (Nat.toDigits 10 n).map fun c => c.toNat - 48
    some (.number ⟨negative && n ≠ 0, digits, [], none⟩)
  else none

/-- An integer. -/
def integer (cs : List Char) : Option (Document × List Char) :=
  let based (base : Nat) (isDigit : Char → Bool) (rest : List Char) := do
    let (ds, after) ← digits isDigit rest
    return (← integerOf false (number base ds), after)
  match cs with
  | '0' :: 'x' :: rest => based 16 (fun c => (Text.hexValue? c).isSome) rest
  | '0' :: 'o' :: rest => based 8 (fun c => '0' ≤ c && c ≤ '7') rest
  | '0' :: 'b' :: rest => based 2 (fun c => c = '0' || c = '1') rest
  | _ => do
      let (negative, rest) := sign cs
      let (ds, after) ← wholeDigits rest
      return (← integerOf negative (number 10 ds), after)

/-- The exponent of a number. -/
def exponent (cs : List Char) : Option (Int × List Char) :=
  match cs with
  | e :: rest =>
      if e = 'e' || e = 'E' then do
        let (negative, rest) := sign rest
        let (ds, after) ← digits Char.isDigit rest
        let n : Nat := number 10 ds
        return (if negative then -(n : Int) else n, after)
      else none
  | [] => none

/-- A literal that is out of range. -/
def beyond (negative : Bool) : Literal := ⟨negative, [1], [], some 1000⟩

/-- A number that is infinite, or none. -/
def special (cs : List Char) : Option (Document × List Char) :=
  let (negative, rest) := sign cs
  match rest with
  | 'i' :: 'n' :: 'f' :: after => some (.number (beyond negative), after)
  | 'n' :: 'a' :: 'n' :: after => some (.number (beyond negative), after)
  | _ => none

/-- A number with a fraction, an exponent or both. Positive ones may not be out
    of range. -/
def real (cs : List Char) : Option (Document × List Char) := do
  let (negative, rest) := sign cs
  let (whole, rest) ← wholeDigits rest
  let (fraction, power, after) ← match exponent rest, rest with
    | some (power, after), _ => some ([], some power, after)
    | none, '.' :: rest => do
        let (fraction, rest) ← digits Char.isDigit rest
        match exponent rest with
        | some (power, after) => some (fraction, some power, after)
        | none => some (fraction, none, rest)
    | none, _ => none
  let values (ds : List Char) := ds.map fun c => c.toNat - 48
  let literal : Literal := ⟨negative, values whole, values fraction, power⟩
  if literal.real?.isNone && !negative then none else some (.number literal, after)

/-- A number of so many digits. -/
def fixed (width : Nat) (cs : List Char) : Option (Nat × List Char) :=
  let ds := cs.take width
  if ds.length = width && ds.all Char.isDigit then some (number 10 ds, cs.drop width) else none

/-- A character that has to be there. -/
def expect (c : Char) (cs : List Char) : Option (List Char) :=
  match cs with
  | d :: rest => if d = c then some rest else none
  | [] => none

/-- A date. -/
def date (cs : List Char) : Option (List Char) := do
  let (year, cs) ← fixed 4 cs
  let (month, cs) ← fixed 2 (← expect '-' cs)
  let (day, cs) ← fixed 2 (← expect '-' cs)
  if (Date.mk year month day).isValid then some cs else none

/-- A time of day. A minute may have a 61st second. -/
def clock (cs : List Char) : Option (List Char) := do
  let (hour, cs) ← fixed 2 cs
  let (minute, cs) ← fixed 2 (← expect ':' cs)
  let (second, cs) ← fixed 2 (← expect ':' cs)
  if 24 ≤ hour || 60 ≤ minute || 61 ≤ second then none
  else
    match cs with
    | '.' :: rest =>
        let ds := rest.takeWhile Char.isDigit
        if ds.isEmpty then some cs else some (rest.drop ds.length)
    | _ => some cs

/-- The offset of a time from universal time, if there is one. -/
def offset (cs : List Char) : List Char :=
  let shift (rest : List Char) : Option (List Char) := do
    let (hours, rest) ← fixed 2 rest
    let (minutes, rest) ← fixed 2 (← expect ':' rest)
    if 24 ≤ hours || 60 ≤ minutes then none else some rest
  match cs with
  | c :: rest =>
      if c = 'Z' || c = 'z' then rest
      else if c = '+' || c = '-' then (shift rest).getD cs
      else cs
  | [] => cs

/-- A date, a time, or both. -/
def moment (cs : List Char) : Option (Document × List Char) :=
  let record := Document.object [(some "datetime", .string (some ""))]
  match date cs with
  | some after =>
      match after with
      | c :: rest =>
          if c = 'T' || c = 't' || c = ' ' then
            match clock rest with
            | some timed => some (record, offset timed)
            | none => some (record, after)
          else some (record, after)
      | [] => some (record, after)
  | none => (clock cs).map fun after => (record, after)

/-- One part of a key. -/
def part (cs : List Char) : Option (String × List Char) :=
  match cs with
  | '"' :: rest => (line (rest.length + 1) rest).map fun found => (String.ofList found.1, found.2)
  | '\'' :: rest => (rawLine rest).map fun found => (String.ofList found.1, found.2)
  | _ =>
      let name := cs.takeWhile isBare
      if name.isEmpty then none else some (String.ofList name, cs.drop name.length)

/-- A key: the parts before the last, the last part, and what follows. -/
def path : Nat → List Char → Option (List String × String × List Char)
  | 0, _ => none
  | fuel + 1, cs => do
      let (first, rest) ← part (skipBlanks cs)
      match skipBlanks rest with
      | '.' :: rest => do
          let (parts, last, after) ← path fuel rest
          return (first :: parts, last, after)
      | after => return ([], first, after)

/-- How deep values may be nested, and how many parts a key may have. -/
def depthLimit : Nat := 79

/-- Drops blanks, line breaks and comments. -/
def skipLines : Bool → List Char → Option (List Char)
  | _, [] => some []
  | true, c :: rest =>
      if c = '\n' then skipLines false rest
      else if isPlain c then skipLines true rest
      else none
  | false, c :: rest =>
      if c = '#' then skipLines true rest
      else if isBlank c || c = '\n' then skipLines false rest
      else some (c :: rest)

/-- A value that is neither an array nor a table. -/
def scalar (cs : List Char) : Option (Document × List Char) :=
  match cs with
  | 't' :: 'r' :: 'u' :: 'e' :: rest => some (.bool true, rest)
  | 'f' :: 'a' :: 'l' :: 's' :: 'e' :: rest => some (.bool false, rest)
  | c :: _ =>
      if c = '"' || c = '\'' then
        (string cs).map fun found => (.string (some (String.ofList found.1)), found.2)
      else
        match moment cs, real cs, special cs with
        | some found, _, _ => some found
        | none, some found, _ => some found
        | none, none, some found => some found
        | none, none, none => integer cs
  | [] => none

mutual

/-- A value; `room` is how many arrays and inline tables may still be
    opened. -/
def value : Nat → Nat → List Char → Option (Document × List Char)
  | 0, _, _ => none
  | fuel + 1, room, cs =>
      match cs with
      | '[' :: rest =>
          if room = 0 then none
          else (items fuel (room - 1) rest).map fun found => (.array found.1, found.2)
      | '\x7b' :: rest =>
          if room = 0 then none
          else
            match skipBlanks rest with
            | '\x7d' :: after => some (.object [], after)
            | rest => do
                let (members, after) ← pairs fuel (room - 1) [] rest
                return (members.toDocument, after)
      | _ => scalar cs

/-- The items of an array, up to its closing bracket. A comma may follow the
    last one. -/
def items : Nat → Nat → List Char → Option (List Document × List Char)
  | 0, _, _ => none
  | fuel + 1, room, cs => do
      match ← skipLines false cs with
      | ']' :: after => return ([], after)
      | cs => do
          let (item, rest) ← value fuel room cs
          match ← skipLines false rest with
          | ',' :: rest => do
              let (found, after) ← items fuel room rest
              return (item :: found, after)
          | ']' :: after => return ([item], after)
          | _ => none

/-- The keys and values of an inline table, up to its closing brace. -/
def pairs : Nat → Nat → Members → List Char → Option (Members × List Char)
  | 0, _, _, _ => none
  | fuel + 1, room, members, cs => do
      let (parts, key, rest) ← path depthLimit cs
      let (found, rest) ← value fuel room (skipBlanks (← expect '=' rest))
      let members ← members.assign found key parts
      match skipBlanks rest with
      | ',' :: rest => pairs fuel room members rest
      | '\x7d' :: after => return (members, after)
      | _ => none

end

/-- The end of a line, with a comment or without. -/
def lineEnd (cs : List Char) : Option (List Char) :=
  match skipBlanks cs with
  | [] => some []
  | '\n' :: rest => some rest
  | '#' :: rest =>
      match rest.dropWhile isPlain with
      | [] => some []
      | '\n' :: rest => some rest
      | _ => none
  | _ => none

/-- A line with a header: the path to the new table, and the members. -/
def header (members : Members) (cs : List Char) :
    Option (List String × Members × List Char) :=
  match cs with
  | '[' :: rest => do
      let (parts, key, rest) ← path depthLimit rest
      let rest ← expect ']' (← expect ']' rest)
      return (parts ++ [key], ← members.changeAt (Members.openElement key) parts, rest)
  | rest => do
      let (parts, key, rest) ← path depthLimit rest
      let rest ← expect ']' rest
      return (parts ++ [key], ← members.changeAt (Members.openTable key) parts, rest)

/-- The lines of a document. Keys belong to the table at `current`. -/
def expressions : Nat → List String → Members → List Char → Option Members
  | 0, _, _, _ => none
  | fuel + 1, current, members, cs => do
      match skipBlanks cs with
      | [] => return members
      | '[' :: rest => do
          let (current, members, rest) ← header members rest
          expressions fuel current members (← lineEnd rest)
      | c :: rest =>
          if c = '\n' || c = '#' then expressions fuel current members (← lineEnd (c :: rest))
          else do
            let (parts, key, rest) ← path depthLimit (c :: rest)
            let rest := skipBlanks (← expect '=' rest)
            let (found, rest) ← value (2 * rest.length + 2) depthLimit rest
            let members ← members.changeAt (Members.assign found key parts) current
            expressions fuel current members (← lineEnd rest)

/-- The document that a text holds. A byte order mark may stand before it. -/
def read? (text : String) : Option Document :=
  let cs := unify text.toList
  let cs := match cs with
    | c :: rest => if c.toNat = 0xFEFF then rest else cs
    | [] => cs
  (expressions (cs.length + 1) [] [] cs).map Members.toDocument

end Toml

end Workflow
