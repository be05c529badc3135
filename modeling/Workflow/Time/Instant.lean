import Workflow.Number.Shortest
import Workflow.Text.Blank
import Workflow.Time.Calendar

/-!
# Instants

Points in time, written as RFC 3339 texts in UTC.

A text may give any offset and is converted. Reading is lenient: a blank may
stand for the letter between date and time, blanks may stand around the
separators, a field may have fewer digits than usual, and digits beyond the
nanosecond are dropped. A second numbered 60 is a leap second and is kept as
such: the instant has the second before it and more than a second of
nanoseconds.

Written instants have no fraction, or 3, 6 or 9 digits of it, whichever is
the least that is exact.

## Main definitions

* `Instant`: Seconds since 1970 and nanoseconds.
* `Instant.addMillis`: A later instant.
* `Instant.toText`: The text of an instant.
* `Instant.offsetText`, `minuteText`, `nameText`: Other texts of it.
* `Instant.ofText?`: The instant of a text.
-/

namespace Workflow

/-- A point in time: seconds since the start of 1970 in UTC, and nanoseconds,
    which exceed a second in a leap second. -/
structure Instant where
  seconds : Int
  nanos : Nat
deriving DecidableEq, Repr, Inhabited

namespace Instant

/-- Whether one instant is before another. -/
def before (a b : Instant) : Bool :=
  a.seconds < b.seconds || (a.seconds = b.seconds && a.nanos < b.nanos)

/-- The instant some milliseconds later. -/
def addMillis (t : Instant) (ms : Nat) : Instant :=
  let nanos := t.nanos + ms * 1000000
  ⟨t.seconds + (nanos / 1000000000 : Nat), nanos % 1000000000⟩

/-- A numeral filled up with zeros on the left. -/
def padded (width n : Nat) : List Char :=
  let digits := Decimal.numeral n
  List.replicate (width - digits.length) '0' ++ digits

/-- A year: four digits, and a sign beyond them. -/
def yearText (year : Int) : List Char :=
  if 0 ≤ year && year ≤ 9999 then padded 4 year.toNat
  else (if year < 0 then '-' else '+') :: padded 4 year.natAbs

/-- The fraction of a second. -/
def fractionText (nanos : Nat) : List Char :=
  if nanos = 0 then []
  else if nanos % 1000000 = 0 then '.' :: padded 3 (nanos / 1000000)
  else if nanos % 1000 = 0 then '.' :: padded 6 (nanos / 1000)
  else '.' :: padded 9 nanos

/-- The date of an instant. -/
def date (t : Instant) : Date := Date.ofDays (t.seconds.fdiv 86400)

/-- The seconds since the start of the day. -/
def secondOfDay (t : Instant) : Nat := (t.seconds - t.seconds.fdiv 86400 * 86400).toNat

/-- The digits of an instant up to the second, with separators in the date,
    between date and time, and in the time. -/
def secondChars (inDate between inTime : List Char) (t : Instant) : List Char :=
  let rest := t.secondOfDay
  yearText t.date.year ++ inDate ++ padded 2 t.date.month ++ inDate ++ padded 2 t.date.day
    ++ between ++ padded 2 (rest / 3600) ++ inTime ++ padded 2 (rest / 60 % 60)
    ++ inTime ++ padded 2 (rest % 60 + t.nanos / 1000000000)

/-- The digits of an instant with its fraction of a second. -/
def chars (t : Instant) : List Char :=
  secondChars ['-'] ['T'] [':'] t ++ fractionText (t.nanos % 1000000000)

/-- The text of an instant. -/
def toText (t : Instant) : String := String.ofList (t.chars ++ ['Z'])

/-- The text of an instant with its offset from UTC in numbers. -/
def offsetText (t : Instant) : String := String.ofList (t.chars ++ "+00:00".toList)

/-- The text of an instant up to the minute, for people. -/
def minuteText (t : Instant) : String :=
  let shown := secondChars ['-'] [' '] [':'] t
  String.ofList (shown.take (shown.length - 3))

/-- The text of an instant up to the second, for names of files. -/
def nameText (t : Instant) : String := String.ofList (secondChars [] ['_'] [] t)

/-- Drops the blanks that a text starts with. -/
def skip (cs : List Char) : List Char := cs.dropWhile Text.isBlank

/-- A number of one digit to `width` digits. -/
def number (width : Nat) (cs : List Char) : Option (Nat × List Char) :=
  let digits := (cs.take width).takeWhile Char.isDigit
  if digits.isEmpty then none
  else some (digits.foldl (fun n c => n * 10 + (c.toNat - 48)) 0, cs.drop digits.length)

/-- A number of two digits at most, after blanks. -/
def field (cs : List Char) : Option (Nat × List Char) := number 2 (skip cs)

/-- A year: up to four digits, or any number of them after a sign. -/
def year (cs : List Char) : Option (Int × List Char) :=
  match skip cs with
  | '-' :: rest => (number rest.length rest).map fun (n, rest) => (-(n : Int), rest)
  | '+' :: rest => (number rest.length rest).map fun (n, rest) => ((n : Int), rest)
  | rest => (number 4 rest).map fun (n, rest) => ((n : Int), rest)

/-- A separator, with blanks before it. -/
def separator (c : Char) (cs : List Char) : Option (List Char) :=
  match skip cs with
  | d :: rest => if c = d then some rest else none
  | [] => none

/-- The fraction of a second, in nanoseconds. -/
def fraction : List Char → Option (Nat × List Char)
  | '.' :: rest => do
      let (n, after) ← number 9 rest
      let width := rest.length - after.length
      return (n * Nat.pow 10 (9 - width), after.dropWhile Char.isDigit)
  | cs => some (0, cs)

/-- The minutes and seconds east of UTC, after the sign of the offset. -/
def offsetAfterSign (negative : Bool) (cs : List Char) : Option (Int × List Char) := do
  match cs with
  | a :: b :: rest =>
      if !a.isDigit || !b.isDigit then none
      else
        match rest.dropWhile fun c => c = ':' || Text.isBlank c with
        | c :: d :: rest =>
            if !('0' ≤ c && c ≤ '5') || !d.isDigit then none
            else
              let hours := (a.toNat - 48) * 10 + (b.toNat - 48)
              let minutes := (c.toNat - 48) * 10 + (d.toNat - 48)
              let seconds : Int := (hours * 3600 + minutes * 60 : Nat)
              some (if negative then -seconds else seconds, rest)
        | _ => none
  | _ => none

/-- The offset of a time from UTC, in seconds. -/
def offset (cs : List Char) : Option (Int × List Char) :=
  match cs with
  | a :: b :: c :: rest =>
      if [a, b, c].map Char.toLower = ['u', 't', 'c'] then some (0, rest)
      else if a = 'Z' || a = 'z' then some (0, b :: c :: rest)
      else if a = '+' then offsetAfterSign false (b :: c :: rest)
      else if a = '-' || a = '\u2212' then offsetAfterSign true (b :: c :: rest)
      else none
  | a :: rest => if a = 'Z' || a = 'z' then some (0, rest) else none
  | [] => none

/-- The instant of a text. -/
def ofText? (text : String) : Option Instant := do
  let (year, cs) ← year text.toList
  let (month, cs) ← field (← separator '-' cs)
  let (day, cs) ← field (← separator '-' cs)
  let cs ← match cs with
    | c :: rest => if c = 'T' || c = 't' || c = ' ' then some rest else none
    | [] => none
  let (hour, cs) ← field cs
  let (minute, cs) ← field (← separator ':' cs)
  let (second, cs) ← field (← separator ':' cs)
  let (nanos, cs) ← fraction cs
  let (east, cs) ← offset (skip cs)
  if !(skip cs).isEmpty then none
  else
    let date : Date := ⟨year, month, day⟩
    if !date.isValid || year < -262143 || 262142 < year || 24 ≤ hour || 60 ≤ minute
        || 60 < second || 86400 ≤ east.natAbs then none
    else
      let leap := if second = 60 then 1 else 0
      some ⟨date.toDays * 86400 + (hour * 3600 + minute * 60 + (second - leap) : Nat) - east,
        nanos + leap * 1000000000⟩

end Instant

end Workflow
