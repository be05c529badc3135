import Workflow.Number.Binary64

/-!
# Shortest Decimals

The decimal text of a binary64 number: the fewest digits that lie nearer to it
than to any other number of the format, and of those the nearest.

A number rounds every real in an interval around it to itself. The ends lie
half way to its neighbours and belong to the interval when its significand is
even. The search tries one digit, two digits, and so on: of the decimals with
that many digits only the two around the number can be candidates, and the
first count with a candidate inside the interval wins. Everything is compared
as natural numbers over a common denominator.

Two formats are built on the digits. A *document* number writes a point or an
exponent always, and an exponent outside of 1e-5 to 1e16; a *plain* number
never writes an exponent and needs no point.

## Main definitions

* `Decimal`: A number `digits * 10 ^ power`.
* `shortest`: The shortest decimal of a positive number.
* `documentText`: The text with a point or an exponent.
* `plainText`: The text without exponents.
-/

namespace Workflow

/-- The decimal `digits * 10 ^ power`. -/
structure Decimal where
  digits : Nat
  power : Int
deriving DecidableEq, Repr

namespace Decimal

/-- The digits as characters. -/
def numeral (n : Nat) : List Char := Nat.toDigits 10 n

/-- Drops trailing zeros from the digits, at most `fuel` of them. -/
def strip : Nat → Decimal → Decimal
  | 0, d => d
  | fuel + 1, d =>
      if d.digits % 10 = 0 && d.digits != 0 then strip fuel ⟨d.digits / 10, d.power + 1⟩
      else d

end Decimal

namespace Binary64

/-- The interval of the reals that round to a positive number, in units of
    `2 ^ (scale - 2)`: its lower end, the number, and its upper end. The gap
    below a power of two is half of the gap above it. -/
def interval (x : Binary64) : Nat × Nat × Nat :=
  let m := x.significand
  if x.fraction.val = 0 && 1 < x.exponent.val then (4 * m - 1, 4 * m, 4 * m + 2)
  else (4 * m - 2, 4 * m, 4 * m + 2)

/-- Whether the decimal `digits * 10 ^ power` rounds to the positive `x`. -/
def holds (x : Binary64) (d : Decimal) : Bool :=
  let (low, _, high) := x.interval
  let scale := x.scale - 2
  let left := d.digits * Nat.pow 10 d.power.toNat * Nat.pow 2 (-scale).toNat
  let unit := Nat.pow 10 (-d.power).toNat * Nat.pow 2 scale.toNat
  if x.significand % 2 = 0 then low * unit ≤ left && left ≤ high * unit
  else low * unit < left && left < high * unit

/-- The two decimals with the given power around a positive number, the nearer
    one first; from the middle, the one with the even last digit. -/
def around (x : Binary64) (power : Int) : List Decimal :=
  let (num, den) := x.ratio
  let top := num * Nat.pow 10 (-power).toNat
  let unit := den * Nat.pow 10 power.toNat
  let below : Decimal := ⟨top / unit, power⟩
  let above : Decimal := ⟨top / unit + 1, power⟩
  let twice := 2 * (top % unit)
  if twice < unit || (twice = unit && below.digits % 2 = 0) then [below, above]
  else [above, below]

/-- The position of the decimal point before the first digit of a positive
    number: the least `k` with the number below `10 ^ k`. -/
def magnitude (x : Binary64) : Int :=
  let (num, den) := x.ratio
  -- The decimal logarithm, from the binary one, is one too small at most.
  let guess : Int := (log2Ratio num den) * 30103 / 100000
  let fits (k : Int) : Bool := num * Nat.pow 10 (-k).toNat < den * Nat.pow 10 k.toNat
  if fits guess then guess
  else if fits (guess + 1) then guess + 1
  else guess + 2

/-- The shortest decimal among those with at most `17` digits, trying the
    counts of digits from `17 - left` on. -/
def search (x : Binary64) : Nat → Decimal
  | 0 =>
      match x.around (x.magnitude - 17) with
      | d :: _ => d
      | [] => ⟨0, 0⟩
  | left + 1 =>
      match (x.around (x.magnitude - (16 - left : Nat))).find? (x.holds ·) with
      | some d => d
      | none => search x left

/-- The shortest decimal that rounds to a number's magnitude. -/
def shortest (x : Binary64) : Decimal :=
  if x.isZero then ⟨0, 0⟩ else (search x 16).strip 20

/-- Puts a sign before a text. -/
def signed (negative : Bool) (s : List Char) : List Char :=
  if negative then '-' :: s else s

/-- Digits with the point after the first `k` of them, filled up with zeros on
    either side; `k` may be negative or beyond the last digit. -/
def withPoint (digits : List Char) (k : Int) (integral : List Char) : List Char :=
  if k ≤ 0 then "0.".toList ++ List.replicate (-k).toNat '0' ++ digits
  else if k < digits.length then digits.take k.toNat ++ '.' :: digits.drop k.toNat
  else digits ++ List.replicate (k.toNat - digits.length) '0' ++ integral

/-- The text of a number in a document: positional with at least one digit
    after the point for decimal exponents from -5 to 15, else with an
    exponent that shows its sign. -/
def documentText (x : Binary64) : List Char :=
  if x.isZero then signed x.negative "0.0".toList
  else
    let d := x.shortest
    let digits := Decimal.numeral d.digits
    let k := d.power + digits.length
    let exponent := k - 1
    signed x.negative <|
      if -5 ≤ exponent && exponent ≤ 15 then withPoint digits k ".0".toList
      else
        let mantissa := match digits with
          | [c] => [c]
          | c :: rest => c :: '.' :: rest
          | [] => []
        mantissa ++ 'e' :: (if exponent < 0 then '-' else '+') ::
          Decimal.numeral exponent.natAbs

/-- The text of a number without an exponent, and without a point when it is
    integral. -/
def plainText (x : Binary64) : List Char :=
  if x.isZero then signed x.negative "0".toList
  else
    let d := x.shortest
    let digits := Decimal.numeral d.digits
    signed x.negative (withPoint digits (d.power + digits.length) [])

end Binary64

end Workflow
