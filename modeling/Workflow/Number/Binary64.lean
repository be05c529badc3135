
/-!
# Binary64 Numbers

Finite floating point numbers in binary64 format, with their arithmetic done
exactly in natural numbers and rounded once: to the nearest number of the
format, and from the middle of two to the one with the even significand.

Only finite numbers occur in the data this library handles, so the type holds
no others, and an operation that leaves the range gives `none`.

A number is its sign, its exponent field and its fraction field. That makes
equality of numbers equality of their encodings: the two zeros are different
numbers here, and `same` is the comparison that takes them for one.

## Main definitions

* `Binary64`: A finite number of the format.
* `significand`, `scale`: The number is `significand * 2 ^ scale`, up to sign.
* `round`: The number of the format nearest to a quotient.
* `add`, `mul`, `div`: Rounded sum, product and quotient.
* `truncate`: The whole part of a number that is not negative.
* `same`: Equality of values.
-/

namespace Workflow

/-- A finite binary64 number: its sign, its exponent field and its fraction
    field. -/
structure Binary64 where
  negative : Bool
  exponent : Fin 2047
  fraction : Fin 0x10000000000000
deriving DecidableEq, Repr

namespace Binary64

/-- The significand, with the leading bit that normal numbers leave out. -/
def significand (x : Binary64) : Nat :=
  if x.exponent.val = 0 then x.fraction.val else 0x10000000000000 + x.fraction.val

/-- The power of two that the significand counts. -/
def scale (x : Binary64) : Int :=
  (max 1 x.exponent.val : Nat) - 1075

/-- The number with these fields, reduced to their ranges. -/
def ofFields (negative : Bool) (exponent fraction : Nat) : Binary64 :=
  ⟨negative, ⟨exponent % 2047, Nat.mod_lt _ (by decide)⟩,
    ⟨fraction % 0x10000000000000, Nat.mod_lt _ (by decide)⟩⟩

/-- Zero with a sign. -/
def zero (negative : Bool) : Binary64 := ofFields negative 0 0

/-- One half. -/
def half : Binary64 := ofFields false 1022 0

instance : Inhabited Binary64 := ⟨zero false⟩

/-- Whether a number is one of the two zeros. -/
def isZero (x : Binary64) : Bool := x.significand == 0

/-- Equality of values: the two zeros are equal. -/
def same (x y : Binary64) : Bool :=
  x == y || (x.isZero && y.isZero)

/-- The magnitude as a quotient of natural numbers. -/
def ratio (x : Binary64) : Nat × Nat :=
  (x.significand * Nat.pow 2 x.scale.toNat, Nat.pow 2 (-x.scale).toNat)

/-- The quotient rounded to the nearest natural number, from the middle to
    the even one. -/
def divEven (num den : Nat) : Nat :=
  let quotient := num / den
  let twice := 2 * (num % den)
  if twice < den then quotient
  else if twice = den then quotient + quotient % 2
  else quotient + 1

/-- The greatest `k` with `2 ^ k` at most `num / den`, for positive `num`. -/
def log2Ratio (num den : Nat) : Int :=
  let k : Int := (num.log2 : Int) - den.log2
  if num * Nat.pow 2 (-k).toNat < den * Nat.pow 2 k.toNat then k - 1 else k

/-- The number of the format whose magnitude is `units * 2 ^ scale`, for a
    scale of at least -1074. -/
def ofUnits (negative : Bool) (units : Nat) (scale : Int) : Option Binary64 :=
  if units < 0x10000000000000 then some (ofFields negative 0 units)
  else
    let field := (scale + 1075).toNat
    if field < 2047 then some (ofFields negative field (units - 0x10000000000000))
    else none

/-- The number of the format nearest to `num / den`; `none` when the rounded
    value is out of range. -/
def round (negative : Bool) (num den : Nat) : Option Binary64 :=
  if num = 0 then some (zero negative)
  else
    let scale : Int := max (-1074) (log2Ratio num den - 52)
    let units := divEven (num * Nat.pow 2 (-scale).toNat) (den * Nat.pow 2 scale.toNat)
    if units = 0x20000000000000 then ofUnits negative 0x10000000000000 (scale + 1)
    else ofUnits negative units scale

/-- The number nearest to a natural number. -/
def ofNat? (n : Nat) : Option Binary64 := round false n 1

/-- The number nearest to an integer. -/
def ofInt? (i : Int) : Option Binary64 := round (i < 0) i.natAbs 1

/-- The rounded sum. A sum of zero is the positive zero unless both numbers
    are negative. -/
def add (x y : Binary64) : Option Binary64 :=
  let a := x.ratio
  let b := y.ratio
  let signed (negative : Bool) (n : Nat) : Int := if negative then -(n : Int) else n
  let sum := signed x.negative (a.1 * b.2) + signed y.negative (b.1 * a.2)
  if sum = 0 then some (zero (x.negative && y.negative))
  else round (sum < 0) sum.natAbs (a.2 * b.2)

/-- The rounded product. -/
def mul (x y : Binary64) : Option Binary64 :=
  let a := x.ratio
  let b := y.ratio
  round (x.negative != y.negative) (a.1 * b.1) (a.2 * b.2)

/-- The rounded quotient, by a number that is not zero. -/
def div (x y : Binary64) : Option Binary64 :=
  let a := x.ratio
  let b := y.ratio
  round (x.negative != y.negative) (a.1 * b.2) (a.2 * b.1)

/-- The whole part of a number; of a negative one, zero. -/
def truncate (x : Binary64) : Nat :=
  if x.negative then 0 else x.ratio.1 / x.ratio.2

/-- The number with the opposite sign. -/
def neg (x : Binary64) : Binary64 := { x with negative := !x.negative }

/-- The encoding as one word: sign, exponent field, fraction field. -/
def toBits (x : Binary64) : UInt64 :=
  let sign := if x.negative then 0x8000000000000000 else 0
  UInt64.ofNat (sign + x.exponent.val * 0x10000000000000 + x.fraction.val)

end Binary64

end Workflow
