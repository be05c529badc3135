import Workflow.Number.Binary64

/-!
# Number Literals

The value of a number written in decimal.

An integer that fits in 64 bits, signed or unsigned, is kept as it is. Every
other literal is a binary64 number, read in this way: the digits are taken
into a 64-bit significand for as long as they fit, the significand is rounded
to a binary64 number, and that number is multiplied by the power of ten that
is left, or divided by it, with one more rounding. The power of ten is itself
the nearest binary64 number. Powers beyond `10 ^ 308` are divided out in two
steps, and a product out of range has no value.

The result can differ from the nearest number in the last bit when a literal
has more than 15 digits.

## Main definitions

* `Literal`: A decimal literal as its digits.
* `Literal.integer?`: Its value as a 64-bit integer.
* `Literal.real?`: Its value as a binary64 number.
-/

namespace Workflow

/-- A decimal literal: its sign, the digits before and after the point, and
    the exponent. An integer literal has neither fraction nor exponent. -/
structure Literal where
  negative : Bool
  whole : List Nat
  fraction : List Nat
  exponent : Option Int
deriving DecidableEq, Repr

namespace Literal

/-- The bound of the significand. -/
def significandLimit : Nat := 0x10000000000000000

/-- A significand and the power of ten it has to be multiplied with. -/
structure Scaled where
  significand : Nat
  power : Int
deriving DecidableEq, Repr

/-- Takes digits before the point. The first that does not fit is dropped,
    and so is every later one; each of them counts in the power. -/
def takeWhole : List Nat → Nat → Scaled
  | [], n => ⟨n, 0⟩
  | d :: rest, n =>
      if n * 10 + d < significandLimit then takeWhole rest (n * 10 + d)
      else ⟨n, rest.length + 1⟩

/-- Takes digits after the point, up to the first that does not fit. -/
def takeFraction : List Nat → Scaled → Scaled
  | [], s => s
  | d :: rest, s =>
      if s.significand * 10 + d < significandLimit then
        takeFraction rest ⟨s.significand * 10 + d, s.power - 1⟩
      else s

/-- The significand and the power of ten of a literal. -/
def scaled (l : Literal) : Scaled :=
  let s := takeFraction l.fraction (takeWhole l.whole 0)
  ⟨s.significand, s.power + l.exponent.getD 0⟩

/-- The greatest power of ten that is a binary64 number. -/
def powerLimit : Nat := 308

/-- The binary64 number nearest to a power of ten. -/
def tenTo (n : Nat) : Option Binary64 := Binary64.round false (Nat.pow 10 n) 1

/-- Divides by a power of ten, in steps of at most `10 ^ 308`. Three steps
    take every significand to zero. -/
def divideTen : Nat → Binary64 → Nat → Option Binary64
  | 0, _, _ => some (Binary64.zero false)
  | steps + 1, x, n =>
      if x.isZero then some x
      else if n ≤ powerLimit then do x.div (← tenTo n)
      else do divideTen steps (← x.div (← tenTo powerLimit)) (n - powerLimit)

/-- The binary64 number nearest to the significand, scaled by a power of
    ten. -/
def Scaled.value? (s : Scaled) : Option Binary64 := do
  let x ← Binary64.ofNat? s.significand
  if 0 ≤ s.power then
    if s.power ≤ powerLimit then x.mul (← tenTo s.power.toNat)
    else if x.isZero then some x
    else none
  else divideTen 4 x s.power.natAbs

/-- The value of a literal as a binary64 number; `none` if it is out of
    range. -/
def real? (l : Literal) : Option Binary64 :=
  l.scaled.value?.map fun x => if l.negative then x.neg else x

/-- The value of an integer literal that fits in 64 bits. A negative zero is
    not an integer, since an integer cannot keep its sign. -/
def integer? (l : Literal) : Option Int :=
  if l.fraction.isEmpty && l.exponent.isNone then
    let n : Nat := l.whole.foldl (fun n d => n * 10 + d) 0
    if l.negative then
      if n = 0 || 0x8000000000000000 < n then none else some (-(n : Int))
    else if n < 0x10000000000000000 then some n
    else none
  else none

end Literal

end Workflow
