import Mathlib.Algebra.GroupWithZero.Nat
import Mathlib.Order.Monotone.Defs
import Mathlib.Order.Nat
import Workflow.Run.Retry

/-!
# Rests That Double

How long the rests before retries are, before they are stretched.

A rest is computed in numbers of 64 bits: a power of two that stops at the
largest number, then a product that stops there, and then the limit of the
policy. Neither stop shows. Whatever the power loses above the largest number,
the product would lose anyway (`min_mul_min`), unless it is a product with zero;
and what the product loses lies above every limit that is a number of 64 bits
itself. So a rest is the exact one (`RetryPolicy.exactMs`), cut at the limit.

## Main definitions

* `RetryPolicy.exactMs`: A rest in unbounded numbers, without a limit.

## Theorems

* `min_mul_min`: A factor may be cut where the product is cut.
* `saturatedPower_eq`: A power of two in 64 bits is the exact one, cut.
* `cappedMs_eq`: A rest is the exact one, cut at the limit.
* `rests_double`: Which rests there are, and how they grow.
-/

namespace Workflow

namespace RetryPolicy

/-- The rest before a retry, counted from zero, in unbounded numbers and without
    a limit. -/
def exactMs (p : RetryPolicy) (retry : Nat) : Nat := p.initialBackoffMs * 2 ^ retry

theorem monotone_exactMs (p : RetryPolicy) : Monotone p.exactMs := fun _ _ hle =>
  Nat.mul_le_mul_left p.initialBackoffMs (Nat.pow_le_pow_right Nat.two_pos hle)

theorem exactMs_eq_zero_iff (p : RetryPolicy) (retry : Nat) :
    p.exactMs retry = 0 ↔ p.initialBackoffMs = 0 := by
  have hpos : 2 ^ retry ≠ 0 := Nat.ne_of_gt (Nat.two_pow_pos retry)
  rw [exactMs, Nat.mul_eq_zero, or_iff_left hpos]

/-- A power of two in 64 bits is the exact one, cut at the largest number. -/
theorem saturatedPower_eq (n : Nat) : saturatedPower n = min (2 ^ n) largest := by
  have hlargest : largest + 1 = 2 ^ 64 := by decide
  rw [saturatedPower]
  by_cases hn : n < 64
  · have hle : 2 ^ n ≤ 2 ^ 63 := Nat.pow_le_pow_right Nat.two_pos (by omega)
    rw [if_pos hn, Nat.min_eq_left (by omega)]
    rfl
  · have hle : 2 ^ 64 ≤ 2 ^ n := Nat.pow_le_pow_right Nat.two_pos (by omega)
    rw [if_neg hn, Nat.min_eq_right (by omega)]

/-- A factor may be cut where the product is cut. -/
theorem min_mul_min (a b bound : Nat) : min (a * min b bound) bound = min (a * b) bound := by
  rcases Nat.le_total b bound with hb | hb
  · rw [Nat.min_eq_left hb]
  -- Something is lost of the factor, and all of it is above the bound, or
  -- the product is zero.
  · rw [Nat.min_eq_right hb]
    rcases Nat.eq_zero_or_pos a with rfl | ha
    · rw [Nat.zero_mul, Nat.zero_mul]
    · have hcut : bound ≤ a * bound := Nat.le_mul_of_pos_left bound ha
      have hexact : a * bound ≤ a * b := Nat.mul_le_mul_left a hb
      rw [Nat.min_eq_right hcut, Nat.min_eq_right (Nat.le_trans hcut hexact)]

/-- A rest is the exact one, cut at the limit. -/
theorem cappedMs_eq (p : RetryPolicy) (hlimit : p.maxBackoffMs ≤ largest) (retry : Nat) :
    p.cappedMs retry = min p.maxBackoffMs (p.exactMs retry) := by
  calc p.cappedMs retry
      = min (min (p.initialBackoffMs * min (2 ^ retry) largest) largest) p.maxBackoffMs := by
        rw [cappedMs, saturatedPower_eq]
    _ = min (min (p.exactMs retry) largest) p.maxBackoffMs := by rw [min_mul_min, exactMs]
    _ = min (p.exactMs retry) (min largest p.maxBackoffMs) := Nat.min_assoc ..
    _ = min p.maxBackoffMs (p.exactMs retry) := by rw [Nat.min_eq_right hlimit, Nat.min_comm]

/-- A rest is the exact one, cut at the limit, before it is stretched. So rests
    do not become shorter from retry to retry, none is above the limit, and
    there is one exactly where the policy names a first rest and a limit. -/
theorem rests_double (p : RetryPolicy) (hlimit : p.maxBackoffMs ≤ largest) :
    (∀ retry, p.cappedMs retry = min p.maxBackoffMs (p.initialBackoffMs * 2 ^ retry)) ∧
      (∀ random retry, p.backoffMs random retry =
        stretch random (min p.maxBackoffMs (p.initialBackoffMs * 2 ^ retry))) ∧
      Monotone p.cappedMs ∧ (∀ retry, p.cappedMs retry ≤ p.maxBackoffMs) ∧
      ∀ retry, p.cappedMs retry = 0 ↔ p.initialBackoffMs = 0 ∨ p.maxBackoffMs = 0 := by
  have hexact := p.cappedMs_eq hlimit
  refine ⟨hexact, fun random retry => ?_, fun retry later hle => ?_, p.cappedMs_le,
    fun retry => ?_⟩
  · rw [backoffMs, hexact, exactMs]
  · rw [hexact, hexact]
    exact Nat.le_min.mpr ⟨Nat.min_le_left _ _,
      Nat.le_trans (Nat.min_le_right _ _) (p.monotone_exactMs hle)⟩
  · rw [hexact, Nat.min_eq_zero_iff, p.exactMs_eq_zero_iff, or_comm]

/-- A policy with the least rest that grows and the largest limit. -/
def patient : RetryPolicy where
  maxRetries := 0xffffffff
  initialBackoffMs := 1
  maxBackoffMs := largest

/-- The power stops at the largest number in the last two of these retries, the
    exact rest is above the limit there, and the limit is what is left. -/
theorem rests_double_patient : patient.maxBackoffMs ≤ largest ∧
    patient.cappedMs 63 = 2 ^ 63 ∧ patient.cappedMs 64 = 2 ^ 64 - 1 ∧
    patient.cappedMs 64 ≤ patient.cappedMs 0xffffffff ∧
    patient.cappedMs 0xffffffff ≤ largest ∧ patient.cappedMs 0xffffffff ≠ 0 := by
  have hlimit : patient.maxBackoffMs ≤ largest := Nat.le_refl largest
  rcases rests_double patient hlimit with ⟨hexact, -, hgrows, hle, hzero⟩
  refine ⟨hlimit, ?_, ?_, hgrows (by decide), hle _, fun h => ?_⟩
  · rw [hexact]
    decide
  · rw [hexact]
    decide
  · exact absurd ((hzero _).mp h) (by decide)

end RetryPolicy

end Workflow
