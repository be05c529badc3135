import Workflow.Settings

/-!
# Retries

How often a node is tried again, and how long to rest before that.

The rest doubles with every retry up to a limit. So that nodes that failed
together are not tried again together, it is stretched by a random factor
between 0.8 and 1.2.

All of this is done in 64-bit arithmetic that stops at the largest number
instead of wrapping.

## Main definitions

* `RetryPolicy`: The budget and the rests.
* `RetryPolicy.budget`: How often a node may be tried again.
* `RetryPolicy.cappedMs`: The rest before it is stretched.
* `RetryPolicy.backoffMs`: The rest.

## Theorems

* `cappedMs_le`: The rest is limited.
-/

namespace Workflow

/-- How often nodes are tried again, and after which rests. -/
structure RetryPolicy where
  maxRetries : Nat
  initialBackoffMs : Nat
  maxBackoffMs : Nat
deriving DecidableEq, Repr, Inhabited

namespace RetryPolicy

/-- The policy that the settings describe. -/
def ofSettings (s : EngineSettings) : RetryPolicy :=
  ⟨s.maxRetries, s.initialBackoffMs, s.maxBackoffMs⟩

/-- How often a node may be tried again: the least of what the policy, the
    kind and the handler allow, of those that say something. -/
def budget (p : RetryPolicy) (kind : Kind) (handlerLimit : Option Nat) : Nat :=
  let limits := [kind.capability.maxRetries, handlerLimit].filterMap id
  limits.foldl min p.maxRetries

/-- The largest number of 64 bits. -/
def largest : Nat := 0xffffffffffffffff

/-- A power of two in 64-bit arithmetic. -/
def saturatedPower (n : Nat) : Nat := if n < 64 then Nat.pow 2 n else largest

/-- The rest before a retry, counted from zero, without the random factor. -/
def cappedMs (p : RetryPolicy) (retry : Nat) : Nat :=
  min (min (p.initialBackoffMs * saturatedPower retry) largest) p.maxBackoffMs

/-- The number nearest to 0.8. -/
def lowFactor : Binary64 := .ofFields false 1022 0x999999999999A

/-- The number nearest to 0.4. -/
def factorSpan : Binary64 := .ofFields false 1021 0x999999999999A

/-- A duration stretched by the factor that a random number between 0 and 1
    stands for. -/
def stretch (random : Binary64) (ms : Nat) : Nat :=
  let stretched := do
    let factor ← lowFactor.add (← random.mul factorSpan)
    (← Binary64.ofNat? ms).mul factor
  match stretched with
  | some x => min x.truncate largest
  | none => largest

/-- The rest before a retry, counted from zero. -/
def backoffMs (p : RetryPolicy) (random : Binary64) (retry : Nat) : Nat :=
  stretch random (p.cappedMs retry)

/-- The rest is limited. -/
theorem cappedMs_le (p : RetryPolicy) (retry : Nat) : p.cappedMs retry ≤ p.maxBackoffMs :=
  Nat.min_le_right _ _

end RetryPolicy

end Workflow
