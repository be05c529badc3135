import Workflow.Json.Decode
import Workflow.Kind.Basic
import Workflow.Number.Shortest

/-!
# Failures of Handlers

What a handler reports when it has no output, and what an attempt to run it
comes to then. A handler says itself whether trying again may help. An attempt
can also find no handler at all, or run out of time.

## Main definitions

* `Failure`: The report of a handler.
* `AttemptError`: Why an attempt has no output.
-/

namespace Workflow

/-- The report of a handler that has no output. -/
inductive Failure
  /-- Trying again may help. -/
  | transient (message : String)
  /-- Trying again does not help. -/
  | permanent (message : String)
deriving DecidableEq, Repr, Inhabited

namespace Failure

/-- What a failure says. -/
def message : Failure → String
  | transient m => m
  | permanent m => m

/-- Whether trying again may help. -/
def isTransient : Failure → Bool
  | transient _ => true
  | permanent _ => false

/-- The name of a failure's class. -/
def label : Failure → String
  | transient _ => "transient"
  | permanent _ => "permanent"

/-- The line that reports a failure. -/
def text (f : Failure) : String := f.label ++ ": " ++ f.message

/-- The written form of a failure. -/
def toJson (f : Failure) : Json :=
  .object [("kind", .string f.label), ("message", .string f.message)]

/-- The failure of a class. -/
def ofLabel? (label message : String) : Option Failure :=
  if label = "transient" then some (transient message)
  else if label = "permanent" then some (permanent message)
  else none

/-- Reads a failure. -/
def decode : Decoder Failure :=
  Decoder.record ["kind", "message"] fun fields => do
    ofLabel? (← fields.required "kind" Decoder.string) (← fields.required "message" Decoder.string)

end Failure

/-- Why an attempt to run a handler has no output. -/
inductive AttemptError
  | missing (kind : Kind)
  | timedOut (ms : Nat)
  | failed (failure : Failure)
deriving DecidableEq, Repr, Inhabited

namespace AttemptError

/-- What is said about an attempt without output. -/
def message : AttemptError → String
  | missing kind => "no handler registered for " ++ kind.label
  | timedOut ms => "handler timed out after " ++ toString (ms / 1000) ++ "s"
  | failed failure => failure.message

end AttemptError

end Workflow
