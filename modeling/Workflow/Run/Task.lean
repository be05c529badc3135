import Workflow.Handler.Basic
import Workflow.Plan
import Workflow.Run.Result

/-!
# Tasks

A node of the current stage while it is worked on.

A task waits for a worker first. It keeps its worker through all attempts and
the rests between them, and gives it back with its answer, or when its handler
breaks down. The answer stays with the task until it is collected.

## Main definitions

* `Setup`: What a run is given and does not change.
* `Phase`: How far a task has come.
* `Task`: A node that is worked on.
* `Task.call`: What its handler is given for the current attempt.
-/

namespace Workflow

/-- What a run is given. How often a node may be tried again depends on its
    kind; how long it rests before that may depend on anything. -/
structure Setup where
  run : String
  graphId : String
  identity : Option String := none
  input : Json := .null
  graph : Graph
  plan : Plan
  workers : Nat
  budget : Kind → Nat
  restMs : NodeId → Nat → Nat
  start : Instant

/-- How far a task has come. -/
inductive Phase
  /-- It waits for a worker. -/
  | queued
  /-- Its handler is at work. -/
  | attempting
  /-- An attempt failed, and the next one starts at this time. -/
  | resting (untilMs : Nat) (error : NodeError)
  /-- It has an answer, since this time. -/
  | answered (atMs : Nat) (result : Except NodeError Json)
  /-- Its handler broke down, and it will never have an answer. -/
  | brokenDown
deriving Repr, Inhabited

namespace Phase

/-- Whether a task in this phase has a worker. -/
def isBusy : Phase → Bool
  | attempting => true
  | resting .. => true
  | _ => false

/-- Whether a task in this phase broke down. -/
def isBrokenDown : Phase → Bool
  | brokenDown => true
  | _ => false

/-- Whether a task in this phase has an answer. -/
def isAnswered : Phase → Bool
  | answered .. => true
  | _ => false

/-- Whether a task in this phase rests. -/
def isResting : Phase → Bool
  | resting .. => true
  | _ => false

end Phase

/-- A node of the current stage that is worked on. -/
structure Task where
  node : NodeId
  kind : Kind
  config : Config := []
  inputs : Entries Json := []
  launchedMs : Nat := 0
  startedMs : Option Nat := none
  /-- How many attempts were begun. They are at most one more than the budget of
      the kind, so they stay below `2 ^ 32` for every budget below `2 ^ 32 - 1`. -/
  attempts : Nat := 0
  phase : Phase := .queued
deriving Repr, Inhabited

namespace Task

/-- What the handler of a task is given for the current attempt. -/
def call (setup : Setup) (t : Task) : Call where
  run := setup.run
  node := t.node
  attempt := t.attempts
  identity := setup.identity
  runInput := setup.input
  config := t.config
  inputs := t.inputs

/-- The same task in another phase. -/
def enter (t : Task) (phase : Phase) : Task := { t with phase := phase }

/-- The next attempt of a task begins. -/
def attemptAgain (t : Task) : Task := { t with phase := .attempting, attempts := t.attempts + 1 }

end Task

end Workflow
