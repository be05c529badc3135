import Workflow.Run.Event
import Workflow.Run.Task

/-!
# Runs, Step by Step

A run goes through the stages of its plan. The nodes of a stage are launched
one after another: a node with a failed or skipped predecessor is skipped,
unless its kind tolerates that, and every other node becomes a task. When all
tasks of the stage have been collected, the next stage is entered.

Many things may happen next at any time: a worker is granted, a handler
answers, a rest is over, the run is cancelled. Which of them does is a choice
from outside, and a machine step carries it out, or refuses a choice that is
not possible. What holds after every list of choices holds for every speed of
the handlers, every order of the tasks and every moment of cancelling.

What is done without waiting in between is one step, because nothing else can
happen meanwhile. Whether the run is cancelled is read in the same step that
acts on it: when a worker is granted, an answer is collected, tasks that broke
down are taken for failed, or the next stage is entered. And a task that comes
to its end gives back its worker and hands over its answer in one step. Where
something is waited for, for a worker, a handler, a rest or the answer of a
task, one step ends and another begins, and anything may come between them.

Once the run is cancelled, answers are discarded, and no further stage is
entered. A task that waits for a worker still gets it, and answers at once
that the run was cancelled. A rest may be cut short; it may also end with
another attempt when it is over at that very moment.

## Main definitions

* `RunState`: The state of a run.
* `Choice`: What may happen next.
* `RunState.step`: One step.
* `RunState.follow`: Many steps.
* `RunState.result`: What is known of the run.

## Theorems

* `follow_append`: Following one list of choices after another.
-/

namespace Workflow

/-- The state of a run. -/
structure RunState where
  nowMs : Nat := 0
  cancelled : Bool := false
  /-- Whether cancelling kept anything from being done. -/
  interrupted : Bool := false
  /-- The number of the next stage. -/
  stage : Nat := 0
  /-- The stages that were not entered yet. -/
  ahead : List (List NodeId)
  /-- The nodes of the current stage that were not launched yet. -/
  entering : List NodeId := []
  /-- The tasks of the current stage that were not collected yet. -/
  tasks : List Task := []
  records : Entries NodeRun
  events : List Happening
  /-- How the run ended, when it has. -/
  status : Option RunStatus := none
deriving Repr, Inhabited

/-- What may happen next. -/
inductive Choice
  /-- Time passes. -/
  | tick (ms : Nat)
  /-- The run is cancelled. -/
  | cancel
  /-- The next node of the stage is launched. -/
  | launch
  /-- A task gets a worker. -/
  | grant (node : NodeId)
  /-- An attempt comes to an end. -/
  | answer (node : NodeId) (outcome : Except AttemptError Json)
  /-- The handler of a task breaks down. -/
  | crash (node : NodeId)
  /-- The rest of a task is over. -/
  | wake (node : NodeId)
  /-- The rest of a task is cut short. -/
  | interrupt (node : NodeId)
  /-- The answer of a task is collected. -/
  | collect (node : NodeId)
  /-- A task that broke down is taken for failed. -/
  | sweep
  /-- The next stage is entered, or the run ends. -/
  | advance
deriving Repr, Inhabited

namespace NodeRun

/-- A node is skipped. -/
def skip (r : NodeRun) (now : Instant) (error : NodeError) : NodeRun :=
  { r with
    status := .skipped
    output := none
    error := some error
    finishedAt := r.finishedAt.or (some now) }

/-- What a task that has an answer is noted with, whatever the answer. -/
def close (r : NodeRun) (setup : Setup) (t : Task) (atMs : Nat) : NodeRun :=
  { r with
    attempts := t.attempts
    startedAt := t.startedMs.map setup.start.addMillis
    finishedAt := some (setup.start.addMillis atMs)
    elapsedMs := atMs - t.launchedMs }

/-- The answer of a task is noted. -/
def settle (r : NodeRun) : Except NodeError Json → NodeRun
  | .ok output => { r with status := .succeeded, output := some output }
  | .error error => { r with status := .failed, error := some error }

end NodeRun

namespace RunState

/-- What is said of a node that cancelling kept from its end. -/
def cancelReason : String := "run cancelled"

/-- The beginning of a run. -/
def start (setup : Setup) : RunState :=
  let records := Entries.ofList <| setup.plan.stages.flatten.filterMap fun id =>
    (setup.graph.node? id).map fun node => (id, { node := id, kind := node.kind : NodeRun })
  { ahead := setup.plan.stages
    records := records
    events := [.runStarted setup.graphId setup.plan.stages.length records.length] }

/-- Something happens. -/
def emit (s : RunState) (what : Happening) : RunState := { s with events := s.events ++ [what] }

/-- Changes what is known of a node. -/
def amend (s : RunState) (id : NodeId) (change : NodeRun → NodeRun) : RunState :=
  { s with records := s.records.map fun entry =>
      if entry.1 = id then (entry.1, change entry.2) else entry }

/-- The task of a node. -/
def task? (s : RunState) (id : NodeId) : Option Task := s.tasks.find? fun t => t.node = id

/-- Replaces the task of a node. -/
def put (s : RunState) (task : Task) : RunState :=
  { s with tasks := s.tasks.map fun t => if t.node = task.node then task else t }

/-- Removes the task of a node. -/
def drop (s : RunState) (id : NodeId) : RunState :=
  { s with tasks := s.tasks.filter fun t => t.node ≠ id }

/-- How many tasks have a worker. -/
def busy (s : RunState) : Nat := (s.tasks.filter fun t => t.phase.isBusy).length

/-- The time by the calendar. -/
def instant (setup : Setup) (s : RunState) : Instant := setup.start.addMillis s.nowMs

/-- The first predecessor of a node that failed or was skipped. -/
def blocker? (setup : Setup) (s : RunState) (id : NodeId) : Option (NodeId × NodeStatus) :=
  (setup.plan.predecessorsOf id).findSome? fun p =>
    match Entries.find? p s.records with
    | some r => if r.status = .failed || r.status = .skipped then some (p, r.status) else none
    | none => none

/-- The outputs of the predecessors of a node that succeeded. -/
def inputsOf (setup : Setup) (s : RunState) (id : NodeId) : Entries Json :=
  (setup.plan.predecessorsOf id).filterMap fun p =>
    match Entries.find? p s.records with
    | some r => if r.status = .succeeded then r.output.map fun output => (p, output) else none
    | none => none

/-- What is said of a node that is skipped because of a predecessor. -/
def blockedReason (predecessor : NodeId) (status : NodeStatus) : String :=
  "predecessor " ++ predecessor ++ " " ++ status.label

/-- Skips or launches a node. -/
def launchNode (setup : Setup) (s : RunState) (node : Node) (id : NodeId) : RunState :=
  match if node.kind.tolerant then none else s.blocker? setup id with
  | some (predecessor, status) =>
      let reason := blockedReason predecessor status
      (s.amend id fun r => r.skip (s.instant setup) ⟨.predecessor, reason⟩).emit
        (.nodeSkipped id reason)
  | none =>
      let task : Task := {
        node := id
        kind := node.kind
        config := node.config
        inputs := s.inputsOf setup id
        launchedMs := s.nowMs }
      { s.amend id fun r => { r with status := .running } with tasks := s.tasks ++ [task] }

/-- The next node of the stage is launched. -/
def launch (setup : Setup) (s : RunState) : Option RunState :=
  match s.entering with
  | [] => none
  | id :: rest =>
      let s := { s with entering := rest }
      match setup.graph.node? id with
      | some node => some (s.launchNode setup node id)
      | none => some s

/-- A task gets a worker. -/
def grant (setup : Setup) (s : RunState) (id : NodeId) : Option RunState := do
  let t ← s.task? id
  match t.phase with
  | .queued =>
      if max 1 setup.workers ≤ s.busy then none
      else if s.cancelled then
        some (s.put (t.enter (.answered s.nowMs (.error ⟨.cancelled, cancelReason⟩))))
      else
        some ((s.put { t.attemptAgain with startedMs := some s.nowMs }).emit
          (.nodeStarted id (t.attempts + 1)))
  | _ => none

/-- An attempt comes to an end. -/
def answer (setup : Setup) (s : RunState) (id : NodeId) (outcome : Except AttemptError Json) :
    Option RunState := do
  let t ← s.task? id
  match t.phase with
  | .attempting =>
      match outcome with
      | .ok output => some (s.put (t.enter (.answered s.nowMs (.ok output))))
      | .error e =>
          let error := NodeError.ofAttempt e
          if error.cause.isRetryable && t.attempts ≤ setup.budget t.kind then
            let restMs := setup.restMs id (t.attempts - 1)
            some ((s.put (t.enter (.resting (s.nowMs + restMs) error))).emit
              (.nodeRetrying id t.attempts restMs error.message))
          else some (s.put (t.enter (.answered s.nowMs (.error error))))
  | _ => none

/-- The handler of a task breaks down. -/
def crash (s : RunState) (id : NodeId) : Option RunState := do
  let t ← s.task? id
  match t.phase with
  | .attempting => some (s.put (t.enter .brokenDown))
  | _ => none

/-- The rest of a task is over. -/
def wake (s : RunState) (id : NodeId) : Option RunState := do
  let t ← s.task? id
  match t.phase with
  | .resting untilMs _ =>
      if untilMs ≤ s.nowMs then
        some ((s.put t.attemptAgain).emit (.nodeStarted id (t.attempts + 1)))
      else none
  | _ => none

/-- The rest of a task is cut short. -/
def interrupt (s : RunState) (id : NodeId) : Option RunState := do
  let t ← s.task? id
  match t.phase with
  | .resting _ error =>
      if s.cancelled then some (s.put (t.enter (.answered s.nowMs (.error error)))) else none
  | _ => none

/-- The answer of a task is collected. -/
def collect (setup : Setup) (s : RunState) (id : NodeId) : Option RunState := do
  let t ← s.task? id
  match t.phase with
  | .answered atMs result =>
      if !s.entering.isEmpty then none
      else if s.cancelled then
        let error : NodeError := ⟨.cancelled, "result discarded: run cancelled"⟩
        let discard (r : NodeRun) := (r.close setup t atMs).skip (s.instant setup) error
        some { ((s.drop id).amend id discard).emit (.nodeSkipped id cancelReason) with
          interrupted := true }
      else
        let status := match result with
          | .ok _ => NodeStatus.succeeded
          | .error _ => NodeStatus.failed
        some <| ((s.drop id).amend id fun r => (r.close setup t atMs).settle result).emit
          (.nodeFinished id status t.attempts (atMs - t.launchedMs))
  | _ => none

/-- When nothing but tasks that broke down is left of a stage, the first of
    them is taken for failed. -/
def sweep (setup : Setup) (s : RunState) : Option RunState :=
  match s.tasks with
  | [] => none
  | t :: _ =>
      let id := t.node
      if !s.entering.isEmpty || !s.tasks.all fun t => t.phase.isBrokenDown then none
      else if s.cancelled then
        some { (s.drop id).amend id fun r =>
            r.skip (s.instant setup) ⟨.cancelled, cancelReason⟩ with interrupted := true }
      else
        let fail (r : NodeRun) : NodeRun := { r with
          status := .failed
          error := some ⟨.permanent, "handler panicked"⟩
          finishedAt := some (s.instant setup) }
        some (((s.drop id).amend id fail).emit (.nodeFinished id .failed 0 0))

/-- The nodes that nothing is known of. -/
def untouched (s : RunState) : List NodeId :=
  (s.records.filter fun entry => entry.2.status = .pending).map (·.1)

/-- A node that was never launched is skipped. -/
def skipUntouched (setup : Setup) (s : RunState) (id : NodeId) : RunState :=
  let error : NodeError := ⟨.cancelled, "run cancelled before node started"⟩
  { (s.amend id fun r => r.skip (s.instant setup) error).emit (.nodeSkipped id cancelReason) with
    interrupted := true }

/-- The run ends. -/
def finish (setup : Setup) (s : RunState) : RunState :=
  let s := s.untouched.foldl (skipUntouched setup) s
  let status := outcome setup.graph s.records s.interrupted
  { s.emit (.runCompleted status s.nowMs) with status := some status }

/-- The next stage is entered, or the run ends. -/
def advance (setup : Setup) (s : RunState) : Option RunState :=
  if !s.entering.isEmpty || !s.tasks.isEmpty then none
  else
    match s.ahead with
    | [] => some (s.finish setup)
    | stage :: ahead =>
        if s.cancelled then some ({ s with interrupted := true }.finish setup)
        else
          some <| { s with stage := s.stage + 1, ahead := ahead, entering := stage }.emit
            (.stageStarted s.stage stage)

/-- One step. A run that has ended makes none. -/
def step (setup : Setup) (s : RunState) (choice : Choice) : Option RunState :=
  if s.status.isSome then none
  else
    match choice with
    | .tick ms => some { s with nowMs := s.nowMs + ms }
    | .cancel => some { s with cancelled := true }
    | .launch => s.launch setup
    | .grant id => s.grant setup id
    | .answer id outcome => s.answer setup id outcome
    | .crash id => s.crash id
    | .wake id => s.wake id
    | .interrupt id => s.interrupt id
    | .collect id => s.collect setup id
    | .sweep => s.sweep setup
    | .advance => s.advance setup

/-- Many steps. -/
def follow (setup : Setup) (s : RunState) (choices : List Choice) : Option RunState :=
  choices.foldlM (step setup) s

/-- Following one list of choices after another. -/
theorem follow_append (setup : Setup) (s : RunState) (first second : List Choice) :
    s.follow setup (first ++ second)
      = (s.follow setup first).bind fun t => t.follow setup second := by
  simp only [follow, List.foldlM_append]
  rfl

/-- What is known of a run. -/
def result (setup : Setup) (s : RunState) : RunResult where
  run := setup.run
  graph := setup.graphId
  status := s.status.getD (outcome setup.graph s.records s.interrupted)
  stages := setup.plan.stages
  nodes := s.records
  startedAt := setup.start
  finishedAt := s.instant setup
  elapsedMs := s.nowMs

end RunState

end Workflow
