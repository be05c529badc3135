import Workflow.Handler.World
import Workflow.Run.Machine
import Workflow.Run.Retry

/-!
# Running on a Clock

Carrying out a run with the handlers there are, on a clock that stands still
while there is anything to do and then goes on to the next thing that is due.

What is due at the same time is done in the order in which it was planned.
Tasks ask for a worker in the order of their stage, and those that get none
wait in line. A worker that becomes free goes to the first in line. A handler
that ends exactly when its time is up has still answered in time.

Every turn makes one step of the machine, after waiting for it if necessary.
What is left to decide here is only which step is next.

## Main definitions

* `Due`: Something that is planned for a time.
* `Clock`: A run, the state that handlers work with, and the agenda.
* `Clock.turn`: One step of the run.
* `Engine.execute`, `Engine.announced`: A whole run, and what it announces.
* `Engine.invoke`: One attempt on its own.

## Theorems

* `length_schedule`: Scheduling adds one entry to an agenda.
* `executeAfter_eq`: A run only adds to what was announced before it.
* `announced_of_ok`: A run that was carried out has announced its events.
-/

namespace Workflow

/-- Something that is planned for a time. -/
inductive Due
  /-- A task asks for a worker. -/
  | ask (node : NodeId)
  /-- A task that waited in line gets a worker. -/
  | serve (node : NodeId)
  /-- The pause of an attempt is over. -/
  | resume (node : NodeId)
  /-- The time of an attempt is up. -/
  | expire (node : NodeId)
  /-- The rest of a task is over. -/
  | wake (node : NodeId)
  /-- The run is cancelled. -/
  | cancel
deriving DecidableEq, Repr, Inhabited

/-- What is planned, in the order in which it will be done. -/
abbrev Agenda := List (Nat × Due)

namespace Agenda

/-- Plans something for a time, after everything that was planned for it
    before. -/
def schedule (atMs : Nat) (due : Due) : Agenda → Agenda
  | [] => [(atMs, due)]
  | entry :: rest =>
      if entry.1 ≤ atMs then entry :: schedule atMs due rest else (atMs, due) :: entry :: rest

/-- Takes something off an agenda. -/
def cancel (due : Due) (agenda : Agenda) : Agenda := agenda.filter fun entry => entry.2 ≠ due

/-- Scheduling adds one entry to an agenda. -/
theorem length_schedule (atMs : Nat) (due : Due) (agenda : Agenda) :
    (schedule atMs due agenda).length = agenda.length + 1 := by
  induction agenda with
  | nil => rfl
  | cons entry rest ih =>
      rw [schedule]
      split
      · simp only [List.length_cons, ih]
      · rfl

end Agenda

/-- A run, the state that handlers work with, what is planned, the tasks that
    wait in line for a worker, and the attempts that pause. -/
structure Clock where
  run : RunState
  world : World
  agenda : Agenda := []
  line : List NodeId := []
  paused : List (NodeId × Pending) := []
deriving Inhabited

/-- How runs are carried out: the settings and the retry policy, the number
    that stands for all random ones, and how many workers the machine offers. -/
structure Engine where
  settings : EngineSettings := {}
  retry : RetryPolicy := RetryPolicy.ofSettings {}
  random : Binary64 := .half
  available : Nat := 4
deriving Inhabited

namespace Engine

/-- How long a handler of a kind may take. -/
def limitMs (e : Engine) (kind : Kind) : Nat := e.settings.timeoutSecs kind * 1000

end Engine

namespace Clock

/-- Plans something for a time. -/
def plan (c : Clock) (atMs : Nat) (due : Due) : Clock :=
  { c with agenda := Agenda.schedule atMs due c.agenda }

/-- Plans something as the very next thing. -/
def planNext (c : Clock) (due : Due) : Clock :=
  { c with agenda := (c.run.nowMs, due) :: c.agenda }

/-- A step of the machine. -/
def move (setup : Setup) (c : Clock) (choice : Choice) : Option Clock :=
  (c.run.step setup choice).map fun run => { c with run := run }

/-- A worker is free again and goes to the first in line. -/
def release (c : Clock) : Clock :=
  match c.line with
  | [] => c
  | id :: line => { c with line := line }.plan c.run.nowMs (.serve id)

/-- An attempt comes to an end. The task rests, or it is done with its worker.
    A rest that is over at once is followed by the next attempt, even when the
    run is cancelled by then. -/
def answer (setup : Setup) (c : Clock) (id : NodeId) (outcome : Except AttemptError Json) :
    Option Clock := do
  let c ← c.move setup (.answer id outcome)
  match (c.run.task? id).map Task.phase with
  | some (.resting untilMs _) =>
      if untilMs ≤ c.run.nowMs then return c.planNext (.wake id)
      else if c.run.cancelled then return (← c.move setup (.interrupt id)).release
      else return c.plan untilMs (.wake id)
  | _ => return c.release

/-- The pause of an attempt is over, and its handler goes on. An interrupt
    that came over the network cancels the run a moment later. -/
def complete (setup : Setup) (c : Clock) (id : NodeId) (p : Pending) : Option Clock := do
  let (world, ending) := c.world.finish c.run.nowMs p
  let c := { c with world := world }
  match ending with
  | .replied reply =>
      let c ← c.answer setup id (reply.mapError .failed)
      if c.world.network.interrupted then
        let calm := c.world.withNetwork { c.world.network with interrupted := false }
        return { c with world := calm }.plan (c.run.nowMs + 1) .cancel
      else return c
  | .brokeDown => return (← c.move setup (.crash id)).release

/-- What an attempt that ran out of time comes to. -/
def timedOut (engine : Engine) (kind : Kind) : Except AttemptError Json :=
  .error (.timedOut (engine.limitMs kind))

/-- An attempt begins. -/
def attempt (engine : Engine) (setup : Setup) (c : Clock) (id : NodeId) : Option Clock := do
  let t ← c.run.task? id
  match c.world.begin c.run.nowMs t.kind (t.call setup) with
  | none => c.answer setup id (.error (.missing t.kind))
  | some (world, p) =>
      let c := { c with world := world }
      let limitMs := engine.limitMs t.kind
      if p.cuttable && c.run.cancelled then
        c.answer setup id (Handler.cutShort.mapError .failed)
      else if p.pauseMs = 0 then c.complete setup id p
      else if limitMs = 0 then c.answer setup id (timedOut engine t.kind)
      else
        let c := { c with paused := (id, p) :: c.paused }
        if p.pauseMs ≤ limitMs then return c.plan (c.run.nowMs + p.pauseMs) (.resume id)
        else return c.plan (c.run.nowMs + limitMs) (.expire id)

/-- The attempt of a node that pauses. -/
def pausedAt? (c : Clock) (id : NodeId) : Option Pending := World.lookUp id c.paused

/-- The attempt of a node pauses no longer. -/
def unpause (c : Clock) (id : NodeId) : Clock :=
  { c with paused := c.paused.filter fun entry => entry.1 ≠ id }

/-- A task gets a worker. -/
def serve (engine : Engine) (setup : Setup) (c : Clock) (id : NodeId) : Option Clock := do
  let c ← c.move setup (.grant id)
  if c.run.cancelled then return c.release else c.attempt engine setup id

/-- What cancelling does to a task: its rest is cut short, and so is a pause
    that can be. -/
def disturb (setup : Setup) (c : Clock) (t : Task) : Option Clock :=
  let id := t.node
  match t.phase, c.pausedAt? id with
  | .resting _ _, _ => do
      let c := { c with agenda := Agenda.cancel (.wake id) c.agenda }
      return (← c.move setup (.interrupt id)).release
  | .attempting, some p =>
      if p.cuttable then
        let agenda := Agenda.cancel (.resume id) (Agenda.cancel (.expire id) c.agenda)
        { c.unpause id with agenda := agenda }.answer setup id (Handler.cutShort.mapError .failed)
      else some c
  | _, _ => some c

/-- Does what is due. -/
def meet (engine : Engine) (setup : Setup) (c : Clock) : Due → Option Clock
  | .ask id =>
      if max 1 setup.workers ≤ c.run.busy then some { c with line := c.line ++ [id] }
      else c.serve engine setup id
  | .serve id => c.serve engine setup id
  | .resume id => do (c.unpause id).complete setup id (← c.pausedAt? id)
  | .expire id => do
      let p ← c.pausedAt? id
      (c.unpause id).answer setup id (timedOut engine p.kind)
  | .wake id => do (← c.move setup (.wake id)).attempt engine setup id
  | .cancel => do
      let c ← c.move setup .cancel
      c.run.tasks.foldlM (disturb setup) c

/-- Launches the next node, which asks for a worker when it has become a
    task. -/
def launch (setup : Setup) (c : Clock) (id : NodeId) : Option Clock := do
  let c ← c.move setup .launch
  if (c.run.task? id).isSome then return c.plan c.run.nowMs (.ask id) else return c

/-- One turn: what can be done at once, or else what is due next. -/
def turn (engine : Engine) (setup : Setup) (c : Clock) : Option Clock :=
  match c.run.entering, c.run.tasks.find? fun t => t.phase.isAnswered with
  | id :: _, _ => c.launch setup id
  | [], some t => c.move setup (.collect t.node)
  | [], none =>
      if c.run.tasks.isEmpty then c.move setup .advance
      else if c.run.tasks.all fun t => t.phase.isBrokenDown then c.move setup .sweep
      else
        match c.agenda with
        | [] => none
        | (atMs, due) :: agenda => do
            let c ← { c with agenda := agenda }.move setup (.tick (atMs - c.run.nowMs))
            c.meet engine setup due

/-- Takes turns until the run has ended, at most `fuel` of them. -/
def runDown (engine : Engine) (setup : Setup) : Nat → Clock → Clock
  | 0, c => c
  | fuel + 1, c =>
      match c.turn engine setup with
      | some c => runDown engine setup fuel c
      | none => c

/-- How many turns a run takes at most: what happens to a stage, and to a node
    and each of its attempts. -/
def turnsFor (setup : Setup) : Nat :=
  let ofNode (id : NodeId) : Nat :=
    match setup.graph.node? id with
    | some node => 8 + 4 * (setup.budget node.kind + 2)
    | none => 8
  8 + 4 * setup.plan.stages.length + setup.plan.stages.flatten.foldl (fun n id => n + ofNode id) 0

end Clock

/-- What is asked for when a graph is to be run. Cancelling is planned for a
    time after the start, or happens before it. -/
structure RunOrder where
  run : String
  graphId : String
  identity : Option String := none
  input : Json := .null
  cancelMs : Option Int := none
deriving Inhabited

/-- A run that was carried out. -/
structure Execution where
  result : RunResult
  events : List Event
  endMs : Nat
deriving Repr, Inhabited

namespace Engine

/-- The setup of a run. -/
def setup (e : Engine) (order : RunOrder) (graph : Graph) (plan : Plan) (w : World) : Setup where
  run := order.run
  graphId := order.graphId
  identity := order.identity
  input := order.input
  graph := graph
  plan := plan
  workers := e.settings.workers e.available
  budget := fun kind => e.retry.budget kind (Registry.retryLimit kind w.registry)
  restMs := fun _ retry => e.retry.backoffMs e.random retry
  start := w.epoch

/-- The clock before the first turn. -/
def wind (setup : Setup) (order : RunOrder) (w : World) : Clock :=
  let run := RunState.start setup
  match order.cancelMs with
  | none => { run := run, world := w }
  | some ms =>
      if ms < 0 then { run := { run with cancelled := true }, world := w }
      else { run := run, world := w, agenda := [(ms.toNat, .cancel)] }

/-- Runs a graph, when some events were announced before, and gives what comes of
    it with all that is announced by then. Planning comes first, and a graph
    without a plan is not run at all. -/
def executeAfter (heard : List Event) (e : Engine) (order : RunOrder) (graph : Graph) (w : World) :
    (Except Cycle Execution × World) × List Event :=
  match graph.plan with
  | .error cycle => ((.error cycle, w), heard)
  | .ok plan =>
      let setup := e.setup order graph plan w
      let last := (wind setup order w).runDown e setup (Clock.turnsFor setup)
      let events := last.run.events.map fun what => ⟨order.run, what⟩
      ((.ok { result := last.run.result setup, events := events, endMs := last.run.nowMs },
        { last.world with epoch := last.run.instant setup }), heard ++ events)

/-- Runs a graph. -/
def execute (e : Engine) (order : RunOrder) (graph : Graph) (w : World) :
    Except Cycle Execution × World :=
  (executeAfter [] e order graph w).1

/-- What is announced when a graph is to be run. -/
def announced (e : Engine) (order : RunOrder) (graph : Graph) (w : World) : List Event :=
  (executeAfter [] e order graph w).2

/-- What comes of a run does not depend on what was announced before, and all that
    it announces comes after that. -/
theorem executeAfter_eq (heard : List Event) (e : Engine) (order : RunOrder) (graph : Graph)
    (w : World) : executeAfter heard e order graph w =
      (e.execute order graph w, heard ++ e.announced order graph w) := by
  rw [execute, announced, executeAfter, executeAfter]
  cases graph.plan with
  | error cycle => rw [List.append_nil]
  | ok plan => rfl

/-- A run that was carried out has announced its events. -/
theorem announced_of_ok {e : Engine} {order : RunOrder} {graph : Graph} {w : World}
    {done : Execution} (h : (e.execute order graph w).1 = .ok done) :
    e.announced order graph w = done.events := by
  rw [execute, executeAfter] at h
  rw [announced, executeAfter]
  cases hplan : graph.plan with
  | error cycle =>
      rw [hplan] at h
      exact absurd h nofun
  | ok plan =>
      rw [hplan] at h
      exact congrArg Execution.events (Except.ok.inj h)

/-- One attempt of the handler of a kind on its own, which may take so long and
    may be cancelled. Gives the time at which it ends. -/
def invoke (w : World) (kind : Kind) (call : Call) (limitMs : Nat) (cancelMs : Option Nat) :
    Except AttemptError Json × Nat :=
  match w.begin 0 kind call with
  | none => (.error (.missing kind), 0)
  | some (world, p) =>
      let dueMs := min p.pauseMs limitMs
      let cut := match cancelMs with
        | some ms => p.cuttable && ms < dueMs
        | none => false
      if cut then (Handler.cutShort.mapError .failed, cancelMs.getD 0)
      else if limitMs < p.pauseMs then (.error (.timedOut limitMs), limitMs)
      else
        match (world.finish p.pauseMs p).2 with
        | .replied reply => (reply.mapError .failed, p.pauseMs)
        | .brokeDown => (.error (.failed (.permanent "handler panicked")), p.pauseMs)

end Engine

end Workflow
