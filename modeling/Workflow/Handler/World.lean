import Workflow.Handler.Registry
import Workflow.Store.Table

/-!
# What Handlers Work With

The state that handlers read and change while they run: the network, the
store, and what the rehearsed handlers remember of their calls.

An attempt has two moments. When it begins, the handler decides what it is
going to do and how long it pauses before; when the pause is over, it does it.
In between the attempt may run out of time, and then the second moment never
comes.

## Main definitions

* `World`: The state.
* `Pending`: An attempt that has begun.
* `World.begin`, `World.finish`: The two moments of an attempt.
-/

namespace Workflow

/-- A call of a rehearsed handler, with the time at which it began. -/
structure PlayedCall where
  atMs : Nat
  call : Call
deriving DecidableEq, Repr, Inhabited

/-- What a recorder remembers: its calls, how many are in flight, and how many
    were at most. -/
structure Recording where
  calls : List Call := []
  inFlight : Nat := 0
  peak : Nat := 0
deriving DecidableEq, Repr, Inhabited

/-- The state that handlers work with. -/
structure World where
  registry : Registry := []
  scripts : List (Kind × Script × Nat) := []
  recordings : List (Kind × Recording) := []
  played : List PlayedCall := []
  turns : List ((Kind × NodeId) × Nat) := []
  network : Web.Network := {}
  store : Store := .memory []
  /-- The time at which the clock of a run starts. -/
  epoch : Instant := ⟨0, 0⟩
  /-- How many times were read off the clock beside the run. -/
  readings : Nat := 0
deriving Inhabited

/-- What an attempt does when its pause is over. -/
inductive Intent
  | reply (reply : Reply)
  | recite
  | testify
  | perform (act : Act)
deriving Repr, Inhabited

/-- An attempt that has begun: how long it pauses, whether cancelling cuts the
    pause short, and what comes then. -/
structure Pending where
  kind : Kind
  call : Call
  pauseMs : Nat := 0
  cuttable : Bool := false
  intent : Intent
deriving Repr, Inhabited

/-- How an attempt ends by itself. -/
inductive Ending
  | replied (reply : Reply)
  | brokeDown
deriving Repr, Inhabited

namespace World

/-- Looks up a value by its key. -/
def lookUp {α β : Type} [DecidableEq α] (key : α) (entries : List (α × β)) : Option β :=
  (entries.find? fun entry => entry.1 = key).map (·.2)

/-- Sets the value of a key. -/
def assign {α β : Type} [DecidableEq α] (key : α) (value : β) : List (α × β) → List (α × β)
  | [] => [(key, value)]
  | entry :: rest =>
      if entry.1 = key then (key, value) :: rest else entry :: assign key value rest

/-- Duration in milliseconds, rounded up, of one in nanoseconds. -/
def milliseconds (nanos : Nat) : Nat := (nanos + 999999) / 1000000

/-- A time for the store to write down. Times that are read one after another
    ascend. -/
def readClock (w : World) (nowMs : Nat) : Instant × World :=
  let t := w.epoch.addMillis nowMs
  (⟨t.seconds, t.nanos + w.readings % 1000000⟩, { w with readings := w.readings + 1 })

/-- Puts the network back. -/
def withNetwork (w : World) (network : Web.Network) : World := { w with network := network }

/-- The act of a node's turn: the last of its acts is played again and again. -/
def actOf (acts : List Act) (turn : Nat) : Act :=
  (acts[turn]?).getD (acts.getLast?.getD { reply := some (.error (.permanent "script is empty")) })

/-- An attempt begins. There is nothing to begin without a handler. -/
def begin (w : World) (nowMs : Nat) (kind : Kind) (call : Call) : Option (World × Pending) :=
  (Registry.find? kind w.registry).map fun handler =>
    let ready (reply : Reply) : Pending := { kind := kind, call := call, intent := .reply reply }
    match handler.behaviour with
    | .forward => (w, ready (.ok (Handler.forward call)))
    | .judge => (w, ready (Handler.judge call))
    | .wait =>
        match Handler.pauseOf call with
        | .error failure => (w, ready (.error failure))
        | .ok nanos =>
            (w, { ready (Handler.afterPause call) with
              pauseMs := milliseconds nanos, cuttable := true })
    | .scrape settings =>
        let (reply, network) := Handler.scrape settings call w.network
        (w.withNetwork network, ready reply)
    | .scripted delayMs =>
        let (script, calls) := (lookUp kind w.scripts).getD (⟨[], none⟩, 0)
        ({ w with scripts := assign kind (script, calls + 1) w.scripts },
          { kind := kind, call := call, pauseMs := delayMs, intent := .recite })
    | .recording delayMs =>
        let r := (lookUp kind w.recordings).getD {}
        let flying := r.inFlight + 1
        let noted : Recording := ⟨r.calls ++ [call], flying, max r.peak flying⟩
        ({ w with recordings := assign kind noted w.recordings },
          { kind := kind, call := call, pauseMs := delayMs, intent := .testify })
    | .acts nodes others =>
        let turn := (lookUp (kind, call.node) w.turns).getD 0
        let act := actOf ((Entries.find? call.node nodes).getD others) turn
        ({ w with
            turns := assign (kind, call.node) (turn + 1) w.turns
            played := w.played ++ [⟨nowMs, call⟩] },
          { kind := kind, call := call, pauseMs := act.delayMs, intent := .perform act })

/-- What a rehearsed handler repeats of a call. -/
def echo (call : Call) : Json :=
  .object [("config", .object call.config), ("inputs", .object call.inputs),
    ("run_input", call.runInput)]

/-- The title under which handlers save graphs. -/
def savedTitle : String := "saved by handler"

/-- Saves the graph that an act is to save. -/
def saveFor (w : World) (nowMs : Nat) (act : Act) : World :=
  match act.save with
  | none => w
  | some (id, graph) =>
      let (now, w) := w.readClock nowMs
      match w.store.save now id savedTitle graph none with
      | .ok (_, store) => { w with store := store }
      | .error _ => w

/-- The pause of an attempt is over. -/
def finish (w : World) (nowMs : Nat) (p : Pending) : World × Ending :=
  match p.intent with
  | .reply reply => (w, .replied reply)
  | .recite =>
      let (script, calls) := (lookUp p.kind w.scripts).getD (⟨[], none⟩, 0)
      let (reply, script) := script.next
      ({ w with scripts := assign p.kind (script, calls) w.scripts }, .replied reply)
  | .testify =>
      let r := (lookUp p.kind w.recordings).getD {}
      ({ w with recordings := assign p.kind { r with inFlight := r.inFlight - 1 } w.recordings },
        .replied (.ok (.object [("node", .string p.call.node)])))
  | .perform act =>
      let w := w.saveFor nowMs act
      if act.breaksDown then (w, .brokeDown)
      else (w, .replied (act.reply.getD (.ok (echo p.call))))

end World

end Workflow
