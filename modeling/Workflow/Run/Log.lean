import Workflow.Json.Printer
import Workflow.Path
import Workflow.Run.Bus

/-!
# Run Logs

A run is logged as a file with one line for each event of the run that the
level of the log lets through. A log ends with the end of its run; the ends of
other runs do not matter to it.

A logger hears the events from the bus, one at a turn. It stops after the end of
the run, when the bus is closed, or when it is told to, but not before it has
heard what waits on the bus. The file takes every line. A file that takes no more
lines would be one more reason to stop, which is left out.

## Main definitions

* `Happening.level`: From which level on something is logged.
* `LogEntry`: A line of a log, without the time.
* `logOf`: The lines of the log of a run.
* `logPath?`: The file of a log.
* `Logger`, `Logger.turn`: A logger at the bus.

## Theorems

* `logOf_nil`: No events leave an empty log.
-/

namespace Workflow

/-- From which level on something is logged: 1 for the run, 2 for stages and
    ends of nodes, 3 for attempts. -/
def Happening.level : Happening → Nat
  | .runStarted .. => 1
  | .runCompleted .. => 1
  | .stageStarted .. => 2
  | .nodeFinished .. => 2
  | .nodeSkipped .. => 2
  | .nodeStarted .. => 3
  | .nodeRetrying .. => 3

/-- Whether this is the end of a run. -/
def Happening.endsRun : Happening → Bool
  | .runCompleted .. => true
  | _ => false

/-- A line of a log, without the time at which it is written. -/
structure LogEntry where
  run : String
  what : String
  node : Option NodeId
  detail : Entries Json
deriving DecidableEq, Repr

namespace LogEntry

/-- The line for an event. -/
def ofEvent (e : Event) : LogEntry :=
  ⟨e.run, e.what.label, e.what.node?, Entries.ofList e.what.particulars⟩

/-- The written form of a line. -/
def toJson (entry : LogEntry) (time : String) : Json :=
  .object <|
    [("timestamp", .string time), ("run_id", .string entry.run),
        ("event_type", .string entry.what)]
      ++ (match entry.node with
        | some node => [("node_id", .string node)]
        | none => [])
      ++ (if entry.detail.isEmpty then [] else [("detail", .object entry.detail)])

end LogEntry

/-- The lines of the log of a run, from the events on the bus. -/
def logOf (level : Nat) (run : String) : List Event → List LogEntry
  | [] => []
  | e :: rest =>
      if e.run ≠ run then logOf level run rest
      else
        let line := if e.what.level ≤ level then [LogEntry.ofEvent e] else []
        if e.what.endsRun then line else line ++ logOf level run rest

/-- No events leave an empty log. -/
theorem logOf_nil (level : Nat) (run : String) : logOf level run [] = [] := rfl

/-- A logger at the bus: how far it has heard, the lines that it has written, and
    whether it has stopped. -/
structure Logger where
  listener : Listener
  lines : List LogEntry := []
  stopped : Bool := false
deriving DecidableEq, Repr

namespace Logger

variable (level : Nat) (run : String)

/-- Writes the line of an event that is heard, if it is an event of the run and
    the level lets it through. After the end of the run, nothing more is heard. -/
def hear (l : Logger) (e : Event) : Logger :=
  if e.run ≠ run then l
  else
    { l with
      lines := if e.what.level ≤ level then l.lines ++ [LogEntry.ofEvent e] else l.lines
      stopped := e.what.endsRun }

/-- A turn of a logger. What waits on the bus comes first; whether it is told to
    stop matters only when nothing waits. -/
def turn (bus : Bus) (told : Bool) (l : Logger) : Logger :=
  if l.stopped then l
  else
    match bus.receive l.listener with
    | (.event e, listener) => hear level run { l with listener := listener } e
    | (.lagged _, listener) => { l with listener := listener }
    | (.closed, _) => { l with stopped := true }
    | (.empty, _) => { l with stopped := told }

end Logger

/-- The file of the log of a run that begins at a time. Each graph has its own
    directory, and the name of the run must be one of a file. -/
def logPath? (directory graph run time : String) : Option String :=
  let name := time ++ "_" ++ run ++ ".jsonl"
  let parts := Path.steps graph
  let isName (part : String) : Bool :=
    part.utf8ByteSize ≤ Path.nameLimit && !part.toList.contains (Char.ofNat 0)
  if run.toList.contains '/' || !isName name || !parts.all isName then
    none
  else some (Path.join (Path.join directory graph) name)

end Workflow
