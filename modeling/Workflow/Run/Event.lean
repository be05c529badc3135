import Workflow.Graph.Basic
import Workflow.Run.Status

/-!
# Events

What happens in a run, in the order in which it happens.

## Main definitions

* `Happening`: What happens.
* `Event`: What happens in which run.
* `Happening.node?`: The node it happens to.
* `Event.toJson`, `Event.decode`: The written form, and reading it.
-/

namespace Workflow

/-- What happens in a run. -/
inductive Happening
  | runStarted (graph : String) (stages nodes : Nat)
  | stageStarted (index : Nat) (nodes : List NodeId)
  | nodeStarted (node : NodeId) (attempt : Nat)
  | nodeRetrying (node : NodeId) (attempt backoffMs : Nat) (error : String)
  | nodeFinished (node : NodeId) (status : NodeStatus) (attempts elapsedMs : Nat)
  | nodeSkipped (node : NodeId) (reason : String)
  | runCompleted (status : RunStatus) (elapsedMs : Nat)
deriving DecidableEq, Repr, Inhabited

/-- What happens in which run. -/
structure Event where
  run : String
  what : Happening
deriving DecidableEq, Repr, Inhabited

namespace Happening

/-- The node that something happens to, if it is one. -/
def node? : Happening → Option NodeId
  | nodeStarted node _ => some node
  | nodeRetrying node _ _ _ => some node
  | nodeFinished node _ _ _ => some node
  | nodeSkipped node _ => some node
  | _ => none

/-- The name of what happens. -/
def label : Happening → String
  | runStarted .. => "run_started"
  | stageStarted .. => "stage_started"
  | nodeStarted .. => "node_started"
  | nodeRetrying .. => "node_retrying"
  | nodeFinished .. => "node_finished"
  | nodeSkipped .. => "node_skipped"
  | runCompleted .. => "run_completed"

/-- The particulars of what happens, without the node. -/
def particulars : Happening → List (String × Json)
  | runStarted graph stages nodes =>
      [("graph_id", .string graph), ("stages", .nat stages), ("nodes", .nat nodes)]
  | stageStarted index nodes => [("index", .nat index), ("nodes", .strings nodes)]
  | nodeStarted _ attempt => [("attempt", .nat attempt)]
  | nodeRetrying _ attempt backoffMs error =>
      [("attempt", .nat attempt), ("backoff_ms", .nat backoffMs), ("error", .string error)]
  | nodeFinished _ status attempts elapsedMs =>
      [("status", .string status.label), ("attempts", .nat attempts),
        ("elapsed_ms", .nat elapsedMs)]
  | nodeSkipped _ reason => [("reason", .string reason)]
  | runCompleted status elapsedMs =>
      [("status", .string status.label), ("elapsed_ms", .nat elapsedMs)]

/-- Reads what happens from the fields of an event. -/
def ofFields? (fields : Fields) : Option Happening := do
  let text (name : String) := fields.required name Decoder.string
  let small (name : String) := fields.required name Decoder.nat32
  let large (name : String) := fields.required name Decoder.nat64
  match ← text "type" with
  | "run_started" => return runStarted (← text "graph_id") (← large "stages") (← large "nodes")
  | "stage_started" =>
      let nodes ← fields.required "nodes" (Decoder.array Decoder.string)
      return stageStarted (← large "index") nodes
  | "node_started" => return nodeStarted (← text "node_id") (← small "attempt")
  | "node_retrying" =>
      return nodeRetrying (← text "node_id") (← small "attempt") (← large "backoff_ms")
        (← text "error")
  | "node_finished" =>
      return nodeFinished (← text "node_id") (← fields.required "status" NodeStatus.decode)
        (← small "attempts") (← large "elapsed_ms")
  | "node_skipped" => return nodeSkipped (← text "node_id") (← text "reason")
  | "run_completed" =>
      return runCompleted (← fields.required "status" RunStatus.decode) (← large "elapsed_ms")
  | _ => none

end Happening

namespace Event

/-- The written form of an event. -/
def toJson (e : Event) : Json :=
  .object <|
    ("type", .string e.what.label) :: ("run_id", .string e.run) ::
      (match e.what.node? with
        | some node => [("node_id", .string node)]
        | none => [])
      ++ e.what.particulars

/-- The names of all fields that an event may have. -/
def fieldNames : List String :=
  ["type", "run_id", "node_id", "graph_id", "stages", "nodes", "index", "attempt", "backoff_ms",
    "error", "status", "attempts", "elapsed_ms", "reason"]

/-- Reads an event. -/
def decode : Decoder Event :=
  Decoder.record fieldNames fun fields => do
    return ⟨← fields.required "run_id" Decoder.string, ← Happening.ofFields? fields⟩

end Event

end Workflow
