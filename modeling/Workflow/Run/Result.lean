import Workflow.Graph.Document
import Workflow.Handler.Failure
import Workflow.Run.Status
import Workflow.Time.Instant

/-!
# Results of Runs

What is known of every node after a run, and of the run as a whole.

The run fails when a node failed and nothing made up for it: a failure is
made up for when a node that runs in spite of failures took its output and was
run. Such a failure, and every node that was skipped, makes the result partial.

## Main definitions

* `NodeError`: Why a node has no output.
* `NodeRun`: What is known of a node.
* `RunResult`: What is known of a run.
* `outcome`: How a run ended, from what is known of its nodes.
-/

namespace Workflow

/-- Why a node has no output. -/
structure NodeError where
  cause : Cause
  message : String
deriving DecidableEq, Repr, Inhabited

namespace NodeError

/-- The line that reports an error. -/
def text (e : NodeError) : String := e.cause.title ++ ": " ++ e.message

/-- The error that an attempt without output comes to. -/
def ofAttempt (e : AttemptError) : NodeError :=
  ⟨match e with
    | .missing _ => .handlerMissing
    | .timedOut _ => .timeout
    | .failed (.transient _) => .transient
    | .failed (.permanent _) => .permanent, e.message⟩

/-- The written form. -/
def toJson (e : NodeError) : Json :=
  .object [("kind", .string e.cause.label), ("message", .string e.message)]

/-- Reads an error. -/
def decode : Decoder NodeError :=
  Decoder.record ["kind", "message"] fun fields => do
    return ⟨← fields.required "kind" Cause.decode, ← fields.required "message" Decoder.string⟩

end NodeError

/-- What is known of a node after a run. -/
structure NodeRun where
  node : NodeId
  kind : Kind
  status : NodeStatus := .pending
  output : Option Json := none
  error : Option NodeError := none
  attempts : Nat := 0
  startedAt : Option Instant := none
  finishedAt : Option Instant := none
  elapsedMs : Nat := 0
deriving DecidableEq, Repr, Inhabited

namespace NodeRun

/-- An optional instant as a value. -/
def instantOrNull : Option Instant → Json
  | some t => .string t.toText
  | none => .null

/-- The written form. A missing output or error is left out. -/
def toJson (r : NodeRun) : Json :=
  .object <|
    [("node_id", .string r.node), ("kind", .string r.kind.label),
        ("status", .string r.status.label)]
      ++ (match r.output with
        | some output => [("output", output)]
        | none => [])
      ++ (match r.error with
        | some error => [("error", error.toJson)]
        | none => [])
      ++ [("attempts", .nat r.attempts), ("started_at", instantOrNull r.startedAt),
        ("finished_at", instantOrNull r.finishedAt), ("elapsed_ms", .nat r.elapsedMs)]

/-- Reads an instant. -/
def decodeInstant : Decoder Instant
  | _, .string text => do Instant.ofText? (← text)
  | _, _ => none

/-- Reads what is known of a node. An output that is null is a missing one. -/
def decode : Decoder NodeRun :=
  Decoder.record ["node_id", "kind", "status", "output", "error", "attempts", "started_at",
      "finished_at", "elapsed_ms"] fun fields => do
    return {
      node := ← fields.required "node_id" Decoder.string
      kind := ← fields.required "kind" Kind.decode
      status := ← fields.required "status" NodeStatus.decode
      output := ← fields.defaulted "output" (Decoder.nullable Decoder.json) none
      error := ← fields.defaulted "error" (Decoder.nullable NodeError.decode) none
      attempts := ← fields.required "attempts" Decoder.nat32
      startedAt := ← fields.optional "started_at" (Decoder.nullable decodeInstant)
      finishedAt := ← fields.optional "finished_at" (Decoder.nullable decodeInstant)
      elapsedMs := ← fields.required "elapsed_ms" Decoder.nat64 }

end NodeRun

/-- What is known of a run. -/
structure RunResult where
  run : String
  graph : String
  status : RunStatus
  stages : List (List NodeId)
  nodes : Entries NodeRun
  startedAt : Instant
  finishedAt : Instant
  elapsedMs : Nat
deriving DecidableEq, Repr, Inhabited

namespace RunResult

/-- What is known of a node. -/
def node? (r : RunResult) (id : NodeId) : Option NodeRun := Entries.find? id r.nodes

/-- How many nodes have a status. -/
def count (r : RunResult) (status : NodeStatus) : Nat :=
  (r.nodes.filter fun entry => entry.2.status = status).length

/-- The nodes that failed. -/
def failed (r : RunResult) : List NodeId :=
  (r.nodes.filter fun entry => entry.2.status = .failed).map fun entry => entry.2.node

/-- Whether every node succeeded. -/
def isSuccess (r : RunResult) : Bool := r.status = .succeeded

/-- The written form. -/
def toJson (r : RunResult) : Json :=
  .object [("run_id", .string r.run), ("graph_id", .string r.graph),
    ("status", .string r.status.label), ("stages", .array (r.stages.map Json.strings)),
    ("nodes", .object (r.nodes.map fun (id, node) => (id, node.toJson))),
    ("started_at", .string r.startedAt.toText), ("finished_at", .string r.finishedAt.toText),
    ("elapsed_ms", .nat r.elapsedMs)]

/-- Reads what is known of a run. -/
def decode : Decoder RunResult :=
  Decoder.record ["run_id", "graph_id", "status", "stages", "nodes", "started_at", "finished_at",
      "elapsed_ms"] fun fields => do
    return {
      run := ← fields.required "run_id" Decoder.string
      graph := ← fields.required "graph_id" Decoder.string
      status := ← fields.required "status" RunStatus.decode
      stages := ← fields.required "stages" (Decoder.array (Decoder.array Decoder.string))
      nodes := ← fields.required "nodes" (Decoder.entries NodeRun.decode)
      startedAt := ← fields.required "started_at" NodeRun.decodeInstant
      finishedAt := ← fields.required "finished_at" NodeRun.decodeInstant
      elapsedMs := ← fields.required "elapsed_ms" Decoder.nat64 }

end RunResult

/-- Whether something made up for the failure of a node. -/
def contained (g : Graph) (nodes : Entries NodeRun) (id : NodeId) : Bool :=
  (g.outgoing id).any fun e =>
    match Entries.find? e.target nodes with
    | some next => next.kind.tolerant && (next.status = .succeeded || next.status = .failed)
    | none => false

/-- How a run ended, from what is known of its nodes. -/
def outcome (g : Graph) (nodes : Entries NodeRun) (interrupted : Bool) : RunStatus :=
  let runs := nodes.map (·.2)
  if interrupted then .cancelled
  else if runs.any fun r => r.status = .failed && !contained g nodes r.node then .failed
  else if runs.any fun r => r.status = .failed || r.status = .skipped then .partly
  else .succeeded

end Workflow
