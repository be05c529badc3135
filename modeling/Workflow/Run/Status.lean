import Workflow.Json.Decode

/-!
# Statuses

How far a node has come in a run, and how a run ended.

## Main definitions

* `NodeStatus`: The state of a node.
* `RunStatus`: The outcome of a run.
* `Cause`: Why a node has no output.
-/

namespace Workflow

/-- The state of a node in a run. -/
inductive NodeStatus
  | pending
  | running
  | succeeded
  | failed
  | skipped
deriving DecidableEq, Repr, Inhabited

namespace NodeStatus

/-- All states. -/
def all : List NodeStatus := [pending, running, succeeded, failed, skipped]

/-- The name of a state. -/
def label : NodeStatus → String
  | pending => "pending"
  | running => "running"
  | succeeded => "succeeded"
  | failed => "failed"
  | skipped => "skipped"

/-- The state with a name. -/
def ofLabel? (text : String) : Option NodeStatus := all.find? fun s => s.label = text

/-- Whether a node in this state is done. -/
def isTerminal : NodeStatus → Bool
  | pending => false
  | running => false
  | _ => true

/-- Reads a state. -/
def decode : Decoder NodeStatus := Decoder.name ofLabel?

end NodeStatus

/-- The outcome of a run. -/
inductive RunStatus
  /-- Every node succeeded. -/
  | succeeded
  /-- Nothing failed for good, but not every node succeeded. -/
  | partly
  /-- A node failed, and nothing made up for it. -/
  | failed
  /-- The run was cancelled before it was over. -/
  | cancelled
deriving DecidableEq, Repr, Inhabited

namespace RunStatus

/-- All outcomes. -/
def all : List RunStatus := [succeeded, partly, failed, cancelled]

/-- The name of an outcome. -/
def label : RunStatus → String
  | succeeded => "succeeded"
  | partly => "partial"
  | failed => "failed"
  | cancelled => "cancelled"

/-- The outcome with a name. -/
def ofLabel? (text : String) : Option RunStatus := all.find? fun s => s.label = text

/-- Reads an outcome. -/
def decode : Decoder RunStatus := Decoder.name ofLabel?

end RunStatus

/-- Why a node has no output. -/
inductive Cause
  | transient
  | permanent
  | timeout
  | handlerMissing
  | cancelled
  /-- A node before it failed or was skipped. -/
  | predecessor
deriving DecidableEq, Repr, Inhabited

namespace Cause

/-- All causes. -/
def all : List Cause := [transient, permanent, timeout, handlerMissing, cancelled, predecessor]

/-- The name of a cause in documents. -/
def label : Cause → String
  | transient => "transient"
  | permanent => "permanent"
  | timeout => "timeout"
  | handlerMissing => "handler_missing"
  | cancelled => "cancelled"
  | predecessor => "upstream"

/-- The name of a cause in messages. -/
def title : Cause → String
  | transient => "Transient"
  | permanent => "Permanent"
  | timeout => "Timeout"
  | handlerMissing => "HandlerMissing"
  | cancelled => "Cancelled"
  | predecessor => "Upstream"

/-- The cause with a name. -/
def ofLabel? (text : String) : Option Cause := all.find? fun c => c.label = text

/-- Whether another attempt may be made after this. -/
def isRetryable : Cause → Bool
  | transient => true
  | timeout => true
  | _ => false

/-- Reads a cause. -/
def decode : Decoder Cause := Decoder.name ofLabel?

end Cause

end Workflow
