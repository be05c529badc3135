import Workflow.Admission
import Workflow.Audit
import Workflow.Handler.Failure

/-!
# Errors

Why a request fails as a whole. Everything that can go wrong with a request
has one constructor here, and the wording is in one place.

## Main definitions

* `WorkflowError`: The errors.
* `WorkflowError.message`: What is said about an error.
-/

namespace Workflow

/-- Why a request fails. -/
inductive WorkflowError
  | invalidGraph (reason : String)
  | cycleDetected (node : NodeId)
  | publishRejected (reason : String)
  | alreadyPublished (graph : String)
  | handlerNotFound (kind : String)
  | cancelled
  | badSettings (reason : String)
  | settingsNotFound (path : String)
  | database (reason : String)
  | graphNotFound (graph : String)
  | conflict (graph : String) (expected actual : Nat)
  | inputOutput (reason : String)
  | malformed (reason : String)
deriving DecidableEq, Repr, Inhabited

namespace WorkflowError

/-- What is said about an error. -/
def message : WorkflowError → String
  | invalidGraph reason => "Invalid graph: " ++ reason
  | cycleDetected node => "Cycle detected at node " ++ node
  | publishRejected reason => "Publish rejected: " ++ reason
  | alreadyPublished graph => "Graph " ++ graph ++ " is unchanged and already published"
  | handlerNotFound kind => "No handler registered for node kind: " ++ kind
  | cancelled => "Run cancelled"
  | badSettings reason => "Config error: " ++ reason
  | settingsNotFound path => "Config file not found: " ++ path
  | database reason => "Database error: " ++ reason
  | graphNotFound graph => "Graph not found: " ++ graph
  | conflict graph expected actual =>
      "Version conflict on graph " ++ graph ++ ": expected " ++ toString expected
        ++ ", found " ++ toString actual
  | inputOutput reason => "I/O error: " ++ reason
  | malformed reason => "JSON error: " ++ reason

/-- A refused change as an error. -/
def ofRefusal (r : Refusal) : WorkflowError := invalidGraph r.message

/-- A cycle as an error. -/
def ofCycle (c : Cycle) : WorkflowError := cycleDetected c.node

/-- What a handler reports when it runs into an error: trying again does not
    help. -/
def toFailure (e : WorkflowError) : Failure := .permanent e.message

end WorkflowError

end Workflow
