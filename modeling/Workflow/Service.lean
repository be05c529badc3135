import Workflow.Run.Clock

/-!
# The Workflow Service

Saving, running and publishing graphs.

Saving is allowed while a graph has problems. Running asks that the audit of
the graph finds nothing fatal. Publishing asks for more, runs the graph, and
then records that the stored version was published, unless the run was
cancelled. A snapshot that is published already is not published again.

Publishing goes through three moments: the stored graph is admitted, it is run,
and the outcome is concluded. Between them other requests may work on the same
store, so each of the moments is a definition of its own.

## Main definitions

* `Service`: What publishing asks for, and the engine.
* `Service.save`, `validate`, `runGraph`, `run`, `publish`: The requests.
* `Service.passGates`, `Service.conclude`: The first and the last moment of
  publishing.

## Theorems

* `passGates_published`: A published snapshot is not admitted.
-/

namespace Workflow

/-- Carrying out a run. -/
abbrev Executor := RunOrder → Graph → World → Except Cycle Execution × World

/-- What publishing asks for, and how runs are carried out. -/
structure Service where
  engine : Engine := {}
  rules : PublishRules := {}
deriving Inhabited

/-- What publishing comes to. Nothing is recorded of a run that was
    cancelled. -/
structure Publication where
  record : Option PublishRecord
  execution : Execution
deriving Repr, Inhabited

namespace Service

/-- What is said about a graph that has fatal problems. -/
def fatalSummary (vs : List Violation) : String :=
  "; ".intercalate ((vs.filter Violation.isFatal).map Violation.text)

/-- Saves a graph, and gives its version. -/
def save (w : World) (id title : String) (graph : Graph) (expected : Option Nat) :
    Except WorkflowError Nat × World :=
  let (now, w) := w.readClock 0
  match w.store.save now id title graph expected with
  | .error e => (.error e, w)
  | .ok (version, store) => (.ok version, { w with store := store })

/-- Deletes a graph, and tells whether it was there. -/
def delete (w : World) (id : String) : Bool × World :=
  let (found, store) := w.store.delete id
  (found, { w with store := store })

/-- The problems of a stored graph. -/
def validate (w : World) (id : String) : Except WorkflowError (List Violation) := do
  return (← w.store.load id).graph.audit

/-- Records that a version was published. -/
def markPublished (w : World) (id : String) (version : Nat) :
    Except WorkflowError PublishRecord × World :=
  let (now, w) := w.readClock 0
  match w.store.markPublished now id version with
  | .error e => (.error e, w)
  | .ok (record, store) => (.ok record, { w with store := store })

/-- Runs a graph that nothing fatal is wrong with. -/
def runGraphWith (execute : Executor) (order : RunOrder) (graph : Graph) (w : World) :
    Except WorkflowError Execution × World :=
  if hasFatal graph.audit then (.error (.invalidGraph (fatalSummary graph.audit)), w)
  else
    let (execution, w) := execute order graph w
    (execution.mapError WorkflowError.ofCycle, w)

/-- Runs a stored graph. -/
def runWith (execute : Executor) (order : RunOrder) (w : World) :
    Except WorkflowError Execution × World :=
  match w.store.load order.graphId with
  | .error e => (.error e, w)
  | .ok stored => runGraphWith execute order stored.graph w

/-- The first moment of publishing: the stored graph, when it may be
    published. -/
def passGates (rules : PublishRules) (store : Store) (id : String) :
    Except WorkflowError StoredGraph := do
  let stored ← store.load id
  if stored.publish.published then throw (.alreadyPublished id)
  let problems := stored.graph.auditForPublish rules
  if hasFatal problems then throw (.publishRejected (fatalSummary problems))
  return stored

/-- The last moment of publishing: the version that was run is recorded. -/
def conclude (w : World) (stored : StoredGraph) (execution : Execution) :
    Except WorkflowError Publication × World :=
  if execution.result.status = .cancelled then (.ok ⟨none, execution⟩, w)
  else
    let (record, w) := markPublished w stored.id stored.version
    (record.map fun r => ⟨some r, execution⟩, w)

/-- Publishes a stored graph. -/
def publishWith (execute : Executor) (rules : PublishRules) (order : RunOrder) (w : World) :
    Except WorkflowError Publication × World :=
  match passGates rules w.store order.graphId with
  | .error e => (.error e, w)
  | .ok stored =>
      match execute order stored.graph w with
      | (.error cycle, w) => (.error (.ofCycle cycle), w)
      | (.ok execution, w) => conclude w stored execution

/-- Runs a graph that is not stored. -/
def runGraph (s : Service) (order : RunOrder) (graph : Graph) (w : World) :
    Except WorkflowError Execution × World :=
  runGraphWith s.engine.execute order graph w

/-- Runs a stored graph. -/
def run (s : Service) (order : RunOrder) (w : World) : Except WorkflowError Execution × World :=
  runWith s.engine.execute order w

/-- Publishes a stored graph. -/
def publish (s : Service) (order : RunOrder) (w : World) :
    Except WorkflowError Publication × World :=
  publishWith s.engine.execute s.rules order w

/-- A published snapshot is not admitted. -/
theorem passGates_published {rules : PublishRules} {store : Store} {id : String}
    {stored : StoredGraph} (hload : store.load id = .ok stored)
    (hpub : stored.publish.published = true) :
    passGates rules store id = .error (.alreadyPublished id) := by
  simp only [passGates, hload, bind, Except.bind, hpub, if_true]
  rfl

end Service

end Workflow
