import Workflow.Json.Printer
import Workflow.Store.Record

/-!
# Stores

A store keeps one snapshot for each graph id, with a version that goes up by
one whenever the snapshot changes. A save may name the version that it was
made from, and is refused when the stored one is another; a graph that is not
stored has version zero. Saving the same snapshot again changes nothing.

How a graph is kept is a parameter. A store in memory keeps the graph itself.
A store on disk keeps its text: two graphs are then the same when their texts
are, and loading reads the text again.

A listing tells how many nodes and edges a graph has. A store in memory counts
them in the graph when it lists. A store on disk does not read the texts for
that, but has noted both numbers beside each text.

## Main definitions

* `Format`: How graphs are kept.
* `Format.inMemory`, `Format.asText`: The two ways.
* `Row`, `Table`: What is stored.
* `Table.load`, `save`, `delete`, `markPublished`: The operations.
* `Table.listGraphs`, `Table.listNotes`: The two ways to list.
* `Store`: A table in either format.
-/

namespace Workflow

/-- How graphs are kept: the form of a graph, when two forms are the same, and
    the graph of a form. -/
structure Format (β : Type) where
  keep : Graph → β
  same : β → β → Bool
  recover : β → Option Graph

namespace Format

/-- Graphs kept as they are. -/
def inMemory : Format Graph := ⟨id, Graph.same, some⟩

/-- Graphs kept as texts. -/
def asText : Format String := ⟨fun g => g.toJson.compact, (· == ·), Graph.ofText?⟩

end Format

/-- What is stored under an id. -/
structure Row (β : Type) where
  title : String
  body : β
  /-- How many nodes the snapshot was noted to have. -/
  nodes : Nat
  /-- How many edges the snapshot was noted to have. -/
  edges : Nat
  /-- The version of the snapshot. It goes up by one with each change, and stays
      below `2 ^ 63` as long as a graph is not changed that often. -/
  version : Nat
  publish : PublishRecord
  updatedAt : Instant
deriving DecidableEq, Repr

namespace Row

variable {β : Type}

/-- The stored graph of a row, when its graph is known. -/
def stored (row : Row β) (id : String) (graph : Graph) : StoredGraph :=
  ⟨id, row.title, graph, row.version, row.publish, row.updatedAt⟩

/-- The line of a row in a listing, from what was noted. -/
def line (row : Row β) (id : String) : Summary :=
  ⟨id, row.title, row.version, row.nodes, row.edges, row.publish.published, row.updatedAt⟩

end Row

/-- What is stored, by id. -/
abbrev Table (β : Type) := Entries (Row β)

namespace Table

variable {β : Type}

/-- The version that is stored under an id. -/
def versionOf (t : Table β) (id : String) : Nat :=
  match Entries.find? id t with
  | some row => row.version
  | none => 0

/-- The graph under an id. -/
def load (f : Format β) (t : Table β) (id : String) : Except WorkflowError StoredGraph :=
  match Entries.find? id t with
  | none => .error (.graphNotFound id)
  | some row =>
      match f.recover row.body with
      | none => .error (.malformed "stored graph cannot be read")
      | some graph => .ok (row.stored id graph)

/-- Saves a snapshot, and gives its version. -/
def save (f : Format β) (t : Table β) (now : Instant) (id title : String) (graph : Graph)
    (expected : Option Nat) : Except WorkflowError (Nat × Table β) := do
  let current := Entries.find? id t
  checkVersion id (versionOf t id) expected
  let body := f.keep graph
  let unchanged := match current with
    | some row => f.same row.body body && row.title == title
    | none => false
  if unchanged then return (versionOf t id, t)
  else
    let publish := match current with
      | some row => row.publish.outdate
      | none => {}
    let version := versionOf t id + 1
    return (version, Entries.insert id
      ⟨title, body, graph.nodes.length, graph.edges.length, version, publish, now⟩ t)

/-- All graphs, the latest update first, with what is counted in them. -/
def listGraphs (t : Table Graph) : List Summary :=
  (t.map fun (id, row) => Summary.ofStored (row.stored id row.body)).mergeSort Summary.before

/-- All graphs, the latest update first, with what was noted of them. The texts
    of the times are in the order of the times. -/
def listNotes (t : Table β) : List Summary :=
  (t.map fun (id, row) => row.line id).mergeSort Summary.before

/-- Deletes a graph, and tells whether it was there. -/
def delete (t : Table β) (id : String) : Bool × Table β :=
  (Entries.contains id t, Entries.erase id t)

/-- Records that a version was published. -/
def markPublished (t : Table β) (now : Instant) (id : String) (version : Nat) :
    Except WorkflowError (PublishRecord × Table β) :=
  match Entries.find? id t with
  | none => .error (.graphNotFound id)
  | some row => do
      checkVersion id row.version (some version)
      let publish := row.publish.stamp now
      return (publish, Entries.insert id { row with publish := publish } t)

end Table

/-- A store in either format. -/
inductive Store
  | memory (table : Table Graph)
  | text (table : Table String)

instance : Inhabited Store := ⟨.memory []⟩

namespace Store

/-- The graph under an id. -/
def load (s : Store) (id : String) : Except WorkflowError StoredGraph :=
  match s with
  | memory t => t.load .inMemory id
  | text t => t.load .asText id

/-- Saves a snapshot, and gives its version. -/
def save (s : Store) (now : Instant) (id title : String) (graph : Graph)
    (expected : Option Nat) : Except WorkflowError (Nat × Store) :=
  match s with
  | memory t => (t.save .inMemory now id title graph expected).map fun r => (r.1, memory r.2)
  | text t => (t.save .asText now id title graph expected).map fun r => (r.1, text r.2)

/-- All graphs, the latest update first. -/
def list (s : Store) : List Summary :=
  match s with
  | memory t => t.listGraphs
  | text t => t.listNotes

/-- Deletes a graph, and tells whether it was there. -/
def delete (s : Store) (id : String) : Bool × Store :=
  match s with
  | memory t => ((t.delete id).1, memory (t.delete id).2)
  | text t => ((t.delete id).1, text (t.delete id).2)

/-- Records that a version was published. -/
def markPublished (s : Store) (now : Instant) (id : String) (version : Nat) :
    Except WorkflowError (PublishRecord × Store) :=
  match s with
  | memory t => (t.markPublished now id version).map fun r => (r.1, memory r.2)
  | text t => (t.markPublished now id version).map fun r => (r.1, text r.2)

end Store

end Workflow
