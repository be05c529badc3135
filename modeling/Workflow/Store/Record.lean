import Workflow.Error
import Workflow.Graph.Document
import Workflow.Run.Result

/-!
# Stored Graphs

What a store knows of a graph: its latest snapshot with a version, and whether
that snapshot was published.

## Main definitions

* `PublishRecord`: What is known of the publishing of a graph.
* `StoredGraph`: A graph as it is stored.
* `Summary`: A line of a listing.
* `checkVersion`: Whether a version is the expected one.
-/

namespace Workflow

/-- What is known of the publishing of a graph. -/
structure PublishRecord where
  /-- Whether the stored snapshot is the one that was published last. -/
  published : Bool := false
  lastPublished : Option Instant := none
  /-- How often a snapshot was published. It goes up by one each time, and stays
      below `2 ^ 32` as long as a graph is not published that often. -/
  count : Nat := 0
deriving DecidableEq, Repr, Inhabited

namespace PublishRecord

/-- The record after publishing once more. -/
def stamp (r : PublishRecord) (now : Instant) : PublishRecord :=
  ⟨true, some now, r.count + 1⟩

/-- The record after the snapshot has changed. -/
def outdate (r : PublishRecord) : PublishRecord := { r with published := false }

/-- The written form. -/
def toJson (r : PublishRecord) : Json :=
  .object [("published", .bool r.published),
    ("last_published", NodeRun.instantOrNull r.lastPublished), ("publish_count", .nat r.count)]

/-- Reads a record. -/
def decode : Decoder PublishRecord :=
  Decoder.record ["published", "last_published", "publish_count"] fun fields => do
    return ⟨← fields.required "published" Decoder.bool,
      ← fields.optional "last_published" (Decoder.nullable NodeRun.decodeInstant),
      ← fields.required "publish_count" Decoder.nat32⟩

end PublishRecord

/-- A graph as it is stored. -/
structure StoredGraph where
  id : String
  title : String
  graph : Graph
  version : Nat
  publish : PublishRecord
  updatedAt : Instant
deriving DecidableEq, Repr, Inhabited

namespace StoredGraph

/-- The written form. -/
def toJson (s : StoredGraph) : Json :=
  .object [("id", .string s.id), ("title", .string s.title), ("graph", s.graph.toJson),
    ("version", .nat s.version), ("publish", s.publish.toJson),
    ("updated_at", .string s.updatedAt.toText)]

/-- Reads a stored graph. -/
def decode : Decoder StoredGraph :=
  Decoder.record ["id", "title", "graph", "version", "publish", "updated_at"] fun fields => do
    return {
      id := ← fields.required "id" Decoder.string
      title := ← fields.required "title" Decoder.string
      graph := ← fields.required "graph" Graph.decode
      version := ← fields.required "version" Decoder.nat64
      publish := ← fields.required "publish" PublishRecord.decode
      updatedAt := ← fields.required "updated_at" NodeRun.decodeInstant }

end StoredGraph

/-- A line of a listing. -/
structure Summary where
  id : String
  title : String
  version : Nat
  nodes : Nat
  edges : Nat
  published : Bool
  updatedAt : Instant
deriving DecidableEq, Repr, Inhabited

namespace Summary

/-- The line for a stored graph. -/
def ofStored (s : StoredGraph) : Summary :=
  ⟨s.id, s.title, s.version, s.graph.nodes.length, s.graph.edges.length, s.publish.published,
    s.updatedAt⟩

/-- The order of a listing: the latest update first, then by id. -/
def before (a b : Summary) : Bool :=
  b.updatedAt.before a.updatedAt || (!a.updatedAt.before b.updatedAt && decide (a.id ≤ b.id))

/-- The written form. -/
def toJson (s : Summary) : Json :=
  .object [("id", .string s.id), ("title", .string s.title), ("version", .nat s.version),
    ("nodes", .nat s.nodes), ("edges", .nat s.edges), ("published", .bool s.published),
    ("updated_at", .string s.updatedAt.toText)]

end Summary

/-- Whether a version is the expected one, if one is expected. -/
def checkVersion (id : String) (current : Nat) (expected : Option Nat) :
    Except WorkflowError Unit :=
  match expected with
  | some v => if v = current then .ok () else .error (.conflict id v current)
  | none => .ok ()

end Workflow
