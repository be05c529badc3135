import Workflow.Json.Printer
import Workflow.Store.Table

/-!
# Store Files

How a store that keeps texts is written into a file, and read again. The file is
a text itself, and it is written as a whole.

## Main definitions

* `Table.toText`: The text of a store.
* `Table.ofText?`: The store of a text.
-/

namespace Workflow

namespace Table

/-- The written form of what is stored under an id. -/
def rowToJson (id : String) (row : Row String) : Json :=
  .object [("id", .string id), ("title", .string row.title), ("body", .string row.body),
    ("nodes", .nat row.nodes), ("edges", .nat row.edges), ("version", .nat row.version),
    ("publish", row.publish.toJson), ("updated_at", .string row.updatedAt.toText)]

/-- Reads what is stored under an id. -/
def decodeRow : Decoder (String × Row String) :=
  Decoder.record ["id", "title", "body", "nodes", "edges", "version", "publish", "updated_at"]
    fun fields => do
      return (← fields.required "id" Decoder.string, {
        title := ← fields.required "title" Decoder.string
        body := ← fields.required "body" Decoder.string
        nodes := ← fields.required "nodes" Decoder.nat64
        edges := ← fields.required "edges" Decoder.nat64
        version := ← fields.required "version" Decoder.nat64
        publish := ← fields.required "publish" PublishRecord.decode
        updatedAt := ← fields.required "updated_at" NodeRun.decodeInstant })

/-- The text of a store. -/
def toText (t : Table String) : String :=
  (Json.array (t.map fun (id, row) => rowToJson id row)).pretty ++ "\n"

/-- The store of a text. -/
def ofText? (text : String) : Option (Table String) :=
  ((Decoder.array decodeRow).ofText? text).map Entries.ofList

end Table

end Workflow
