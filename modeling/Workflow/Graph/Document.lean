import Workflow.Graph.Basic
import Workflow.Json.Decode
import Workflow.Json.Printer

/-!
# Graphs in Documents

The form in which graphs are exchanged and stored. Fields are written in a
fixed order. A graph may leave out its nodes or its edges, and a node all but
its id and its kind.

## Main definitions

* `Graph.toJson`, `Node.toJson`, `Position.toJson`: The written form.
* `Graph.decode`, `Node.decode`, `Position.decode`: Reading it.
* `Graph.ofText?`, `Graph.toText`: A graph from and to a text.
-/

namespace Workflow

namespace Kind

/-- Reads a kind by its label. -/
def decode : Decoder Kind := Decoder.name ofLabel?

end Kind

namespace Position

/-- The written form of a position. -/
def toJson (p : Position) : Json :=
  .object [("x", .number (.real p.x)), ("y", .number (.real p.y))]

/-- Reads a position. -/
def decode : Decoder Position :=
  Decoder.record ["x", "y"] fun fields => do
    return ⟨← fields.required "x" Decoder.real, ← fields.required "y" Decoder.real⟩

end Position

namespace Node

/-- The written form of a node. -/
def toJson (n : Node) : Json :=
  .object [("id", .string n.id), ("kind", .string n.kind.label), ("config", .object n.config),
    ("position", n.position.toJson), ("title", .string n.title),
    ("description", .string n.description)]

/-- Reads a node. -/
def decode : Decoder Node :=
  Decoder.record ["id", "kind", "config", "position", "title", "description"] fun fields => do
    return {
      id := ← fields.required "id" Decoder.string
      kind := ← fields.required "kind" Kind.decode
      config := ← fields.defaulted "config" (Decoder.entries Decoder.json) []
      position := ← fields.defaulted "position" Position.decode default
      title := ← fields.defaulted "title" Decoder.string ""
      description := ← fields.defaulted "description" Decoder.string "" }

end Node

namespace Edge

/-- The written form of an edge. -/
def toJson (e : Edge) : Json :=
  .object [("source", .string e.source), ("target", .string e.target)]

/-- Reads an edge. -/
def decode : Decoder Edge :=
  Decoder.record ["source", "target"] fun fields => do
    return ⟨← fields.required "source" Decoder.string, ← fields.required "target" Decoder.string⟩

end Edge

namespace Graph

/-- The written form of a graph. -/
def toJson (g : Graph) : Json :=
  .object [("nodes", .array (g.nodes.map Node.toJson)), ("edges", .array (g.edges.map Edge.toJson))]

/-- Reads a graph. -/
def decode : Decoder Graph :=
  Decoder.record ["nodes", "edges"] fun fields => do
    return ⟨← fields.defaulted "nodes" (Decoder.array Node.decode) [],
      ← fields.defaulted "edges" (Decoder.array Edge.decode) []⟩

/-- The graph that a text holds. -/
def ofText? (text : String) : Option Graph := decode.ofText? text

/-- The text of a graph, laid out for people. -/
def toText (g : Graph) : String := g.toJson.pretty

end Graph

end Workflow
