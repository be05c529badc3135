import Workflow.Admission

/-!
# Editing Sessions

A graph that is being edited. Everything that is added goes through the rules
of admission, so a session never holds a graph that breaks them; what is
refused changes nothing. Removing what is not there is no fault.

## Main definitions

* `Session`: A graph that is being edited.
* `Session.ofGraph`: A session over a stored graph.
* `Session.insertNode`, `Session.addEdge`: Adding.
* `Session.removeNode`, `Session.removeEdge`: Removing.
* `Session.updateConfig`, `Session.moveNode`: Changing a node.
-/

namespace Workflow

/-- A graph that is being edited. -/
structure Session where
  graph : Graph := {}
deriving DecidableEq, Repr, Inhabited

namespace Session

/-- Adds a node, under an id that is not used yet. -/
def insertNode (s : Session) (n : Node) : Except Refusal Session :=
  if s.graph.contains n.id then .error .duplicateNode
  else do
    s.graph.checkKind n.kind
    return ⟨{ s.graph with nodes := s.graph.nodes ++ [n] }⟩

/-- Adds a new node of a kind under a fresh id. -/
def addNode (s : Session) (fresh : NodeId) (kind : Kind) (config : List (String × Json)) :
    Except Refusal Session :=
  s.insertNode ((Node.new fresh kind).withConfig config)

/-- Removes a node and the edges at it. -/
def removeNode (s : Session) (id : NodeId) : Session :=
  if s.graph.contains id then
    ⟨s.graph.nodes.filter fun n => n.id ≠ id, s.graph.edges.filter fun e => !e.touches id⟩
  else s

/-- Adds an edge. -/
def addEdge (s : Session) (source target : NodeId) : Except Refusal Session := do
  s.graph.checkEdge source target
  return ⟨{ s.graph with edges := s.graph.edges ++ [⟨source, target⟩] }⟩

/-- Removes an edge. -/
def removeEdge (s : Session) (source target : NodeId) : Session :=
  ⟨{ s.graph with edges := s.graph.edges.filter fun e => e ≠ ⟨source, target⟩ }⟩

/-- Changes the first node with an id in a list. -/
def changeFirst (id : NodeId) (change : Node → Node) : List Node → List Node
  | [] => []
  | n :: rest => if n.id = id then change n :: rest else n :: changeFirst id change rest

/-- Changes a node. -/
def changeNode (s : Session) (id : NodeId) (change : Node → Node) : Except Refusal Session :=
  if s.graph.contains id then
    .ok ⟨{ s.graph with nodes := changeFirst id change s.graph.nodes }⟩
  else .error .unknownNode

/-- Replaces the configuration of a node. -/
def updateConfig (s : Session) (id : NodeId) (config : Config) : Except Refusal Session :=
  s.changeNode id fun n => { n with config := config }

/-- Moves a node on the canvas. -/
def moveNode (s : Session) (id : NodeId) (position : Position) : Except Refusal Session :=
  s.changeNode id fun n => { n with position := position }

/-- A session over a stored graph: its nodes and then its edges are added one
    by one. -/
def ofGraph (g : Graph) : Except Refusal Session := do
  let withNodes ← g.nodes.foldlM insertNode {}
  g.edges.foldlM (fun s e => s.addEdge e.source e.target) withNodes

/-- A session over the graph of this one. -/
def reload (s : Session) : Except Refusal Session := ofGraph s.graph

end Session

end Workflow
