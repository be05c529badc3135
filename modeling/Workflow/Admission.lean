import Workflow.Graph.Basic

/-!
# Admission of Nodes and Edges

Whether a node or an edge may be added to a graph. The rules for an edge are
tried in a fixed order, and the first one that fails names the refusal:

1. both ends exist;
2. they are not the same node;
3. the edge is not there yet;
4. it does not enter a Trigger while the graph has another one;
5. its target admits one more incoming edge;
6. a Condition may feed everything, and the rules below are not for it;
7. the kinds of its ends may be connected;
8. a pairing of a data source with a vector store is always admitted;
9. no edge that is not such a pairing leaves its source yet.

## Main definitions

* `Refusal`: Why something may not be added.
* `Graph.checkKind`: Whether a node of a kind may be added.
* `Graph.checkEdge`: Whether an edge may be added.
-/

namespace Workflow

/-- Why a node or an edge may not be added. -/
inductive Refusal
  | unknownNode
  | selfLoop
  | duplicateEdge
  | fanOutExceeded
  | fanInExceeded
  | kindMismatch
  | secondTrigger
  | duplicateNode
deriving DecidableEq, Repr

namespace Refusal

/-- All refusals. -/
def all : List Refusal :=
  [unknownNode, selfLoop, duplicateEdge, fanOutExceeded, fanInExceeded, kindMismatch,
    secondTrigger, duplicateNode]

/-- The code of a refusal in documents. -/
def code : Refusal → String
  | unknownNode => "unknown_node"
  | selfLoop => "self_loop"
  | duplicateEdge => "duplicate_edge"
  | fanOutExceeded => "fan_out_exceeded"
  | fanInExceeded => "fan_in_exceeded"
  | kindMismatch => "kind_mismatch"
  | secondTrigger => "second_trigger"
  | duplicateNode => "duplicate_node"

/-- The refusal with a code. -/
def ofCode? (text : String) : Option Refusal := all.find? fun r => r.code = text

/-- What is said about a refusal. -/
def message : Refusal → String
  | unknownNode => "edge endpoint does not exist"
  | selfLoop => "edge would connect a node to itself"
  | duplicateEdge => "edge already exists"
  | fanOutExceeded => "source already has an outgoing edge"
  | fanInExceeded => "target does not accept more incoming edges"
  | kindMismatch => "node kinds cannot be connected"
  | secondTrigger => "graph already has a Trigger node"
  | duplicateNode => "node id already exists"

end Refusal

namespace Graph

/-- Whether a node of a kind may be added: there is one Trigger at most. -/
def checkKind (g : Graph) (kind : Kind) : Except Refusal Unit :=
  if kind = .trigger && g.trigger?.isSome then .error .secondTrigger else .ok ()

/-- Whether an edge that is not a pairing leaves a node of a kind. -/
def hasLooseEdge (g : Graph) (id : NodeId) (kind : Kind) : Bool :=
  (g.outgoing id).any fun e =>
    match g.node? e.target with
    | some n => !kind.pairs n.kind
    | none => false

/-- Whether an edge may be added. -/
def checkEdge (g : Graph) (source target : NodeId) : Except Refusal Unit :=
  match g.node? source, g.node? target with
  | some s, some t =>
      let limit := t.kind.capability.maxIncoming
      if source = target then .error .selfLoop
      else if g.hasEdge source target then .error .duplicateEdge
      else if t.isTrigger && g.triggers.any fun n => n.id ≠ target then .error .secondTrigger
      else if limit = .zero then .error .kindMismatch
      else if !limit.admits (g.incoming target).length then .error .fanInExceeded
      else if s.kind = .condition then .ok ()
      else if !s.kind.accepts t.kind then .error .kindMismatch
      else if s.kind.pairs t.kind then .ok ()
      else if g.hasLooseEdge source s.kind then .error .fanOutExceeded
      else .ok ()
  | _, _ => .error .unknownNode

/-- Whether an edge may be added, as a truth value. -/
def canConnect (g : Graph) (source target : NodeId) : Bool :=
  match g.checkEdge source target with
  | .ok _ => true
  | .error _ => false

end Graph

end Workflow
