import Workflow.Ascending
import Workflow.Graph.Basic

/-!
# Execution Plans

The order in which the nodes of a graph run. A plan is a list of stages: a
node is in the first stage that comes after the stages of all nodes it depends
on, so the nodes of one stage do not depend on each other and may run at the
same time. Each stage is in ascending order of ids, and the plan depends on
nothing but the set of ids and the set of dependencies.

Only edges between existing nodes are dependencies, and a repeated edge is one
dependency.

The stages are found by counting down. For every node the number of its
predecessors that are not in a finished stage is kept. The nodes whose number
is zero form the next stage, and finishing it takes one from the number of
every successor of theirs. When nothing is left to finish while some numbers
are not zero, there is a cycle. Walking backwards from the smallest of the
nodes that are left, always to the smallest predecessor that is left, leads
onto it.

## Main definitions

* `Plan`: Stages and predecessors.
* `Graph.dependencies`: The dependencies of a graph.
* `Countdown`: The numbers and the next stage.
* `Countdown.finish`: Finishes one stage.
* `Graph.plan`: The plan of a graph, or a node on a cycle.
-/

namespace Workflow

/-- Stages of nodes, and the direct predecessors of each node. -/
structure Plan where
  stages : List (List NodeId)
  predecessors : Entries (List NodeId)
deriving DecidableEq, Repr

namespace Plan

/-- How many nodes are planned. -/
def nodeCount (p : Plan) : Nat := p.stages.flatten.length

/-- The number of the stage that holds a node. -/
def stageOf? (p : Plan) (id : NodeId) : Option Nat :=
  p.stages.findIdx? fun stage => stage.contains id

/-- The direct predecessors of a node. -/
def predecessorsOf (p : Plan) (id : NodeId) : List NodeId :=
  (Entries.find? id p.predecessors).getD []

end Plan

/-- A graph that cannot be planned, with a node on a cycle. -/
structure Cycle where
  node : NodeId
deriving DecidableEq, Repr

namespace Cycle

/-- What is said about a cycle. -/
def message (c : Cycle) : String := "cycle detected at node " ++ c.node

end Cycle

namespace Graph

/-- The ids of a graph, each once and in order. -/
def ids (g : Graph) : List NodeId := Ascending.texts (g.nodes.map (·.id))

/-- The dependencies of a graph, each once and in order. -/
def dependencies (g : Graph) : List Edge :=
  let ids := g.ids
  Ascending.ofList Edge.before <|
    g.edges.filter fun e => ids.contains e.source && ids.contains e.target

/-- The sources of the dependencies on which a node depends. -/
def sourcesOf (dependencies : List Edge) (id : NodeId) : List NodeId :=
  (dependencies.filter fun e => e.target = id).map (·.source)

/-- The targets of the dependencies on a node. -/
def targetsOf (dependencies : List Edge) (id : NodeId) : List NodeId :=
  (dependencies.filter fun e => e.source = id).map (·.target)

end Graph

/-- How many predecessors of each node are not in a finished stage, and the
    nodes of the next stage. -/
structure Countdown where
  waiting : Entries Nat
  ready : List NodeId
deriving DecidableEq, Repr

namespace Countdown

/-- The nodes that wait for nothing. -/
def idle (waiting : Entries Nat) : List NodeId :=
  (waiting.filter fun entry => entry.2 = 0).map (·.1)

/-- The beginning: every node waits for all of its predecessors. -/
def start (ids : List NodeId) (dependencies : List Edge) : Countdown :=
  let waiting := ids.map fun id => (id, (Graph.sourcesOf dependencies id).length)
  ⟨waiting, idle waiting⟩

/-- Takes one from the number of a node. -/
def lower (id : NodeId) (waiting : Entries Nat) : Entries Nat :=
  waiting.map fun entry => if entry.1 = id then (entry.1, entry.2 - 1) else entry

/-- Takes one from the number of a node, and lists the node when that makes it
    zero. -/
def release (c : Countdown) (id : NodeId) : Countdown :=
  match Entries.find? id c.waiting with
  | none => c
  | some n => ⟨lower id c.waiting, if n = 1 then c.ready ++ [id] else c.ready⟩

/-- Finishes the next stage: its successors wait for one node less, and those
    that wait for nothing now form the stage after it. -/
def finish (dependencies : List Edge) (c : Countdown) : Countdown :=
  let next := (c.ready.flatMap (Graph.targetsOf dependencies)).foldl release ⟨c.waiting, []⟩
  ⟨next.waiting, Ascending.texts next.ready⟩

/-- Finishes stages until none is left, at most `fuel` of them, and gives the
    finished stages and the numbers at the end. -/
def run (dependencies : List Edge) : Nat → Countdown → List (List NodeId) × Entries Nat
  | 0, c => ([], c.waiting)
  | fuel + 1, c =>
      if c.ready.isEmpty then ([], c.waiting)
      else
        let (stages, waiting) := run dependencies fuel (c.finish dependencies)
        (c.ready :: stages, waiting)

end Countdown

namespace Graph

/-- Walks backwards among the nodes that are left, up to one that was seen
    before. Every step but the last sees a new node. -/
def walkBack (dependencies : List Edge) (left : List NodeId) :
    Nat → List NodeId → NodeId → NodeId
  | 0, _, id => id
  | fuel + 1, seen, id =>
      if seen.contains id then id
      else
        match (sourcesOf dependencies id).find? left.contains with
        | some source => walkBack dependencies left fuel (id :: seen) source
        | none => id

/-- A node on a cycle among the nodes that are left. -/
def cycleNode (dependencies : List Edge) (waiting : Entries Nat) : NodeId :=
  let left := (waiting.filter fun entry => 0 < entry.2).map (·.1)
  match left with
  | [] => ""
  | first :: _ => walkBack dependencies left (left.length + 1) [] first

/-- The plan of a graph, or a node on a cycle. -/
def plan (g : Graph) : Except Cycle Plan :=
  let ids := g.ids
  let dependencies := g.dependencies
  let (stages, waiting) := (Countdown.start ids dependencies).run dependencies ids.length
  if stages.flatten.length < ids.length then .error ⟨cycleNode dependencies waiting⟩
  else .ok ⟨stages, ids.map fun id => (id, sourcesOf dependencies id)⟩

end Graph

end Workflow
