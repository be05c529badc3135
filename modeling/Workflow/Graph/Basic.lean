import Workflow.Ascending
import Workflow.Kind.Capability

/-!
# Graphs

A workflow is a graph of steps. Every node is a step with its kind and its
configuration; an edge from one node to another hands the output of the first
to the second.

A graph is also what is stored, and what is stored may be malformed: ids may
be repeated, and edges may name nodes that do not exist. Nodes and edges keep
the order in which they were added. When an id is repeated, the first node
with it is the one it stands for.

Where a node lies on the canvas has no influence on anything else.

## Main definitions

* `Node`, `Edge`, `Graph`: Steps, dependencies and workflows.
* `Graph.node?`: The node of an id.
* `Graph.outgoing`, `Graph.incoming`: The edges at a node.
* `Graph.trigger?`: The first Trigger.
* `Graph.edgeCap`: How many edges a graph of its size may have.
* `Graph.same`: Equality that takes the two zeros for one.
* `Graph.chain`, `Graph.fanIn`: Small graphs of regular shape.

## Theorems

* `Edge.before_total`: Two edges are the same unless one precedes the other.
* `Edge.before_irrefl`, `Edge.before_trans`: No edge precedes itself, and the
  order of edges is transitive.
-/

namespace Workflow

/-- The name of a node. -/
abbrev NodeId := String

/-- The configuration of a node. -/
abbrev Config := Entries Json

/-- A place on the canvas. -/
structure Position where
  x : Binary64
  y : Binary64
deriving DecidableEq, Repr, Inhabited

/-- A step of a workflow. -/
structure Node where
  id : NodeId
  kind : Kind
  config : Config := []
  position : Position := ⟨Binary64.zero false, Binary64.zero false⟩
  title : String := ""
  description : String := ""
deriving DecidableEq, Repr, Inhabited

/-- A dependency: the target consumes the output of the source. -/
structure Edge where
  source : NodeId
  target : NodeId
deriving DecidableEq, Repr, Inhabited

/-- A workflow. -/
structure Graph where
  nodes : List Node := []
  edges : List Edge := []
deriving DecidableEq, Repr, Inhabited

namespace Position

/-- Equality that takes the two zeros for one. -/
def same (p q : Position) : Bool := p.x.same q.x && p.y.same q.y

end Position

namespace Node

/-- A new node, with what its kind gives it. -/
def new (id : NodeId) (kind : Kind) : Node where
  id := id
  kind := kind
  config := kind.defaultConfig
  title := kind.label
  description := kind.capability.description

/-- A node with more settings; they replace those with the same key. -/
def withConfig (n : Node) (config : List (String × Json)) : Node :=
  { n with config := n.config.merge config }

/-- Whether a node starts a workflow. -/
def isTrigger (n : Node) : Bool := n.kind = .trigger

/-- Equality that takes the two zeros for one. -/
def same (m n : Node) : Bool :=
  m.id == n.id && m.kind == n.kind && Json.sameMembers m.config n.config
    && m.position.same n.position && m.title == n.title && m.description == n.description

end Node

namespace Edge

/-- Whether an edge leads back to its source. -/
def isSelfLoop (e : Edge) : Bool := e.source = e.target

/-- Whether an edge ends at a node. -/
def touches (e : Edge) (id : NodeId) : Bool := e.source = id || e.target = id

/-- The order of edges: by source, then by target. -/
def before (a b : Edge) : Bool :=
  decide (a.source < b.source) || (a.source = b.source && decide (a.target < b.target))

/-- When one edge precedes another. -/
theorem before_iff (a b : Edge) : before a b = true ↔
    a.source < b.source ∨ a.source = b.source ∧ a.target < b.target := by
  simp only [before, Bool.or_eq_true, Bool.and_eq_true, decide_eq_true_eq]

/-- Two edges are the same unless one precedes the other. -/
theorem before_total (a b : Edge) (hab : before a b = false) (hba : before b a = false) :
    a = b := by
  have hnab := fun h => Bool.eq_false_iff.mp hab ((before_iff a b).mpr h)
  have hnba := fun h => Bool.eq_false_iff.mp hba ((before_iff b a).mpr h)
  have hsource : a.source = b.source :=
    String.le_antisymm (fun h => hnba (Or.inl h)) (fun h => hnab (Or.inl h))
  have htarget : a.target = b.target :=
    String.le_antisymm (fun h => hnba (Or.inr ⟨hsource.symm, h⟩))
      (fun h => hnab (Or.inr ⟨hsource, h⟩))
  rcases a with ⟨source, target⟩
  rcases b with ⟨source', target'⟩
  rw [Edge.mk.injEq]
  exact ⟨hsource, htarget⟩

/-- No edge precedes itself. -/
theorem before_irrefl (e : Edge) : before e e = false := by
  rw [Bool.eq_false_iff, ne_eq, before_iff]
  rintro (hlt | ⟨_, hlt⟩)
  · exact String.lt_irrefl _ hlt
  · exact String.lt_irrefl _ hlt

/-- The order of edges is transitive. -/
theorem before_trans (a b c : Edge) (hab : before a b = true) (hbc : before b c = true) :
    before a c = true := by
  rw [before_iff] at hab hbc ⊢
  exact Ascending.lex_trans (r := (· < ·)) (fun _ _ _ => String.lt_trans) String.lt_trans hab hbc

end Edge

namespace Graph

/-- The node of an id: the first one with it. -/
def node? (g : Graph) (id : NodeId) : Option Node := g.nodes.find? fun n => n.id = id

/-- Whether an id is that of a node. -/
def contains (g : Graph) (id : NodeId) : Bool := (g.node? id).isSome

/-- Whether there is an edge between two nodes. -/
def hasEdge (g : Graph) (source target : NodeId) : Bool := g.edges.contains ⟨source, target⟩

/-- The edges that leave a node. -/
def outgoing (g : Graph) (id : NodeId) : List Edge := g.edges.filter fun e => e.source = id

/-- The edges that enter a node. -/
def incoming (g : Graph) (id : NodeId) : List Edge := g.edges.filter fun e => e.target = id

/-- The Triggers. -/
def triggers (g : Graph) : List Node := g.nodes.filter Node.isTrigger

/-- The first Trigger. -/
def trigger? (g : Graph) : Option Node := g.triggers.head?

/-- How many edges a graph with this many nodes may have when it is
    published: one for every two nodes. -/
def edgeCap (g : Graph) : Nat := g.nodes.length * (g.nodes.length - 1) / 2

/-- Equality of lists by an equality of their elements. -/
def sameList {α : Type} (eq : α → α → Bool) : List α → List α → Bool
  | [], [] => true
  | a :: as, b :: bs => eq a b && sameList eq as bs
  | _, _ => false

/-- Equality that takes the two zeros for one. -/
def same (g h : Graph) : Bool := sameList Node.same g.nodes h.nodes && g.edges == h.edges

/-- The graph of nodes given by id and kind, and of edges given by their
    ends. -/
def ofPairs (nodes : List (NodeId × Kind)) (edges : List (NodeId × NodeId)) : Graph where
  nodes := nodes.map fun (id, kind) => Node.new id kind
  edges := edges.map fun (source, target) => ⟨source, target⟩

/-- The id of a node of a chain. -/
def chainId (i : Nat) : NodeId := "n" ++ toString i

/-- A chain of nodes of one kind. -/
def chain (kind : Kind) (length : Nat) : Graph :=
  ofPairs ((List.range length).map fun i => (chainId i, kind))
    ((List.range (length - 1)).map fun i => (chainId i, chainId (i + 1)))

/-- Two data sources that fill one vector store. -/
def fanIn : Graph :=
  ofPairs [("A", .fileUpload), ("B", .qdrant), ("C", .urlScraper)] [("A", "B"), ("C", "B")]

end Graph

end Workflow
