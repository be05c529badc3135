import Workflow.Plan

/-!
# Audits

What is wrong with a graph. An audit looks at a whole graph, which may have
come from anywhere, and reports every violation of the rules. The list is in
ascending order without repetitions, so it does not depend on the order in
which nodes and edges are listed.

Nodes that the Trigger does not lead to are only warned about, and only when
there is a Trigger: a graph without one is run on demand. Before a graph is
published, a few more things are asked of it.

## Main definitions

* `Violation`: A problem in a graph.
* `Graph.audit`: All problems.
* `Graph.auditForPublish`: All problems that matter for publishing.
* `hasFatal`: Whether there is a problem that must not be ignored.

## Theorems

* `Rule.rank_inj`: Rules have different places in their order.
* `Violation.before_total`: Two violations are the same unless one precedes
  the other.
* `Violation.before_irrefl`, `Violation.before_trans`: No violation precedes
  itself, and their order is transitive.
* `Violation.mem_sorted`, `Violation.pairwise_sorted`: Sorting keeps what is
  there and puts it in order.
-/

namespace Workflow

/-- How bad a violation is. -/
inductive Severity
  | warning
  | fatal
deriving DecidableEq, Repr

namespace Severity

/-- The name of a severity in documents. -/
def label : Severity → String
  | warning => "warning"
  | fatal => "fatal"

/-- The severity with a name. -/
def ofLabel? (text : String) : Option Severity :=
  [warning, fatal].find? fun s => s.label = text

/-- How a severity is called in messages. -/
def title : Severity → String
  | warning => "warning"
  | fatal => "error"

/-- A warning comes first. -/
def before (a b : Severity) : Bool := a = warning && b = fatal

theorem before_irrefl (a : Severity) : before a a = false := by
  cases a <;> rfl

theorem before_trans (a b c : Severity) (hab : before a b = true) (hbc : before b c = true) :
    before a c = true := by
  -- Nothing comes after what is fatal.
  simp only [before, Bool.and_eq_true, decide_eq_true_eq] at hab hbc
  rw [hab.2] at hbc
  exact absurd hbc.1 nofun

end Severity

/-- The rule that is violated. -/
inductive Rule
  | cycle
  | duplicateNode
  | danglingEdge
  | selfLoop
  | duplicateEdge
  | multipleTriggers
  | kindMismatch
  | fanInExceeded
  | fanOutExceeded
  | orphanNode
  | emptyGraph
  | tooManyEdges
  | missingTrigger
  | noEdges
deriving DecidableEq, Repr

namespace Rule

/-- All rules, in the order in which violations of them are listed. -/
def all : List Rule :=
  [cycle, duplicateNode, danglingEdge, selfLoop, duplicateEdge, multipleTriggers, kindMismatch,
    fanInExceeded, fanOutExceeded, orphanNode, emptyGraph, tooManyEdges, missingTrigger, noEdges]

/-- The name of a rule in documents. -/
def label : Rule → String
  | cycle => "cycle"
  | duplicateNode => "duplicate_node"
  | danglingEdge => "dangling_edge"
  | selfLoop => "self_loop"
  | duplicateEdge => "duplicate_edge"
  | multipleTriggers => "multiple_triggers"
  | kindMismatch => "kind_mismatch"
  | fanInExceeded => "fan_in_exceeded"
  | fanOutExceeded => "fan_out_exceeded"
  | orphanNode => "orphan_node"
  | emptyGraph => "empty_graph"
  | tooManyEdges => "too_many_edges"
  | missingTrigger => "missing_trigger"
  | noEdges => "no_edges"

/-- The rule with a name. -/
def ofLabel? (text : String) : Option Rule := all.find? fun r => r.label = text

/-- The place of a rule in the order. -/
def rank (r : Rule) : Nat := all.idxOf r

theorem getElem?_rank (r : Rule) : all[r.rank]? = some r := by
  cases r <;> rfl

/-- Rules have different places in their order. -/
theorem rank_inj (r s : Rule) (h : r.rank = s.rank) : r = s := by
  have hr := getElem?_rank r
  rw [h, getElem?_rank s, Option.some.injEq] at hr
  exact hr.symm

end Rule

/-- A problem in a graph: the rule, the nodes involved, and what is said. -/
structure Violation where
  rule : Rule
  nodes : List NodeId
  severity : Severity
  message : String
deriving DecidableEq, Repr

namespace Violation

/-- A violation that must not be ignored. Its nodes are put in order. -/
def fatal (rule : Rule) (nodes : List NodeId) (message : String) : Violation :=
  ⟨rule, nodes.mergeSort fun a b => decide (a ≤ b), .fatal, message⟩

/-- A violation that may be ignored. -/
def warning (rule : Rule) (nodes : List NodeId) (message : String) : Violation :=
  ⟨rule, nodes.mergeSort fun a b => decide (a ≤ b), .warning, message⟩

/-- Whether a violation must not be ignored. -/
def isFatal (v : Violation) : Bool := v.severity = .fatal

/-- The line that reports a violation. -/
def text (v : Violation) : String := v.severity.title ++ ": " ++ v.message

/-- The order of violations: by rule, nodes, severity and message. -/
def before (a b : Violation) : Bool :=
  decide (a.rule.rank < b.rule.rank)
    || (a.rule = b.rule
      && (decide (a.nodes < b.nodes)
        || (a.nodes = b.nodes
          && (a.severity.before b.severity
            || (a.severity = b.severity && decide (a.message < b.message))))))

/-- Two violations are the same unless one precedes the other. -/
theorem before_total (a b : Violation) (hab : before a b = false) (hba : before b a = false) :
    a = b := by
  simp only [before, Bool.or_eq_false_iff, Bool.and_eq_false_iff, decide_eq_false_iff_not]
    at hab hba
  -- The ranks are the same, so what is compared next decides, and so on.
  have hrule : a.rule = b.rule := Rule.rank_inj _ _ (by omega)
  rcases hab.2.resolve_left (fun h => h hrule) with ⟨hnab, hab⟩
  rcases hba.2.resolve_left (fun h => h hrule.symm) with ⟨hnba, hba⟩
  have hnodes : a.nodes = b.nodes := List.le_antisymm hnba hnab
  rcases hab.resolve_left (fun h => h hnodes) with ⟨hsab, hab⟩
  rcases hba.resolve_left (fun h => h hnodes.symm) with ⟨hsba, hba⟩
  have hseverity : a.severity = b.severity := by
    revert hsab hsba
    cases a.severity <;> cases b.severity <;> decide
  have hmab := hab.resolve_left (fun h => h hseverity)
  have hmba := hba.resolve_left (fun h => h hseverity.symm)
  have hmessage : a.message = b.message := String.le_antisymm hmba hmab
  rcases a with ⟨_, _, _, _⟩
  rcases b with ⟨_, _, _, _⟩
  rw [Violation.mk.injEq]
  exact ⟨hrule, hnodes, hseverity, hmessage⟩

/-- When one violation precedes another. -/
theorem before_iff (a b : Violation) : before a b = true ↔
    a.rule.rank < b.rule.rank ∨ a.rule = b.rule ∧ (a.nodes < b.nodes ∨ a.nodes = b.nodes ∧
      (a.severity.before b.severity = true ∨
        a.severity = b.severity ∧ a.message < b.message)) := by
  simp only [before, Bool.or_eq_true, Bool.and_eq_true, decide_eq_true_eq]

/-- No violation precedes itself. -/
theorem before_irrefl (v : Violation) : before v v = false := by
  rw [Bool.eq_false_iff, ne_eq, before_iff]
  rintro (hrule | ⟨_, hnodes | ⟨_, hseverity | ⟨_, hmessage⟩⟩⟩)
  · exact Nat.lt_irrefl _ hrule
  · exact List.lt_irrefl _ hnodes
  · rw [Severity.before_irrefl] at hseverity
    exact Bool.false_ne_true hseverity
  · exact String.lt_irrefl _ hmessage

/-- The order of violations is transitive. -/
theorem before_trans (a b c : Violation) (hab : before a b = true) (hbc : before b c = true) :
    before a c = true := by
  rw [before_iff] at hab hbc ⊢
  -- Ties are decided three times: by the nodes, the severity and the message.
  refine Ascending.lex_trans (r := fun x y : Rule => x.rank < y.rank)
    (fun _ _ _ => Nat.lt_trans) ?_ hab hbc
  refine Ascending.lex_trans (r := (· < ·)) (fun _ _ _ => List.lt_trans) ?_
  exact Ascending.lex_trans Severity.before_trans String.lt_trans

/-- Violations in order, each once. -/
def sorted (vs : List Violation) : List Violation := Ascending.ofList before vs

theorem mem_sorted (v : Violation) (vs : List Violation) : v ∈ sorted vs ↔ v ∈ vs :=
  Ascending.mem_ofList before_total v vs

theorem pairwise_sorted (vs : List Violation) :
    (sorted vs).Pairwise fun a b => before a b = true :=
  Ascending.pairwise_ofList before_total before_trans vs

end Violation

/-- Whether there is a violation that must not be ignored. -/
def hasFatal (vs : List Violation) : Bool := vs.any Violation.isFatal

/-- What is asked of a graph that is published, beyond the audit. -/
structure PublishRules where
  requireTrigger : Bool := false
  requireEdges : Bool := false
deriving DecidableEq, Repr, Inhabited

namespace Graph

/-- The nodes that can be reached along edges: `pending` are nodes known to be
    reached, and `left` those not visited yet. Nodes are taken depth first. A
    queue of nodes and a set of those seen would take them in another order, but
    it is only asked which nodes are found, and these are the same in every order:
    those to which edges lead. -/
def gather (g : Graph) (left pending : List NodeId) : List NodeId :=
  match _found : pending.find? left.contains with
  | none => []
  | some id => id :: gather g (left.erase id) ((g.outgoing id).map (·.target) ++ pending)
termination_by left.length
decreasing_by
  have hmem : id ∈ left := List.contains_iff_mem.mp (List.find?_some _found)
  have hlen := List.length_erase_of_mem hmem
  have hpos := List.length_pos_of_mem hmem
  omega

/-- The ids that can be reached from a node along edges, missing nodes
    included. -/
def reachedFrom (g : Graph) (start : NodeId) : List NodeId :=
  g.gather (Ascending.texts (start :: g.edges.map (·.target))) [start]

/-- The edges between two different existing nodes. -/
def properEdges (g : Graph) : List Edge :=
  g.edges.filter fun e => g.contains e.source && g.contains e.target && !e.isSelfLoop

/-- Whether an edge counts against the one edge that may leave its source:
    its source is no Condition, and it is no pairing. -/
def isLoose (g : Graph) (e : Edge) : Bool :=
  match g.node? e.source, g.node? e.target with
  | some s, some t => s.kind ≠ .condition && !s.kind.pairs t.kind
  | _, _ => false

/-- The ids that are used more than once. -/
def auditIds (g : Graph) : List Violation :=
  let ids := g.nodes.map (·.id)
  (ids.filter fun id => 1 < ids.count id).map fun id =>
    .fatal .duplicateNode [id] ("node id " ++ id ++ " is used more than once")

/-- Too many Triggers. -/
def auditTriggers (g : Graph) : List Violation :=
  if 1 < g.triggers.length then
    [.fatal .multipleTriggers (g.triggers.map (·.id)) "graph has more than one Trigger node"]
  else []

/-- An edge on its own: its ends exist and differ. -/
def auditEdge (g : Graph) (e : Edge) : List Violation :=
  if !(g.contains e.source && g.contains e.target) then
    [.fatal .danglingEdge [e.source, e.target]
      ("edge " ++ e.source ++ " -> " ++ e.target ++ " references a missing node")]
  else if e.isSelfLoop then
    [.fatal .selfLoop [e.source] ("node " ++ e.source ++ " is connected to itself")]
  else []

/-- Edges that appear more than once. -/
def auditRepeats (proper : List Edge) : List Violation :=
  (proper.filter fun e => 1 < proper.count e).map fun e =>
    .fatal .duplicateEdge [e.source, e.target]
      ("edge " ++ e.source ++ " -> " ++ e.target ++ " appears more than once")

/-- An edge between kinds that cannot be connected. -/
def auditKinds (g : Graph) (e : Edge) : List Violation :=
  match g.node? e.source, g.node? e.target with
  | some s, some t =>
      if s.kind ≠ .condition && !s.kind.accepts t.kind then
        [.fatal .kindMismatch [e.source, e.target]
          (s.kind.label ++ " cannot feed " ++ t.kind.label)]
      else []
  | _, _ => []

/-- More edges into a node than its kind admits. -/
def auditFanIn (g : Graph) (edges : List Edge) (id : NodeId) : List Violation :=
  match g.node? id with
  | some n =>
      let count := (edges.filter fun e => e.target = id).length
      if 0 < count && !n.kind.capability.maxIncoming.admits (count - 1) then
        [.fatal .fanInExceeded [id]
          (n.kind.label ++ " node " ++ id ++ " has " ++ toString count ++ " incoming edges")]
      else []
  | none => []

/-- More than one edge out of a node. -/
def auditFanOut (loose : List Edge) (id : NodeId) : List Violation :=
  let count := (loose.filter fun e => e.source = id).length
  if 1 < count then
    [.fatal .fanOutExceeded [id]
      ("node " ++ id ++ " has " ++ toString count ++ " outgoing edges")]
  else []

/-- A cycle. -/
def auditCycle (g : Graph) : List Violation :=
  match g.plan with
  | .ok _ => []
  | .error cycle =>
      [.fatal .cycle [cycle.node] ("graph contains a cycle through node " ++ cycle.node)]

/-- Nodes that the Trigger does not lead to. -/
def auditOrphans (g : Graph) : List Violation :=
  match g.trigger? with
  | none => []
  | some trigger =>
      let reached := g.reachedFrom trigger.id
      (g.nodes.filter fun n => !reached.contains n.id).map fun n =>
        .warning .orphanNode [n.id] ("node " ++ n.id ++ " is unreachable from the Trigger")

/-- All problems of a graph, in order. -/
def audit (g : Graph) : List Violation :=
  let proper := g.properEdges
  let edges := Ascending.ofList Edge.before proper
  let loose := edges.filter g.isLoose
  Violation.sorted <|
    g.auditIds ++ g.auditTriggers ++ g.edges.flatMap g.auditEdge ++ auditRepeats proper
      ++ edges.flatMap g.auditKinds ++ g.ids.flatMap (g.auditFanIn edges)
      ++ g.ids.flatMap (auditFanOut loose) ++ g.auditCycle ++ g.auditOrphans

/-- What is asked of a graph only when it is published. -/
def auditGates (g : Graph) (rules : PublishRules) : List Violation :=
  (if g.nodes.isEmpty then [.fatal .emptyGraph [] "graph has no nodes"] else [])
    ++ (if g.edgeCap < g.edges.length then
        [.fatal .tooManyEdges []
          ("graph has " ++ toString g.edges.length ++ " edges, more than the "
            ++ toString g.edgeCap ++ " allowed for " ++ toString g.nodes.length ++ " nodes")]
      else [])
    ++ (if rules.requireTrigger && g.trigger?.isNone then
        [.fatal .missingTrigger [] "graph has no Trigger node"]
      else [])
    ++ (if rules.requireEdges && g.edges.isEmpty then [.fatal .noEdges [] "graph has no edges"]
      else [])

/-- All problems of a graph that is to be published, in order. -/
def auditForPublish (g : Graph) (rules : PublishRules) : List Violation :=
  Violation.sorted (g.audit ++ g.auditGates rules)

end Graph

end Workflow
