import Workflow.Proofs.Density
import Workflow.Proofs.Reaching
import Workflow.Proofs.Walking

/-!
# In Which Order a Graph Is Listed

What planning and auditing do not depend on. A graph lists its nodes and edges,
and the same workflow may be listed in many ways.

A plan depends on two sets and determines them: the ids of the nodes, and the
dependencies between them. So graphs that are `Alike` are planned alike, however
their nodes and edges are ordered or repeated, whatever dangling edges they have,
and of whatever kinds their nodes are. On a cycle it is the same node that they
are refused for.

An audit reads more of a graph. It looks up the node of an id, counts how often
ids and edges are listed, and starts from the first Trigger. Graphs that are
`Rearranged` agree on all of that, and everything that an audit searches for is
found in the one where it is found in the other. As an audit is an ascending list,
the audits are the same list, and so are audits that are made in one walk over the
edges (`auditOnWalk_eq`), which blame another edge in another order. The first node
of an id and the first Trigger are the only places where the order could be seen,
and where no id is repeated and no Trigger comes second it is not.

## Main definitions

* `Alike`: Two graphs have the same ids and the same dependencies.
* `Rearranged`: Two graphs list the same nodes and edges, with the same nodes
  first where that counts.

## Theorems

* `alike_iff`: What planning reads of graphs that are alike.
* `Alike.plan_eq`, `alike_of_plan`: What a plan depends on.
* `planned_alike`: Plans determine, and are determined by, ids and dependencies.
* `Rearranged.of_perm`: Where no first node is different.
* `Rearranged.mem_breaches`, `Rearranged.mem_auditOrphans`: What is searched for
  is found.
* `Rearranged.audit_eq`: An audit does not see the order.
* `perm_auditForPublish`: What is asked of a graph that is published is added.
* `audits_arranged`: Audits ascend and do not depend on the order.
-/

namespace Workflow

namespace Graph

/-- Two graphs have the same ids, and the same edges between them. -/
structure Alike (g h : Graph) : Prop where
  hasNode : ∀ id, g.HasNode id ↔ h.HasNode id
  depends : ∀ source target, g.Depends source target ↔ h.Depends source target

/-- The sets that planning works on are each one list. -/
theorem alike_iff (g h : Graph) :
    g.Alike h ↔ g.ids = h.ids ∧ g.dependencies = h.dependencies := by
  constructor
  · intro halike
    refine ⟨Ascending.texts_congr fun id => ?_, ?_⟩
    · rw [List.mem_map, List.mem_map]
      exact halike.hasNode id
    · refine Ascending.eq_of_mem_iff Edge.before_irrefl Edge.before_trans
        g.pairwise_dependencies h.pairwise_dependencies fun e => ?_
      rw [mem_dependencies, mem_dependencies]
      exact halike.depends e.source e.target
  · rintro ⟨hids, hdependencies⟩
    refine ⟨fun id => ?_, fun source target => ?_⟩
    · rw [← mem_ids, ← mem_ids, hids]
    · rw [← g.mem_dependencies ⟨source, target⟩, ← h.mem_dependencies ⟨source, target⟩,
        hdependencies]

instance (g h : Graph) : Decidable (g.Alike h) :=
  decidable_of_iff _ (g.alike_iff h).symm

/-- A plan depends on the ids and the dependencies alone. -/
theorem Alike.plan_eq {g h : Graph} (halike : g.Alike h) : g.plan = h.plan := by
  rcases (g.alike_iff h).mp halike with ⟨hids, hdependencies⟩
  rw [plan, plan, hids, hdependencies]

/-- A plan shows the ids, as the nodes of its stages, and the dependencies, as
    the predecessors that it lists. -/
theorem alike_of_plan (g h : Graph) (p : Plan) (hg : g.plan = .ok p) (hh : h.plan = .ok p) :
    g.Alike h where
  hasNode := fun id => by
    rw [← g.mem_stages_iff p hg, ← h.mem_stages_iff p hh]
  depends := fun source target => by
    rw [← g.mem_predecessorsOf p hg, ← h.mem_predecessorsOf p hh]

/-- Graphs with the same ids and the same dependencies are planned alike, with
    the same stages and predecessors or with the same node on a cycle. No other
    graphs have the same plan. -/
theorem planned_alike (g h : Graph) :
    (g.Alike h → g.plan = h.plan) ∧
    ∀ p, g.plan = .ok p → (h.plan = .ok p ↔ g.Alike h) := by
  refine ⟨Alike.plan_eq, fun p hg => ⟨g.alike_of_plan h p hg, fun halike => ?_⟩⟩
  rw [← halike.plan_eq]
  exact hg

/-- The diamond in another order, with other kinds, without the node and the
    edge that are repeated, and with another edge to nowhere. -/
def diamondAgain : Graph :=
  ofPairs [("c", .docker), ("d", .wait), ("a", .trigger), ("b", .condition)]
    [("b", "d"), ("z", "z"), ("a", "d"), ("c", "d"), ("a", "c"), ("a", "b")]

/-- Two nodes on a cycle that leads to a third one. -/
def whirl : Graph :=
  ofPairs [("in", .action), ("out", .email), ("back", .action)]
    [("in", "back"), ("back", "in"), ("in", "out")]

/-- The same cycle, with one of its edges repeated. -/
def whirlAgain : Graph :=
  ofPairs [("back", .wait), ("out", .wait), ("in", .wait)]
    [("in", "out"), ("back", "in"), ("gone", "in"), ("in", "back"), ("back", "in")]

theorem planned_alike_diamond :
    (diamond.Alike diamondAgain ∧ diamondAgain.plan = .ok diamondPlan) ∧
    whirl.Alike whirlAgain ∧ whirl.plan = .error ⟨"back"⟩ ∧ whirlAgain.plan = .error ⟨"back"⟩ := by
  have hdiamond : diamond.Alike diamondAgain := by decide +kernel
  have hwhirl : whirl.Alike whirlAgain := by decide +kernel
  have hcycle : whirl.plan = .error ⟨"back"⟩ := rfl
  refine ⟨⟨hdiamond, ((planned_alike diamond diamondAgain).2 diamondPlan rfl).mpr hdiamond⟩,
    hwhirl, hcycle, ?_⟩
  rw [← (planned_alike whirl whirlAgain).1 hwhirl]
  exact hcycle

/-- Two graphs list the same nodes and edges. The node that an id stands for, and
    the Trigger where there are several, is the same one in both. -/
structure Rearranged (g h : Graph) : Prop where
  nodes : h.nodes.Perm g.nodes
  edges : h.edges.Perm g.edges
  node? : h.node? = g.node?
  trigger? : h.trigger? = g.trigger?

/-- A list of one element at most is the same in every order. -/
theorem perm_eq_of_length_le_one {α : Type} {items others : List α} (h : items.Perm others)
    (hlength : others.length ≤ 1) : items = others := by
  match others, hlength with
  | [], _ => exact h.eq_nil
  | [_], _ => exact h.eq_singleton

/-- In another order no other node comes first when no id is repeated and there
    is one Trigger at most. -/
theorem Rearranged.of_perm {g h : Graph} (hids : (g.nodes.map (·.id)).Nodup)
    (htriggers : g.triggers.length ≤ 1) (hnodes : h.nodes.Perm g.nodes)
    (hedges : h.edges.Perm g.edges) : g.Rearranged h where
  nodes := hnodes
  edges := hedges
  node? := by
    have hids' : (h.nodes.map (·.id)).Nodup := (hnodes.map _).nodup_iff.mpr hids
    -- The first node with an id is the only one.
    funext id
    refine Option.ext fun n => ?_
    rw [h.node?_eq_some_iff hids', g.node?_eq_some_iff hids, hnodes.mem_iff]
  trigger? := by
    -- There is no second Trigger that could come first.
    have hperm : h.triggers.Perm g.triggers := hnodes.filter _
    rw [Graph.trigger?, Graph.trigger?, perm_eq_of_length_le_one hperm htriggers]

/-- The nodes of a violation are put in order. -/
theorem fatal_perm (rule : Rule) (message : String) {nodes others : List NodeId}
    (h : nodes.Perm others) : Violation.fatal rule nodes message = .fatal rule others message := by
  -- Sorting leaves nothing of the order that the nodes came in.
  have hsorted : ∀ ids : List NodeId,
      (ids.mergeSort fun a b => decide (a ≤ b)).Pairwise fun a b => decide (a ≤ b) = true :=
    List.pairwise_mergeSort
      (fun _ _ _ hab hbc =>
        decide_eq_true (String.le_trans (of_decide_eq_true hab) (of_decide_eq_true hbc)))
      (fun a b => by
        rw [Bool.or_eq_true, decide_eq_true_eq, decide_eq_true_eq]
        exact String.le_total a b)
  have heq : (nodes.mergeSort fun a b => decide (a ≤ b)) =
      others.mergeSort fun a b => decide (a ≤ b) := by
    refine List.Perm.eq_of_pairwise
      (fun _ _ _ _ hab hba => String.le_antisymm (of_decide_eq_true hab) (of_decide_eq_true hba))
      (hsorted nodes) (hsorted others) ?_
    exact ((List.mergeSort_perm nodes _).trans h).trans (List.mergeSort_perm others _).symm
  rw [Violation.fatal, Violation.fatal, heq]

section Searches

variable {g h : Graph} (hgh : g.Rearranged h)

include hgh

namespace Rearranged

theorem hasNode_iff (id : NodeId) : h.HasNode id ↔ g.HasNode id := by
  simp only [HasNode, hgh.nodes.mem_iff]

theorem alike : h.Alike g where
  hasNode := hgh.hasNode_iff
  depends := fun source target => by
    simp only [Depends, hgh.edges.mem_iff, hgh.hasNode_iff]

theorem contains_eq : h.contains = g.contains := by
  funext id
  rw [contains, contains, hgh.node?]

theorem properEdges_perm : h.properEdges.Perm g.properEdges := by
  rw [properEdges, properEdges, hgh.contains_eq]
  exact hgh.edges.filter _

theorem sortedEdges_eq : Ascending.ofList Edge.before h.properEdges =
    Ascending.ofList Edge.before g.properEdges :=
  Ascending.ofList_congr Edge.before_irrefl Edge.before_total Edge.before_trans fun _ =>
    hgh.properEdges_perm.mem_iff

/-- What is looked for at an edge or at a node is looked up by ids. -/
theorem isLoose_eq : h.isLoose = g.isLoose := by
  funext e
  rw [isLoose, isLoose, hgh.node?]

theorem auditEdge_eq : h.auditEdge = g.auditEdge := by
  funext e
  rw [auditEdge, auditEdge, hgh.contains_eq]

theorem auditKinds_eq : h.auditKinds = g.auditKinds := by
  funext e
  rw [auditKinds, auditKinds, hgh.node?]

theorem auditFanIn_eq : h.auditFanIn = g.auditFanIn := by
  funext edges id
  rw [auditFanIn, auditFanIn, hgh.node?]

theorem mem_auditIds (v : Violation) : v ∈ h.auditIds ↔ v ∈ g.auditIds := by
  have hperm : (h.nodes.map (·.id)).Perm (g.nodes.map (·.id)) := hgh.nodes.map _
  simp only [auditIds, List.mem_map, List.mem_filter, hperm.mem_iff, hperm.count_eq]

theorem auditTriggers_eq : h.auditTriggers = g.auditTriggers := by
  have hperm : h.triggers.Perm g.triggers := hgh.nodes.filter _
  rw [auditTriggers, auditTriggers, hperm.length_eq, fatal_perm _ _ (hperm.map _)]

theorem mem_auditRepeats (v : Violation) :
    v ∈ auditRepeats h.properEdges ↔ v ∈ auditRepeats g.properEdges := by
  simp only [auditRepeats, List.mem_map, List.mem_filter, hgh.properEdges_perm.mem_iff,
    hgh.properEdges_perm.count_eq]

theorem mem_breaches (v : Violation) : v ∈ h.breaches ↔ v ∈ g.breaches := by
  rw [breaches, breaches, hgh.sortedEdges_eq, hgh.isLoose_eq, hgh.auditEdge_eq,
    hgh.auditKinds_eq, hgh.auditFanIn_eq, hgh.auditTriggers_eq,
    ((h.alike_iff g).mp hgh.alike).1]
  -- Only three searches go through a list in its own order.
  simp only [List.mem_append, hgh.mem_auditIds, hgh.mem_auditRepeats, List.mem_flatMap,
    hgh.edges.mem_iff]

theorem auditCycle_eq : h.auditCycle = g.auditCycle := by
  rw [auditCycle, auditCycle, hgh.alike.plan_eq]

theorem orphan_iff (id : NodeId) : h.Orphan id ↔ g.Orphan id := by
  simp only [Orphan, hgh.hasNode_iff, hgh.trigger?, Leads, hgh.edges.mem_iff]

theorem mem_auditOrphans (v : Violation) : v ∈ h.auditOrphans ↔ v ∈ g.auditOrphans := by
  simp only [mem_auditOrphans_iff, hgh.orphan_iff]

/-- An audit does not see in which order a graph is listed. -/
theorem audit_eq : h.audit = g.audit := by
  refine Ascending.eq_of_mem_iff Violation.before_irrefl Violation.before_trans
    h.pairwise_audit g.pairwise_audit fun v => ?_
  rw [mem_audit_iff, mem_audit_iff, hgh.mem_breaches, hgh.auditCycle_eq, hgh.mem_auditOrphans]

/-- What is asked of a graph that is published are numbers of nodes and edges,
    and a Trigger. -/
theorem auditGates_eq (rules : PublishRules) : h.auditGates rules = g.auditGates rules := by
  have hcap : h.edgeCap = g.edgeCap := by
    rw [edgeCap, edgeCap, hgh.nodes.length_eq]
  rw [auditGates, auditGates, hcap, hgh.trigger?, hgh.nodes.length_eq, hgh.edges.length_eq,
    hgh.nodes.isEmpty_eq, hgh.edges.isEmpty_eq]

theorem auditForPublish_eq (rules : PublishRules) :
    h.auditForPublish rules = g.auditForPublish rules := by
  rw [auditForPublish, auditForPublish, hgh.audit_eq, hgh.auditGates_eq]

end Rearranged

end Searches

/-- What is asked of a graph that is published is asked once each. -/
theorem nodup_auditGates (g : Graph) (rules : PublishRules) : (g.auditGates rules).Nodup := by
  -- Each of the four has a rule of its own.
  have hite : ∀ (c : Prop) [Decidable c] (v : Violation),
      ((if c then [v] else []).map (·.rule)).Sublist [v.rule] := by
    intro c _ v
    split
    · exact List.Sublist.refl _
    · exact List.nil_sublist _
  have hrules : ((g.auditGates rules).map (·.rule)).Sublist
      [.emptyGraph, .tooManyEdges, .missingTrigger, .noEdges] := by
    rw [auditGates, List.map_append, List.map_append, List.map_append]
    exact (((hite _ _).append (hite _ _)).append (hite _ _)).append (hite _ _)
  exact List.Nodup.of_map (·.rule) (List.Nodup.sublist hrules (by decide))

theorem pairwise_auditForPublish (g : Graph) (rules : PublishRules) :
    (g.auditForPublish rules).Pairwise fun v w => v.before w = true :=
  Violation.pairwise_sorted _

theorem nodup_audit (g : Graph) : g.audit.Nodup :=
  Ascending.nodup Violation.before_irrefl g.pairwise_audit

theorem nodup_auditForPublish (g : Graph) (rules : PublishRules) :
    (g.auditForPublish rules).Nodup :=
  Ascending.nodup Violation.before_irrefl (g.pairwise_auditForPublish rules)

/-- Before publishing there are the reports of the audit, and those of what is
    asked then. None of them was made already, so putting them in order loses
    none. -/
theorem perm_auditForPublish (g : Graph) (rules : PublishRules) :
    (g.auditForPublish rules).Perm (g.audit ++ g.auditGates rules) := by
  have hdisjoint : g.audit.Disjoint (g.auditGates rules) := by
    intro v haudit hgate
    have hrule := g.audit_not_gate v haudit
    rw [(g.auditGates_fatal rules v hgate).2] at hrule
    exact Bool.false_ne_true hrule.symm
  refine (List.perm_ext_iff_of_nodup (g.nodup_auditForPublish rules)
    (g.nodup_audit.append (g.nodup_auditGates rules) hdisjoint)).mpr fun v => ?_
  rw [mem_auditForPublish_iff, List.mem_append]

/-- Audits are in strictly ascending order, so nothing is reported twice. They do
    not depend on the order in which nodes and edges are listed, be they ever so
    wrong, when no id is repeated and there is one Trigger at most. That is so
    for an audit that goes over the edges once, in the order in which they are
    listed, as well. -/
theorem audits_arranged (g : Graph) (rules : PublishRules) :
    (g.audit.Pairwise (fun v w => v.before w = true) ∧ g.audit.Nodup) ∧
    ((g.auditForPublish rules).Pairwise (fun v w => v.before w = true) ∧
      (g.auditForPublish rules).Nodup ∧
      (g.auditForPublish rules).Perm (g.audit ++ g.auditGates rules)) ∧
    g.auditOnWalk = g.audit ∧
    ∀ h : Graph, (g.nodes.map (·.id)).Nodup → g.triggers.length ≤ 1 →
      h.nodes.Perm g.nodes → h.edges.Perm g.edges →
      h.audit = g.audit ∧ h.auditOnWalk = g.auditOnWalk ∧
        h.auditForPublish rules = g.auditForPublish rules := by
  refine ⟨⟨g.pairwise_audit, g.nodup_audit⟩, ⟨g.pairwise_auditForPublish rules,
    g.nodup_auditForPublish rules, g.perm_auditForPublish rules⟩, g.auditOnWalk_eq, ?_⟩
  intro h hids htriggers hnodes hedges
  -- The walk over the edges reports what the audit does, and the audit has no order.
  have hgh := Rearranged.of_perm hids htriggers hnodes hedges
  refine ⟨hgh.audit_eq, ?_, hgh.auditForPublish_eq rules⟩
  rw [h.auditOnWalk_eq, g.auditOnWalk_eq, hgh.audit_eq]

/-- A graph with an edge of every wrong sort: to nowhere, back to its source, a
    second time, against the kinds, into the Trigger and round in a circle. -/
def tangle : Graph :=
  ofPairs [("start", .trigger), ("left", .action), ("right", .action), ("store", .qdrant)]
    [("left", "right"), ("right", "left"), ("left", "gone"), ("right", "right"),
      ("left", "right"), ("store", "start"), ("start", "store"), ("left", "store")]

/-- The same graph, listed from behind. -/
def tangleFromBehind : Graph := ⟨tangle.nodes.reverse, tangle.edges.reverse⟩

theorem audits_arranged_tangle :
    (tangleFromBehind.audit = tangle.audit ∧
      tangleFromBehind.auditOnWalk = tangle.auditOnWalk ∧
      tangleFromBehind.auditForPublish {} = tangle.auditForPublish {}) ∧
    tangle.plan = .error ⟨"left"⟩ ∧
    (tangle.breaches ++ tangle.auditGates {}).map (·.rule) =
      [.danglingEdge, .selfLoop, .duplicateEdge, .duplicateEdge, .kindMismatch, .fanInExceeded,
        .fanOutExceeded, .tooManyEdges] := by
  refine ⟨?_, rfl, by decide +kernel⟩
  exact (audits_arranged tangle {}).2.2.2 tangleFromBehind (by decide +kernel) (by decide +kernel)
    (List.reverse_perm _) (List.reverse_perm _)

end Graph

end Workflow
