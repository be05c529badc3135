import Mathlib.Data.List.Nodup
import Workflow.Audit
import Workflow.Proofs.Dependency

/-!
# Well-Formed Graphs

The rules of a workflow graph, as a property of its nodes and edges. Editing
sessions and audits both enforce these rules, each in a way of its own: a
session tries them on one edge at a time and sees only the edges that are
there already, an audit counts over the whole list. `WellFormed` does neither.
It speaks about ids and kinds, never about the place of a node or an edge in a
list, and every limit in it is the statement that two things are the same.

This is what makes it easy to keep. A graph whose nodes and edges are among
those of a well-formed graph is well-formed, as long as nothing is repeated
and no edge hangs loose. `WellFormed.of_subset` says so, and the removal of
nodes and edges, any change of a node that leaves its id and its kind alone,
and any other order of the edges are all cases of it.

## Main definitions

* `HasKind`: The node with an id is of a kind.
* `Loose`: An edge counts against the one that may leave its source.
* `WellFormed`: A graph keeps the rules.

## Theorems

* `node?_eq_some_iff`: The node of an id, when ids are not repeated.
* `admits_iff`: Only Triggers and Waits limit what enters them.
* `WellFormed.of_subset`: Parts of a well-formed graph are well-formed.
* `WellFormed.of_perm`: The order of the edges does not matter.
* `wellFormed_empty`: The empty graph is well-formed.
-/

namespace Workflow

namespace Graph

/-- The node with an id is of a kind. -/
def HasKind (g : Graph) (id : NodeId) (kind : Kind) : Prop :=
  ∃ n ∈ g.nodes, n.id = id ∧ n.kind = kind

/-- An edge counts against the one edge that may leave its source: the source
    is no Condition, and the edge does not fill a vector store from a data
    source. -/
def Loose (g : Graph) (e : Edge) : Prop :=
  ∃ source target, g.HasKind e.source source ∧ g.HasKind e.target target ∧
    source ≠ .condition ∧ source.pairs target = false

/-- A graph keeps the rules of workflows. Ids are not repeated; at most one
    node is a Trigger, and nothing enters it; every edge joins two different
    nodes, and none is repeated; at most one edge enters a Wait; kinds are
    joined only where they accept each other, unless the source is a
    Condition; and at most one loose edge leaves a node. -/
structure WellFormed (g : Graph) : Prop where
  ids_nodup : (g.nodes.map (·.id)).Nodup
  one_trigger : ∀ a b, g.HasKind a .trigger → g.HasKind b .trigger → a = b
  trigger_first : ∀ e ∈ g.edges, ¬ g.HasKind e.target .trigger
  ends : ∀ e ∈ g.edges, g.HasNode e.source ∧ g.HasNode e.target ∧ e.source ≠ e.target
  edges_nodup : g.edges.Nodup
  one_into_wait : ∀ e ∈ g.edges, ∀ f ∈ g.edges, e.target = f.target →
    g.HasKind e.target .wait → e = f
  kinds : ∀ e ∈ g.edges, ∀ source target, g.HasKind e.source source →
    g.HasKind e.target target → source ≠ .condition → source.accepts target = true
  one_loose : ∀ e ∈ g.edges, ∀ f ∈ g.edges, e.source = f.source → g.Loose e → g.Loose f → e = f

theorem HasKind.hasNode {g : Graph} {id : NodeId} {kind : Kind} (h : g.HasKind id kind) :
    g.HasNode id := by
  rcases h with ⟨n, hn, hid, _⟩
  exact ⟨n, hn, hid⟩

theorem HasNode.exists_hasKind {g : Graph} {id : NodeId} (h : g.HasNode id) :
    ∃ kind, g.HasKind id kind := by
  rcases h with ⟨n, hn, hid⟩
  exact ⟨n.kind, n, hn, hid, rfl⟩

theorem mem_of_node? (g : Graph) (id : NodeId) (n : Node) (h : g.node? id = some n) :
    n ∈ g.nodes ∧ n.id = id := by
  rw [node?] at h
  have hid := List.find?_some h
  rw [decide_eq_true_eq] at hid
  exact ⟨List.mem_of_find?_eq_some h, hid⟩

/-- An id that is that of a node has a node. -/
theorem exists_node? (g : Graph) (id : NodeId) (h : g.HasNode id) :
    ∃ n, n.id = id ∧ g.node? n.id = some n := by
  rcases Option.isSome_iff_exists.mp ((g.contains_iff id).mpr h) with ⟨n, hn⟩
  have hid := (g.mem_of_node? id n hn).2
  refine ⟨n, hid, ?_⟩
  rw [hid]
  exact hn

/-- When ids are not repeated, the node of an id is any node with that id. -/
theorem node?_eq_some_iff (g : Graph) (hids : (g.nodes.map (·.id)).Nodup) (id : NodeId)
    (n : Node) : g.node? id = some n ↔ n ∈ g.nodes ∧ n.id = id := by
  constructor
  · exact g.mem_of_node? id n
  · rintro ⟨hn, hid⟩
    cases hfind : g.node? id with
    | none =>
        have hnot := List.find?_eq_none.mp hfind n hn
        exact absurd (decide_eq_true hid) hnot
    | some m =>
        rcases g.mem_of_node? id m hfind with ⟨hm, hmid⟩
        rw [List.inj_on_of_nodup_map hids hm hn (hmid.trans hid.symm)]

theorem hasKind_iff_node? (g : Graph) (hids : (g.nodes.map (·.id)).Nodup) (id : NodeId)
    (kind : Kind) : g.HasKind id kind ↔ ∃ n, g.node? id = some n ∧ n.kind = kind := by
  simp only [g.node?_eq_some_iff hids, HasKind, and_assoc]

theorem hasKind_unique (g : Graph) (hids : (g.nodes.map (·.id)).Nodup) (id : NodeId)
    (k l : Kind) (hk : g.HasKind id k) (hl : g.HasKind id l) : k = l := by
  rcases hk with ⟨m, hm, hmid, hmk⟩
  rcases hl with ⟨n, hn, hnid, hnl⟩
  have heq := List.inj_on_of_nodup_map hids hm hn (hmid.trans hnid.symm)
  rw [← hmk, ← hnl, heq]

/-- Only Triggers and Waits limit what enters them: nothing may enter the one,
    and nothing more the other when something enters it already. -/
theorem admits_iff (kind : Kind) (existing : Nat) :
    kind.capability.maxIncoming.admits existing = true ↔
      kind ≠ .trigger ∧ (kind = .wait → existing = 0) := by
  cases kind <;>
    simp [Kind.capability, Kind.integration, FanIn.admits]

/-- Parts of a well-formed graph are well-formed, when nothing is repeated in
    them and the ends of all edges remain. -/
theorem WellFormed.of_subset {g h : Graph} (hg : g.WellFormed)
    (hids : (h.nodes.map (·.id)).Nodup) (hkinds : ∀ id kind, h.HasKind id kind → g.HasKind id kind)
    (hnodup : h.edges.Nodup) (hedges : h.edges ⊆ g.edges)
    (hends : ∀ e ∈ h.edges, h.HasNode e.source ∧ h.HasNode e.target) : h.WellFormed := by
  -- Kinds are the same as before, so what is loose was loose before.
  have hloose : ∀ e, h.Loose e → g.Loose e := by
    rintro e ⟨source, target, hsource, htarget, hne, hpairs⟩
    exact ⟨source, target, hkinds _ _ hsource, hkinds _ _ htarget, hne, hpairs⟩
  exact {
    ids_nodup := hids
    one_trigger := fun a b ha hb => hg.one_trigger a b (hkinds _ _ ha) (hkinds _ _ hb)
    trigger_first := fun e he htrigger => hg.trigger_first e (hedges he) (hkinds _ _ htrigger)
    ends := fun e he => ⟨(hends e he).1, (hends e he).2, (hg.ends e (hedges he)).2.2⟩
    edges_nodup := hnodup
    one_into_wait := fun e he f hf htarget hwait =>
      hg.one_into_wait e (hedges he) f (hedges hf) htarget (hkinds _ _ hwait)
    kinds := fun e he source target hsource htarget hne =>
      hg.kinds e (hedges he) source target (hkinds _ _ hsource) (hkinds _ _ htarget) hne
    one_loose := fun e he f hf hsource hle hlf =>
      hg.one_loose e (hedges he) f (hedges hf) hsource (hloose e hle) (hloose f hlf) }

/-- The order of the edges does not matter. -/
theorem WellFormed.of_perm {g : Graph} (hg : g.WellFormed) (edges : List Edge)
    (hperm : edges.Perm g.edges) : WellFormed { g with edges := edges } := by
  refine hg.of_subset hg.ids_nodup (fun id kind h => h) (hperm.nodup_iff.mpr hg.edges_nodup)
    (fun e he => hperm.mem_iff.mp he) ?_
  intro e he
  have hends := hg.ends e (hperm.mem_iff.mp he)
  exact ⟨hends.1, hends.2.1⟩

/-- The first edges of a well-formed graph are admissible without the rest. -/
theorem WellFormed.of_edges_append {nodes : List Node} {edges rest : List Edge}
    (h : WellFormed ⟨nodes, edges ++ rest⟩) : WellFormed ⟨nodes, edges⟩ := by
  refine h.of_subset h.ids_nodup (fun id kind hkind => hkind)
    (List.nodup_append.mp h.edges_nodup).1 (List.subset_append_left edges rest) ?_
  intro e he
  have hends := h.ends e (List.mem_append_left _ he)
  exact ⟨hends.1, hends.2.1⟩

/-- Without edges, so are the first nodes. -/
theorem WellFormed.of_nodes_append {nodes rest : List Node}
    (h : WellFormed ⟨nodes ++ rest, []⟩) : WellFormed ⟨nodes, []⟩ := by
  have hids := h.ids_nodup
  rw [List.map_append] at hids
  refine h.of_subset (List.nodup_append.mp hids).1 ?_ List.nodup_nil (List.Subset.refl _)
    (fun e he => absurd he List.not_mem_nil)
  rintro id kind ⟨n, hn, hkind⟩
  exact ⟨n, List.mem_append_left _ hn, hkind⟩

theorem wellFormed_empty : WellFormed {} := by
  have hnone : ∀ id kind, ¬ HasKind {} id kind := by
    rintro id kind ⟨n, hn, _⟩
    exact List.not_mem_nil hn
  exact {
    ids_nodup := List.nodup_nil
    one_trigger := fun a b ha _ => absurd ha (hnone a _)
    trigger_first := fun e he => absurd he List.not_mem_nil
    ends := fun e he => absurd he List.not_mem_nil
    edges_nodup := List.nodup_nil
    one_into_wait := fun e he => absurd he List.not_mem_nil
    kinds := fun e he => absurd he List.not_mem_nil
    one_loose := fun e he => absurd he List.not_mem_nil }

end Graph

end Workflow
