import Mathlib.Logic.Relation
import Workflow.Proofs.Auditing

/-!
# Nodes That Nothing Leads To

Which nodes an audit warns about. They are the nodes to which no path leads
from the first Trigger, along the edges as they are listed: an edge that names
a missing node is as good as another, so a path may go over ids that no node
has, and cycles, repeated edges and edges that lead back to their source make
no difference.

The ids that can be reached are found by a search that visits each id once. It
finds nothing that is not led to (`leads_of_mem_gather`), it finds what it was
told to begin with, and where it finds an id it finds the ends of the edges that
leave it (`gather_closed`). All of this is said of any list of ids left to visit;
the ends of all edges are among those that a search begins with, so nothing is
missed.

## Main definitions

* `Leads`: There is a path between two ids, which may be empty.
* `Orphan`: An id of a node that the Trigger does not lead to.
* `orphanReport`: The warning about an id.

## Theorems

* `mem_gather_of_pending`, `gather_closed`: What a search finds.
* `leads_of_mem_gather`: What a search does not find.
* `mem_reachedFrom_iff`: The ids that can be reached.
* `mem_auditOrphans_iff`: The warnings, each perhaps repeated.
* `mem_audit_orphanNode_iff`: An audit finds no other orphans.
* `orphans_reported`: The warnings of an audit.
-/

namespace Workflow

namespace Graph

/-- There is a path between two ids along the edges of a graph. It may be empty,
    and no id on it needs to be that of a node. -/
def Leads (g : Graph) (first last : NodeId) : Prop :=
  Relation.ReflTransGen (fun source target => ⟨source, target⟩ ∈ g.edges) first last

/-- An id of a node that the first Trigger does not lead to. -/
def Orphan (g : Graph) (id : NodeId) : Prop :=
  g.HasNode id ∧ ∃ trigger, g.trigger? = some trigger ∧ ¬ g.Leads trigger.id id

/-- The warning about a node that the Trigger does not lead to. -/
def orphanReport (id : NodeId) : Violation :=
  .warning .orphanNode [id] ("node " ++ id ++ " is unreachable from the Trigger")

/-- Whether a report is a warning about an id. -/
def reportsOrphan (id : NodeId) (v : Violation) : Bool :=
  v.rule = .orphanNode && v.nodes.contains id

/-- A search finds what it was told to begin with. -/
theorem mem_gather_of_pending (g : Graph) (left pending : List NodeId) (id : NodeId)
    (hpending : id ∈ pending) (hleft : id ∈ left) : id ∈ g.gather left pending := by
  fun_induction gather g left pending with
  | case1 left pending hfound =>
      have hnone := List.find?_eq_none.mp hfound id hpending
      exact absurd (List.contains_iff_mem.mpr hleft) hnone
  | case2 left pending next hfound ih =>
      by_cases hid : id = next
      · rw [hid]
        exact List.mem_cons_self
      · exact List.mem_cons_of_mem _
          (ih (List.mem_append_right _ hpending) ((List.mem_erase_of_ne hid).mpr hleft))

/-- Where a search finds an id it finds the ends of the edges that leave it, as
    far as they were left to be visited. -/
theorem gather_closed (g : Graph) (left pending : List NodeId) (e : Edge) (he : e ∈ g.edges)
    (hsource : e.source ∈ g.gather left pending) (htarget : e.target ∈ left) :
    e.target ∈ g.gather left pending := by
  fun_induction gather g left pending with
  | case1 left pending hfound => exact absurd hsource List.not_mem_nil
  | case2 left pending next hfound ih =>
      by_cases hnext : e.target = next
      · rw [hnext]
        exact List.mem_cons_self
      · have hleft : e.target ∈ left.erase next := (List.mem_erase_of_ne hnext).mpr htarget
        refine List.mem_cons_of_mem _ ?_
        rcases List.mem_cons.mp hsource with heq | hrest
        -- The edge leaves the id that is visited, so its end is pending next.
        · have houtgoing : e ∈ g.outgoing next :=
            List.mem_filter.mpr ⟨he, decide_eq_true heq⟩
          refine g.mem_gather_of_pending _ _ _ (List.mem_append_left _ ?_) hleft
          exact List.mem_map.mpr ⟨e, houtgoing, rfl⟩
        · exact ih hrest hleft

/-- A search finds nothing but what is led to from where it begins. -/
theorem leads_of_mem_gather (g : Graph) (left pending : List NodeId) (id : NodeId)
    (h : id ∈ g.gather left pending) : ∃ first ∈ pending, g.Leads first id := by
  fun_induction gather g left pending with
  | case1 left pending hfound => exact absurd h List.not_mem_nil
  | case2 left pending next hfound ih =>
      have hnext : next ∈ pending := List.mem_of_find?_eq_some hfound
      rcases List.mem_cons.mp h with heq | hrest
      · rw [heq]
        exact ⟨next, hnext, Relation.ReflTransGen.refl⟩
      · rcases ih hrest with ⟨first, hfirst, hleads⟩
        rcases List.mem_append.mp hfirst with htarget | hpending
        · rcases List.mem_map.mp htarget with ⟨e, he, heq⟩
          rcases List.mem_filter.mp he with ⟨hmem, hsource⟩
          have hedge : (⟨next, first⟩ : Edge) ∈ g.edges := by
            rw [← of_decide_eq_true hsource, ← heq]
            exact hmem
          exact ⟨next, hnext, Relation.ReflTransGen.head hedge hleads⟩
        · exact ⟨first, hpending, hleads⟩

/-- The ids that can be reached are those that are led to. -/
theorem mem_reachedFrom_iff (g : Graph) (start id : NodeId) :
    id ∈ g.reachedFrom start ↔ g.Leads start id := by
  rw [reachedFrom]
  constructor
  · intro h
    rcases g.leads_of_mem_gather _ _ id h with ⟨first, hfirst, hleads⟩
    rw [List.mem_singleton.mp hfirst] at hleads
    exact hleads
  · intro hleads
    induction hleads with
    | refl =>
        refine g.mem_gather_of_pending _ _ _ List.mem_cons_self ?_
        exact (Ascending.mem_texts _ _).mpr List.mem_cons_self
    | tail _ hedge ih =>
        refine g.gather_closed _ _ _ hedge ih ?_
        exact (Ascending.mem_texts _ _).mpr
          (List.mem_cons_of_mem _ (List.mem_map.mpr ⟨_, hedge, rfl⟩))

instance (g : Graph) (start id : NodeId) : Decidable (g.Leads start id) :=
  decidable_of_iff _ (g.mem_reachedFrom_iff start id)

instance (g : Graph) (id : NodeId) : Decidable (g.Orphan id) :=
  match h : g.trigger? with
  | none => isFalse fun horphan => by
      rcases horphan.2 with ⟨trigger, htrigger, _⟩
      rw [h] at htrigger
      exact Option.some_ne_none _ htrigger.symm
  | some trigger => decidable_of_iff (g.HasNode id ∧ ¬ g.Leads trigger.id id) <| by
      simp only [Orphan, h, Option.some.injEq, exists_eq_left']

/-- The warnings that are looked for are those about the orphans. -/
theorem mem_auditOrphans_iff (g : Graph) (v : Violation) :
    v ∈ g.auditOrphans ↔ ∃ id, g.Orphan id ∧ v = orphanReport id := by
  rw [auditOrphans]
  cases htrigger : g.trigger? with
  | none =>
      simp only [List.not_mem_nil, Orphan, htrigger, reduceCtorEq, false_and, exists_false,
        and_false]
  | some trigger =>
      simp only [List.mem_map, List.mem_filter, Bool.not_eq_true', ← Bool.not_eq_true,
        List.contains_iff_mem, mem_reachedFrom_iff, Orphan, htrigger, Option.some.injEq,
        exists_eq_left']
      constructor
      · rintro ⟨n, ⟨hn, hleads⟩, rfl⟩
        exact ⟨n.id, ⟨⟨n, hn, rfl⟩, hleads⟩, rfl⟩
      · rintro ⟨id, ⟨⟨n, hn, rfl⟩, hleads⟩, rfl⟩
        exact ⟨n, ⟨hn, hleads⟩, rfl⟩

/-- An audit reports as orphans what was looked for as orphans. -/
theorem mem_audit_orphanNode_iff (g : Graph) (v : Violation) :
    v ∈ g.audit ∧ v.rule = .orphanNode ↔ v ∈ g.auditOrphans := by
  rw [mem_audit_iff]
  constructor
  · rintro ⟨hbreach | hcycle | horphan, hrule⟩
    · exact absurd hrule (g.breaches_fatal v hbreach).2.2.1
    · rw [g.auditCycle_rule v hcycle] at hrule
      exact absurd hrule nofun
    · exact horphan
  · intro horphan
    exact ⟨Or.inr (Or.inr horphan), (g.auditOrphans_warning v horphan).2⟩

theorem orphanReport_nodes (id : NodeId) : (orphanReport id).nodes = [id] :=
  List.mergeSort_singleton id

/-- Warnings are in the order of the ids that they are about. -/
theorem orphanReport_before (a b : NodeId) (h : a < b) :
    (orphanReport a).before (orphanReport b) = true := by
  rw [Violation.before_iff, orphanReport_nodes, orphanReport_nodes]
  exact Or.inr ⟨rfl, Or.inl (List.Lex.rel h)⟩

/-- An audit warns about the orphans and of nothing else that way: there is one
    warning for each of their ids, in the order of the ids, also for an id that
    several nodes have. -/
theorem orphans_reported (g : Graph) :
    (g.audit.filter fun v => v.rule = .orphanNode) = (g.ids.filter g.Orphan).map orphanReport ∧
    ∀ id, g.audit.countP (reportsOrphan id) = if g.Orphan id then 1 else 0 := by
  have hlist : (g.audit.filter fun v => v.rule = .orphanNode) =
      (g.ids.filter g.Orphan).map orphanReport := by
    -- Both lists ascend, so it is enough that they have the same members.
    refine Ascending.eq_of_mem_iff Violation.before_irrefl Violation.before_trans
      (g.pairwise_audit.filter _) ?_ fun v => ?_
    · rw [List.pairwise_map]
      exact (g.pairwise_ids.filter _).imp (orphanReport_before _ _)
    · simp only [List.mem_filter, decide_eq_true_eq, mem_audit_orphanNode_iff,
        mem_auditOrphans_iff, List.mem_map, mem_ids]
      constructor
      · rintro ⟨id, horphan, rfl⟩
        exact ⟨id, ⟨horphan.1, horphan⟩, rfl⟩
      · rintro ⟨id, ⟨_, horphan⟩, rfl⟩
        exact ⟨id, horphan, rfl⟩
  refine ⟨hlist, fun id => ?_⟩
  have hmem : id ∈ g.ids.filter g.Orphan ↔ g.Orphan id := by
    rw [List.mem_filter, mem_ids, decide_eq_true_eq]
    exact ⟨fun h => h.2, fun h => ⟨h.1, h⟩⟩
  calc g.audit.countP (reportsOrphan id)
      = (g.audit.filter fun v => v.rule = .orphanNode).countP fun v => v.nodes.contains id := by
        rw [List.countP_filter]
        exact List.countP_congr fun v _ => by
          rw [reportsOrphan, Bool.and_comm]
    _ = (g.ids.filter g.Orphan).count id := by
        rw [hlist, List.countP_map, List.count]
        refine List.countP_congr fun a _ => ?_
        simp only [Function.comp_apply, orphanReport_nodes, List.contains_cons,
          List.contains_nil, Bool.or_false, beq_iff_eq]
        exact eq_comm
    _ = if g.Orphan id then 1 else 0 := by
        rw [(g.nodup_ids.filter _).count]
        simp only [hmem]

end Graph

end Workflow
