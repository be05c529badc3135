import Mathlib.Data.Sym.Card
import Workflow.Proofs.Auditing
import Workflow.Proofs.Layers

/-!
# How Many Edges a Graph Has

What an audit says about a graph that is to be published, and why the number of
its edges never decides.

A graph of so many nodes may be published only when it has at most one edge for
every two of them. That is asked on top of an audit, and it is never what a
graph fails for. In a graph that an audit finds nothing wrong with, edges lead
to nodes that are deeper than where they came from, so no two of them join the
same two nodes. They are counted by the pairs of nodes that they join
(`length_edges_le`).

So what is asked of a graph that is published is, beyond the audit, that it is
not empty, and a Trigger and an edge where the rules ask for them
(`publishable_iff`). Too many edges are reported, but something else that is
fatal is reported with them.

## Main definitions

* `Edge.ends`: The two nodes that an edge joins.
* `Publishable`: A graph may be published.

## Theorems

* `ends_inj`: No two edges of a sound graph join the same two nodes.
* `length_edges_le`: A sound graph does not have too many edges.
* `hasFatal_audit_iff`: What an audit finds nothing fatal in.
* `auditGates_eq_nil_iff`: What the rules of publishing ask for.
* `publishable_iff`: What may be published.
-/

namespace Workflow

/-- The two nodes that an edge joins, whichever of them it leads to. -/
def Edge.ends (e : Edge) : Sym2 NodeId := s(e.source, e.target)

theorem hasFatal_eq_false_iff (vs : List Violation) :
    hasFatal vs = false ↔ ∀ v ∈ vs, v.isFatal = false := by
  rw [hasFatal, List.any_eq_false]
  simp only [Bool.not_eq_true]

namespace Graph

/-- A graph may be published: an audit finds nothing fatal in it, it has a node,
    and a Trigger and an edge where the rules ask for them. -/
structure Publishable (g : Graph) (rules : PublishRules) : Prop where
  sound : hasFatal g.audit = false
  inhabited : g.nodes ≠ []
  triggered : rules.requireTrigger = true → ∃ id, g.HasKind id .trigger
  connected : rules.requireEdges = true → g.edges ≠ []

section Counting

variable {g : Graph} (h : g.WellFormed) (p : Plan) (hplan : g.plan = .ok p)

include h hplan

/-- Edges lead to nodes that are deeper than where they came from. -/
theorem exists_depth_of_edge (e : Edge) (he : e ∈ g.edges) :
    ∃ i j, g.Depth e.source i ∧ g.Depth e.target j ∧ i < j := by
  rcases h.ends e he with ⟨hsource, htarget, _⟩
  rcases g.exists_depth_of_plan p hplan e.source hsource with ⟨i, hi⟩
  rcases g.exists_depth_of_plan p hplan e.target htarget with ⟨j, hj⟩
  exact ⟨i, j, hi, hj, g.depth_lt_of_depends _ _ i j ⟨he, hsource, htarget⟩ hi hj⟩

/-- No two edges of a sound graph join the same two nodes. -/
theorem ends_inj (e f : Edge) (he : e ∈ g.edges) (hf : f ∈ g.edges) (heq : e.ends = f.ends) :
    e = f := by
  rcases Sym2.eq_iff.mp heq with ⟨hsource, htarget⟩ | ⟨hsource, htarget⟩
  · rcases e with ⟨source, target⟩
    rcases f with ⟨source', target'⟩
    rw [Edge.mk.injEq]
    exact ⟨hsource, htarget⟩
  -- Of two edges that lead back and forth, none can lead to the deeper node.
  · rcases exists_depth_of_edge h p hplan e he with ⟨i, j, hi, hj, hij⟩
    rcases exists_depth_of_edge h p hplan f hf with ⟨k, l, hk, hl, hkl⟩
    rw [← htarget] at hk
    rw [← hsource] at hl
    have hjk := g.depth_unique e.target j k hj hk
    have hil := g.depth_unique e.source i l hi hl
    omega

/-- A sound graph does not have too many edges. -/
theorem length_edges_le : g.edges.length ≤ g.edgeCap := by
  let ids := (g.nodes.map (·.id)).toFinset
  have hnodup : (g.edges.map Edge.ends).Nodup :=
    h.edges_nodup.map_on fun e he f hf => ends_inj h p hplan e f he hf
  have hids : ∀ id, id ∈ ids ↔ g.HasNode id := by
    intro id
    rw [List.mem_toFinset, List.mem_map]
    exact Iff.rfl
  -- What an edge joins are two of the nodes.
  have hjoined : (g.edges.map Edge.ends).toFinset ⊆ ids.offDiag.image Sym2.mk.uncurry := by
    intro pair hpair
    rcases List.mem_map.mp (List.mem_toFinset.mp hpair) with ⟨e, he, heq⟩
    rcases h.ends e he with ⟨hsource, htarget, hne⟩
    refine Finset.mem_image.mpr ⟨(e.source, e.target), ?_, heq⟩
    exact Finset.mem_offDiag.mpr ⟨(hids _).mpr hsource, (hids _).mpr htarget, hne⟩
  calc g.edges.length = (g.edges.map Edge.ends).toFinset.card := by
        rw [List.toFinset_card_of_nodup hnodup, List.length_map]
    _ ≤ (ids.offDiag.image Sym2.mk.uncurry).card := Finset.card_le_card hjoined
    _ = ids.card.choose 2 := Sym2.card_image_offDiag ids
    _ = g.edgeCap := by
        rw [List.toFinset_card_of_nodup h.ids_nodup, List.length_map, Nat.choose_two_right]
        rfl

end Counting

/-- An audit finds nothing fatal in a graph that is well-formed and can be
    planned, and in no other one. -/
theorem hasFatal_audit_iff (g : Graph) :
    hasFatal g.audit = false ↔ g.WellFormed ∧ ∃ p, g.plan = .ok p := by
  rw [hasFatal_eq_false_iff, ← g.breaches_eq_nil_iff]
  constructor
  -- What is fatal is missing, so the searches that would report it came back
  -- empty, and the planner gave a plan.
  · intro hsound
    constructor
    · refine List.eq_nil_iff_forall_not_mem.mpr fun v hv => ?_
      have hfatal := (g.breaches_fatal v hv).1
      rw [hsound v ((g.mem_audit_iff v).mpr (Or.inl hv))] at hfatal
      exact Bool.false_ne_true hfatal
    · cases hplan : g.plan with
      | ok p => exact ⟨p, rfl⟩
      | error cycle =>
          have hcycle : ∀ v ∈ g.auditCycle, v.isFatal = false := fun v hv =>
            hsound v ((g.mem_audit_iff v).mpr (Or.inr (Or.inl hv)))
          rw [auditCycle, hplan] at hcycle
          exact absurd (hcycle _ List.mem_cons_self).symm Bool.false_ne_true
  · rintro ⟨hnone, p, hplan⟩ v hv
    rcases (g.mem_audit_iff v).mp hv with hbreach | hcycle | horphan
    · rw [hnone] at hbreach
      exact absurd hbreach List.not_mem_nil
    · rw [auditCycle, hplan] at hcycle
      exact absurd hcycle List.not_mem_nil
    · exact (g.auditOrphans_warning v horphan).1

/-- An audit does not report what is asked of a graph that is published. -/
theorem audit_not_gate (g : Graph) (v : Violation) (hv : v ∈ g.audit) :
    v.rule.isGate = false := by
  rcases (g.mem_audit_iff v).mp hv with hbreach | hcycle | horphan
  · exact (g.breaches_fatal v hbreach).2.2.2
  · rw [g.auditCycle_rule v hcycle]
    rfl
  · rw [(g.auditOrphans_warning v horphan).2]
    rfl

theorem mem_auditForPublish_iff (g : Graph) (rules : PublishRules) (v : Violation) :
    v ∈ g.auditForPublish rules ↔ v ∈ g.audit ∨ v ∈ g.auditGates rules := by
  have hmem := Ascending.mem_ofList Violation.before_total v (g.audit ++ g.auditGates rules)
  rw [List.mem_append] at hmem
  exact hmem

/-- All that is asked of a graph that is published is fatal. -/
theorem auditGates_fatal (g : Graph) (rules : PublishRules) (v : Violation)
    (h : v ∈ g.auditGates rules) : v.isFatal = true ∧ v.rule.isGate = true := by
  simp only [auditGates, List.mem_append, List.mem_ite_nil_right, List.mem_singleton] at h
  rcases h with ((⟨_, heq⟩ | ⟨_, heq⟩) | ⟨_, heq⟩) | ⟨_, heq⟩ <;>
    · rw [heq]
      exact ⟨rfl, rfl⟩

/-- Too many edges are reported where there are. -/
theorem edgeCap_lt_of_report (g : Graph) (rules : PublishRules) (v : Violation)
    (hv : v ∈ g.auditForPublish rules) (hrule : v.rule = .tooManyEdges) :
    g.edgeCap < g.edges.length := by
  rcases (g.mem_auditForPublish_iff rules v).mp hv with haudit | hgate
  · have hnot := g.audit_not_gate v haudit
    rw [hrule] at hnot
    exact absurd hnot nofun
  · simp only [auditGates, List.mem_append, List.mem_ite_nil_right, List.mem_singleton] at hgate
    rcases hgate with ((⟨_, heq⟩ | ⟨hmany, _⟩) | ⟨_, heq⟩) | ⟨_, heq⟩
    case inl.inl.inr => exact hmany
    -- The other reports are of other rules.
    all_goals
      rw [heq] at hrule
      exact absurd hrule nofun

/-- What the rules of publishing ask for. -/
theorem auditGates_eq_nil_iff (g : Graph) (rules : PublishRules) : g.auditGates rules = [] ↔
    g.nodes ≠ [] ∧ g.edges.length ≤ g.edgeCap ∧
    (rules.requireTrigger = true → ∃ id, g.HasKind id .trigger) ∧
    (rules.requireEdges = true → g.edges ≠ []) := by
  have htrigger : g.trigger?.isNone = true ↔ ¬ ∃ id, g.HasKind id .trigger := by
    rw [← g.trigger?_isSome_iff, Option.not_isSome_iff_eq_none, Option.isNone_iff_eq_none]
  simp only [auditGates, List.append_eq_nil_iff, ite_singleton_eq_nil_iff, List.isEmpty_iff,
    Bool.and_eq_true, htrigger, Nat.not_lt, not_and, not_not, and_assoc, ne_eq]

/-- Nothing fatal is found before publishing when neither the audit nor the
    rules of publishing find any. -/
theorem hasFatal_auditForPublish_iff (g : Graph) (rules : PublishRules) :
    hasFatal (g.auditForPublish rules) = false ↔
      hasFatal g.audit = false ∧ g.auditGates rules = [] := by
  simp only [hasFatal_eq_false_iff, mem_auditForPublish_iff, or_imp, forall_and]
  refine and_congr_right fun _ => ⟨fun hgates => ?_, fun hnone v hv => ?_⟩
  · refine List.eq_nil_iff_forall_not_mem.mpr fun v hv => ?_
    have hfatal := (g.auditGates_fatal rules v hv).1
    rw [hgates v hv] at hfatal
    exact Bool.false_ne_true hfatal
  · rw [hnone] at hv
    exact absurd hv List.not_mem_nil

/-- What may be published. The number of edges is asked for, but a graph in which
    an audit finds nothing fatal keeps to it, and where too many edges are
    reported something else is fatal, too. -/
theorem publishable_iff (g : Graph) (rules : PublishRules) :
    (hasFatal (g.auditForPublish rules) = false ↔ g.Publishable rules) ∧
    (hasFatal g.audit = false → g.edges.length ≤ g.edgeCap) ∧
    ∀ v ∈ g.auditForPublish rules, v.rule = .tooManyEdges →
      ∃ w ∈ g.auditForPublish rules, w.isFatal = true ∧ w.rule ≠ .tooManyEdges := by
  have hcap : hasFatal g.audit = false → g.edges.length ≤ g.edgeCap := by
    intro hsound
    rcases g.hasFatal_audit_iff.mp hsound with ⟨hwell, p, hplan⟩
    exact length_edges_le hwell p hplan
  refine ⟨?_, hcap, fun v hv hrule => ?_⟩
  · rw [hasFatal_auditForPublish_iff, auditGates_eq_nil_iff]
    constructor
    · rintro ⟨hsound, hnodes, _, htrigger, hedges⟩
      exact ⟨hsound, hnodes, htrigger, hedges⟩
    · rintro ⟨hsound, hnodes, htrigger, hedges⟩
      exact ⟨hsound, hnodes, hcap hsound, htrigger, hedges⟩
  -- Then the audit found something already, and that is of another rule.
  · have hmany := g.edgeCap_lt_of_report rules v hv hrule
    have hfatal : hasFatal g.audit = true := by
      by_contra hsound
      exact Nat.not_lt.mpr (hcap ((Bool.not_eq_true _).mp hsound)) hmany
    rcases List.any_eq_true.mp hfatal with ⟨w, hw, hwfatal⟩
    -- An audit has no rule about the number of edges.
    refine ⟨w, (g.mem_auditForPublish_iff rules w).mpr (Or.inl hw), hwfatal, fun heq => ?_⟩
    have hnot := g.audit_not_gate w hw
    rw [heq] at hnot
    exact absurd hnot nofun

/-- A Condition, a container and a mail, with as many edges as three nodes may
    have. -/
def triangle : Graph :=
  .ofPairs [("choice", .condition), ("job", .docker), ("mail", .email)]
    [("choice", "job"), ("choice", "mail"), ("job", "mail")]

/-- Two Conditions that lead to each other, with one edge too many. -/
def seesaw : Graph :=
  .ofPairs [("left", .condition), ("right", .condition)] [("left", "right"), ("right", "left")]

theorem publishable_iff_triangle :
    (triangle.edges.length = triangle.edgeCap ∧
      hasFatal (triangle.auditForPublish { requireEdges := true }) = false) ∧
    ∃ w ∈ seesaw.auditForPublish {}, w.isFatal = true ∧ w.rule ≠ .tooManyEdges := by
  have hsound : hasFatal triangle.audit = false := by decide +kernel
  have hmany : ∃ v ∈ seesaw.auditForPublish {}, v.rule = .tooManyEdges := by decide +kernel
  refine ⟨⟨rfl, (publishable_iff triangle _).1.mpr ⟨hsound, nofun, nofun, fun _ => nofun⟩⟩, ?_⟩
  rcases hmany with ⟨v, hv, hrule⟩
  exact (publishable_iff seesaw {}).2.2 v hv hrule

end Graph

end Workflow
