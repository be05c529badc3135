import Workflow.Proofs.Loading

/-!
# Audits and Loading

An audit reports nothing fatal but a cycle exactly when the graph is
well-formed, that is, when it can be loaded.

The violations that an audit looks for are put into one list before they are
sorted. `breaches` is the part of that list which is neither about cycles nor
a warning, and it is empty exactly when every search for a violation comes
back empty. The lemmas that end in `_eq_nil_iff` say what that means for one
rule each. They take a graph whose ids are not repeated and lists of edges
without repetitions, because an audit skips what it has already reported: it
counts edges only after those that are loose, repeated or lead back to their
source are gone. Where nothing was reported, nothing was skipped, and the
counts are those of the graph.

Counting up to one and being the same edge agree on lists without
repetitions, which is `length_le_one_iff`.

## Main definitions

* `Rule.isGate`: A rule for graphs that are published.
* `breaches`: The violations that keep a graph from loading.

## Theorems

* `mem_audit_iff`: What an audit reports, regardless of the order.
* `pairwise_audit`: The order.
* `breaches_fatal`: Breaches are fatal, and of which rules they are not.
* `breaches_eq_nil_iff`: There is no breach in a well-formed graph only.
* `audit_only_cycle_iff`: The fatal reports on a well-formed graph.
* `ofGraph_ok_iff_audit`: Loading and auditing agree.
-/

namespace Workflow

/-- Whether a rule is one of those that only a graph that is published has to
    keep. -/
def Rule.isGate (rule : Rule) : Bool :=
  [.emptyGraph, .tooManyEdges, .missingTrigger, .noEdges].contains rule

namespace Graph

/-- The violations that keep a graph from loading. -/
def breaches (g : Graph) : List Violation :=
  let proper := g.properEdges
  let edges := Ascending.ofList Edge.before proper
  g.auditIds ++ g.auditTriggers ++ g.edges.flatMap g.auditEdge ++ auditRepeats proper
    ++ edges.flatMap g.auditKinds ++ g.ids.flatMap (g.auditFanIn edges)
    ++ g.ids.flatMap (auditFanOut (edges.filter g.isLoose))

/-- What an audit reports: breaches, cycles and warnings. -/
theorem mem_audit_iff (g : Graph) (v : Violation) :
    v ∈ g.audit ↔ v ∈ g.breaches ∨ v ∈ g.auditCycle ∨ v ∈ g.auditOrphans := by
  have hmem := Ascending.mem_ofList Violation.before_total v
    (g.breaches ++ g.auditCycle ++ g.auditOrphans)
  rw [List.mem_append, List.mem_append, or_assoc] at hmem
  exact hmem

/-- An audit ascends. -/
theorem pairwise_audit (g : Graph) : g.audit.Pairwise fun v w => v.before w = true :=
  Violation.pairwise_sorted _

theorem auditCycle_rule (g : Graph) (v : Violation) (h : v ∈ g.auditCycle) : v.rule = .cycle := by
  rw [auditCycle] at h
  cases hplan : g.plan with
  | ok p =>
      rw [hplan] at h
      exact absurd h List.not_mem_nil
  | error c =>
      rw [hplan] at h
      rw [List.mem_singleton.mp h]
      rfl

/-- Nodes that the Trigger does not lead to are only warned about. -/
theorem auditOrphans_warning (g : Graph) (v : Violation) (h : v ∈ g.auditOrphans) :
    v.isFatal = false ∧ v.rule = .orphanNode := by
  rw [auditOrphans] at h
  cases htrigger : g.trigger? with
  | none =>
      rw [htrigger] at h
      exact absurd h List.not_mem_nil
  | some trigger =>
      rw [htrigger] at h
      rcases List.mem_map.mp h with ⟨n, _, heq⟩
      rw [← heq]
      exact ⟨rfl, rfl⟩

/-- Breaches are fatal, and they are neither cycles nor orphans nor what is asked
    of a graph that is published. -/
theorem breaches_fatal (g : Graph) (v : Violation) (h : v ∈ g.breaches) :
    v.isFatal = true ∧ v.rule ≠ .cycle ∧ v.rule ≠ .orphanNode ∧ v.rule.isGate = false := by
  have hfatal : ∀ rule nodes message,
      rule ≠ Rule.cycle ∧ rule ≠ .orphanNode ∧ rule.isGate = false →
      v = .fatal rule nodes message →
      v.isFatal = true ∧ v.rule ≠ .cycle ∧ v.rule ≠ .orphanNode ∧ v.rule.isGate = false := by
    intro rule nodes message hrule heq
    rw [heq]
    exact ⟨rfl, hrule⟩
  simp only [breaches, List.mem_append] at h
  -- One case for each search, in the order in which they are listed.
  rcases h with (((((h | h) | h) | h) | h) | h) | h
  · rcases List.mem_map.mp h with ⟨id, _, heq⟩
    exact hfatal _ _ _ (by decide) heq.symm
  · rw [auditTriggers, List.mem_ite_nil_right] at h
    exact hfatal _ _ _ (by decide) (List.mem_singleton.mp h.2)
  · rcases List.mem_flatMap.mp h with ⟨e, _, hv⟩
    rw [auditEdge] at hv
    split at hv
    · exact hfatal _ _ _ (by decide) (List.mem_singleton.mp hv)
    · rw [List.mem_ite_nil_right] at hv
      exact hfatal _ _ _ (by decide) (List.mem_singleton.mp hv.2)
  · rcases List.mem_map.mp h with ⟨e, _, heq⟩
    exact hfatal _ _ _ (by decide) heq.symm
  · rcases List.mem_flatMap.mp h with ⟨e, _, hv⟩
    rw [auditKinds] at hv
    split at hv
    · rw [List.mem_ite_nil_right] at hv
      exact hfatal _ _ _ (by decide) (List.mem_singleton.mp hv.2)
    · exact absurd hv List.not_mem_nil
  · rcases List.mem_flatMap.mp h with ⟨id, _, hv⟩
    rw [auditFanIn] at hv
    split at hv
    · simp only [List.mem_ite_nil_right] at hv
      exact hfatal _ _ _ (by decide) (List.mem_singleton.mp hv.2)
    · exact absurd hv List.not_mem_nil
  · rcases List.mem_flatMap.mp h with ⟨id, _, hv⟩
    simp only [auditFanOut, List.mem_ite_nil_right] at hv
    exact hfatal _ _ _ (by decide) (List.mem_singleton.mp hv.2)

/-- All that is fatal is a cycle when there is no breach. -/
theorem audit_only_cycle_iff_breaches (g : Graph) :
    (∀ v ∈ g.audit, v.isFatal = true → v.rule = .cycle) ↔ g.breaches = [] := by
  constructor
  · intro h
    refine List.eq_nil_iff_forall_not_mem.mpr fun v hv => ?_
    -- A breach is fatal, and none of them is a cycle.
    rcases g.breaches_fatal v hv with ⟨hfatal, hrule, _⟩
    exact hrule (h v ((g.mem_audit_iff v).mpr (Or.inl hv)) hfatal)
  · intro hnone v hv hfatal
    rcases (g.mem_audit_iff v).mp hv with hbreach | hcycle | horphan
    · rw [hnone] at hbreach
      exact absurd hbreach List.not_mem_nil
    · exact g.auditCycle_rule v hcycle
    · rw [(g.auditOrphans_warning v horphan).1] at hfatal
      exact absurd hfatal (by simp only [Bool.false_eq_true, not_false_eq_true])

/-- A list without repetitions has one element at most when its elements are
    all the same. -/
theorem length_le_one_iff {α : Type} (items : List α) (h : items.Nodup) :
    items.length ≤ 1 ↔ ∀ a ∈ items, ∀ b ∈ items, a = b := by
  cases items with
  | nil => simp only [List.length_nil, Nat.zero_le, List.not_mem_nil, false_implies, implies_true]
  | cons x rest =>
      cases rest with
      | nil => simp only [List.length_singleton, Nat.le_refl, List.mem_singleton, forall_eq]
      | cons y rest =>
          -- Two items that differ are too many.
          have hxy : x ≠ y := fun heq => (List.nodup_cons.mp h).1 (heq ▸ List.mem_cons_self)
          constructor
          · intro hle
            simp only [List.length_cons] at hle
            omega
          · intro hsame
            have hy : y ∈ x :: y :: rest := List.mem_cons_of_mem _ List.mem_cons_self
            exact absurd (hsame x List.mem_cons_self y hy) hxy

/-- The same, for those elements of a list that have a property. -/
theorem length_filter_le_one_iff {α : Type} (items : List α) (h : items.Nodup) (p : α → Prop)
    [DecidablePred p] : (items.filter fun x => p x).length ≤ 1 ↔
      ∀ a ∈ items, ∀ b ∈ items, p a → p b → a = b := by
  rw [length_le_one_iff _ (h.filter _)]
  simp only [List.mem_filter, decide_eq_true_eq]
  constructor
  · intro hsame a ha b hb hpa hpb
    exact hsame a ⟨ha, hpa⟩ b ⟨hb, hpb⟩
  · rintro hsame a ⟨ha, hpa⟩ b ⟨hb, hpb⟩
    exact hsame a ha b hb hpa hpb

/-- A search that reports one violation under a condition reports nothing when
    the condition fails. -/
theorem ite_singleton_eq_nil_iff {α : Type} (c : Prop) [Decidable c] (x : α) :
    (if c then [x] else []) = [] ↔ ¬ c := by
  by_cases hc : c
  · rw [if_pos hc]
    simp only [List.cons_ne_nil, hc, not_true]
  · rw [if_neg hc]
    simp only [hc, not_false_iff]

/-- Nothing is found repeated in a list without repetitions. -/
theorem filter_repeated_eq_nil_iff {α : Type} [DecidableEq α] (items : List α) :
    (items.filter fun x => 1 < items.count x) = [] ↔ items.Nodup := by
  rw [List.filter_eq_nil_iff, List.nodup_iff_count_le_one]
  simp only [decide_eq_true_eq, Nat.not_lt]
  constructor
  · intro h x
    by_cases hx : x ∈ items
    · exact h x hx
    · rw [List.count_eq_zero_of_not_mem hx]
      exact Nat.zero_le 1
  · exact fun h x _ => h x

/-- No id is reported when none is repeated. -/
theorem auditIds_eq_nil_iff (g : Graph) : g.auditIds = [] ↔ (g.nodes.map (·.id)).Nodup := by
  rw [auditIds, List.map_eq_nil_iff, filter_repeated_eq_nil_iff]

/-- The Triggers are not reported when there is one at most. -/
theorem auditTriggers_eq_nil_iff (g : Graph) (hids : (g.nodes.map (·.id)).Nodup) :
    g.auditTriggers = [] ↔ ∀ a b, g.HasKind a .trigger → g.HasKind b .trigger → a = b := by
  have hcount := length_filter_le_one_iff g.nodes hids.of_map (fun n => n.isTrigger = true)
  simp only [Bool.decide_eq_true] at hcount
  rw [auditTriggers, ite_singleton_eq_nil_iff, Nat.not_lt, triggers, hcount]
  simp only [Node.isTrigger, decide_eq_true_eq]
  constructor
  · rintro h a b ⟨m, hm, hma, hmk⟩ ⟨n, hn, hnb, hnk⟩
    rw [← hma, ← hnb, h m hm n hn hmk hnk]
  · intro h m hm n hn hmk hnk
    have hid := h m.id n.id ⟨m, hm, rfl, hmk⟩ ⟨n, hn, rfl, hnk⟩
    exact List.inj_on_of_nodup_map hids hm hn hid

/-- An edge is not reported on its own when it joins two different nodes. -/
theorem auditEdge_eq_nil_iff (g : Graph) (e : Edge) : g.auditEdge e = [] ↔
    g.HasNode e.source ∧ g.HasNode e.target ∧ e.source ≠ e.target := by
  rw [auditEdge]
  by_cases hends : (g.contains e.source && g.contains e.target) = true
  · simp only [hends, Bool.not_true, Bool.false_eq_true, if_false, ite_singleton_eq_nil_iff,
      Edge.isSelfLoop, decide_eq_true_eq]
    rw [Bool.and_eq_true, contains_iff, contains_iff] at hends
    simp only [hends.1, hends.2, true_and, ne_eq]
  · rw [Bool.not_eq_true] at hends
    simp only [hends, Bool.not_false, if_true, List.cons_ne_nil, false_iff]
    rw [Bool.eq_false_iff, ne_eq, Bool.and_eq_true, contains_iff, contains_iff] at hends
    exact fun h => hends ⟨h.1, h.2.1⟩

/-- No edge is reported as repeated when none is. -/
theorem auditRepeats_eq_nil_iff (edges : List Edge) : auditRepeats edges = [] ↔ edges.Nodup := by
  rw [auditRepeats, List.map_eq_nil_iff, filter_repeated_eq_nil_iff]

/-- The kinds of the ends of an edge are not reported when they accept each
    other or the source is a Condition. -/
theorem auditKinds_eq_nil_iff (g : Graph) (hids : (g.nodes.map (·.id)).Nodup) (e : Edge) :
    g.auditKinds e = [] ↔ ∀ source target, g.HasKind e.source source →
      g.HasKind e.target target → source ≠ .condition → source.accepts target = true := by
  simp only [g.hasKind_iff_node? hids]
  rw [auditKinds]
  cases hsource : g.node? e.source with
  | none => simp only [reduceCtorEq, false_and, exists_false, false_implies, implies_true]
  | some m =>
      cases htarget : g.node? e.target with
      | none =>
          simp only [reduceCtorEq, false_and, exists_false, false_implies, implies_true]
      | some n =>
          simp only [Option.some.injEq, exists_eq_left', ite_singleton_eq_nil_iff,
            Bool.and_eq_true, decide_eq_true_eq, Bool.not_eq_true', not_and, Bool.not_eq_false]
          constructor
          · intro h source target hs ht
            rw [← hs, ← ht]
            exact h
          · exact fun h => h m.kind n.kind rfl rfl

/-- What enters a node is not reported when nothing enters a Trigger and one
    edge at most a Wait. -/
theorem auditFanIn_eq_nil_iff (g : Graph) (hids : (g.nodes.map (·.id)).Nodup) (edges : List Edge)
    (hnodup : edges.Nodup) (id : NodeId) : g.auditFanIn edges id = [] ↔
      (g.HasKind id .trigger → ∀ e ∈ edges, e.target ≠ id) ∧
      (g.HasKind id .wait → ∀ e ∈ edges, ∀ f ∈ edges, e.target = id → f.target = id → e = f) := by
  have hzero : (edges.filter fun e => e.target = id).length = 0 ↔ ∀ e ∈ edges, e.target ≠ id := by
    rw [List.length_eq_zero_iff, List.filter_eq_nil_iff]
    simp only [decide_eq_true_eq, ne_eq]
  have hone := length_filter_le_one_iff edges hnodup fun e => e.target = id
  rw [← hzero, ← hone]
  simp only [g.hasKind_iff_node? hids]
  rw [auditFanIn]
  cases hnode : g.node? id with
  | none =>
      simp only [reduceCtorEq, false_and, exists_false, false_implies, and_self]
  | some n =>
      -- The last of the edges is admitted when the others leave room for it.
      have hadmits := admits_iff n.kind ((edges.filter fun e => e.target = id).length - 1)
      simp only [Option.some.injEq, exists_eq_left', ite_singleton_eq_nil_iff, Bool.and_eq_true,
        decide_eq_true_eq, Bool.not_eq_true', not_and, Bool.not_eq_false, hadmits]
      constructor
      · intro h
        refine ⟨fun htrigger => ?_, fun hwait => ?_⟩
        · by_contra hpos
          exact (h (by omega)).1 htrigger
        · by_cases hpos : 0 < (edges.filter fun e => e.target = id).length
          · have hlast := (h hpos).2 hwait
            omega
          · omega
      · rintro ⟨htrigger, hwait⟩ hpos
        refine ⟨fun hkind => ?_, fun hkind => ?_⟩
        · have hnone := htrigger hkind
          omega
        · have hle := hwait hkind
          omega

/-- What leaves a node is not reported when one of the edges at most does. -/
theorem auditFanOut_eq_nil_iff (edges : List Edge) (hnodup : edges.Nodup) (id : NodeId) :
    auditFanOut edges id = [] ↔
      ∀ e ∈ edges, ∀ f ∈ edges, e.source = id → f.source = id → e = f := by
  have hone := length_filter_le_one_iff edges hnodup fun e => e.source = id
  simp only [auditFanOut, ite_singleton_eq_nil_iff, Nat.not_lt, hone]

theorem isLoose_iff (g : Graph) (hids : (g.nodes.map (·.id)).Nodup) (e : Edge) :
    g.isLoose e = true ↔ g.Loose e := by
  simp only [Loose, g.hasKind_iff_node? hids]
  rw [isLoose]
  cases hsource : g.node? e.source with
  | none =>
      simp only [Bool.false_eq_true, reduceCtorEq, false_and, exists_false]
  | some m =>
      cases htarget : g.node? e.target with
      | none =>
          simp only [Bool.false_eq_true, reduceCtorEq, false_and, and_false, exists_false]
      | some n =>
          simp only [Option.some.injEq, exists_eq_left', Bool.and_eq_true, decide_eq_true_eq,
            Bool.not_eq_true']
          constructor
          · intro h
            exact ⟨m.kind, n.kind, rfl, rfl, h⟩
          · rintro ⟨source, target, hs, ht, h⟩
            rw [← hs, ← ht] at h
            exact h

/-- The edges that an audit counts, in order, are those of the graph when none
    was reported before. -/
theorem properEdges_eq (g : Graph) (h : ∀ e ∈ g.edges, g.auditEdge e = []) :
    g.properEdges = g.edges := by
  rw [properEdges, List.filter_eq_self]
  intro e he
  have hends := (g.auditEdge_eq_nil_iff e).mp (h e he)
  rw [Bool.and_eq_true, Bool.and_eq_true, contains_iff, contains_iff, Bool.not_eq_true',
    Edge.isSelfLoop, decide_eq_false_iff_not]
  exact ⟨⟨hends.1, hends.2.1⟩, hends.2.2⟩

/-- No edge is in an ascending list twice. -/
theorem nodup_sortedEdges (edges : List Edge) : (Ascending.ofList Edge.before edges).Nodup :=
  Ascending.nodup Edge.before_irrefl
    (Ascending.pairwise_ofList Edge.before_total Edge.before_trans edges)

theorem breaches_eq_nil_iff_searches (g : Graph) : g.breaches = [] ↔
    g.auditIds = [] ∧ g.auditTriggers = [] ∧ (∀ e ∈ g.edges, g.auditEdge e = []) ∧
    auditRepeats g.properEdges = [] ∧
    (∀ e ∈ g.properEdges, g.auditKinds e = []) ∧
    (∀ id ∈ g.ids, g.auditFanIn (Ascending.ofList Edge.before g.properEdges) id = []) ∧
    ∀ id ∈ g.ids,
      auditFanOut ((Ascending.ofList Edge.before g.properEdges).filter g.isLoose) id = [] := by
  have hmem := fun e => Ascending.mem_ofList Edge.before_total e g.properEdges
  simp only [breaches, List.append_eq_nil_iff, List.flatMap_eq_nil_iff, hmem, and_assoc]

/-- There is no breach exactly in a well-formed graph. -/
theorem breaches_eq_nil_iff (g : Graph) : g.breaches = [] ↔ g.WellFormed := by
  have hsorted := fun e => Ascending.mem_ofList Edge.before_total e g.edges
  have hnodup := nodup_sortedEdges g.edges
  rw [breaches_eq_nil_iff_searches, auditIds_eq_nil_iff]
  constructor
  · rintro ⟨hids, htriggers, hends, hrest⟩
    -- No edge was reported on its own, so all of them are counted.
    rw [g.properEdges_eq hends] at hrest
    rcases hrest with ⟨hrepeats, hkinds, hfanIn, hfanOut⟩
    have hproper := fun e he => (g.auditEdge_eq_nil_iff e).mp (hends e he)
    have hinto := fun id hid => (g.auditFanIn_eq_nil_iff hids _ hnodup id).mp (hfanIn id hid)
    have hout := fun id hid => (auditFanOut_eq_nil_iff _ (hnodup.filter _) id).mp (hfanOut id hid)
    simp only [hsorted, List.mem_filter, g.isLoose_iff hids, g.mem_ids] at hinto hout
    exact {
      ids_nodup := hids
      one_trigger := (g.auditTriggers_eq_nil_iff hids).mp htriggers
      trigger_first := fun e he hkind => (hinto e.target hkind.hasNode).1 hkind e he rfl
      ends := hproper
      edges_nodup := (auditRepeats_eq_nil_iff g.edges).mp hrepeats
      one_into_wait := fun e he f hf htarget hkind =>
        (hinto e.target hkind.hasNode).2 hkind e he f hf rfl htarget.symm
      kinds := fun e he => (g.auditKinds_eq_nil_iff hids e).mp (hkinds e he)
      one_loose := fun e he f hf hsource hle hlf =>
        hout e.source (hproper e he).1 e ⟨he, hle⟩ f ⟨hf, hlf⟩ rfl hsource.symm }
  · intro h
    have hends := fun e he => (g.auditEdge_eq_nil_iff e).mpr (h.ends e he)
    rw [g.properEdges_eq hends]
    refine ⟨h.ids_nodup, (g.auditTriggers_eq_nil_iff h.ids_nodup).mpr h.one_trigger, hends,
      (auditRepeats_eq_nil_iff g.edges).mpr h.edges_nodup,
      fun e he => (g.auditKinds_eq_nil_iff h.ids_nodup e).mpr (h.kinds e he),
      fun id _ => (g.auditFanIn_eq_nil_iff h.ids_nodup _ hnodup id).mpr ⟨?_, ?_⟩,
      fun id _ => (auditFanOut_eq_nil_iff _ (hnodup.filter _) id).mpr ?_⟩
    · intro hkind e he htarget
      rw [← htarget] at hkind
      exact h.trigger_first e ((hsorted e).mp he) hkind
    · intro hkind e he f hf hetarget hftarget
      rw [← hetarget] at hkind
      exact h.one_into_wait e ((hsorted e).mp he) f ((hsorted f).mp hf)
        (hetarget.trans hftarget.symm) hkind
    · intro e he f hf hesource hfsource
      simp only [List.mem_filter, hsorted, g.isLoose_iff h.ids_nodup] at he hf
      exact h.one_loose e he.1 f hf.1 (hesource.trans hfsource.symm) he.2 hf.2

/-- An audit of a graph reports nothing fatal but cycles exactly when the graph
    is well-formed. -/
theorem audit_only_cycle_iff (g : Graph) :
    (∀ v ∈ g.audit, v.isFatal = true → v.rule = .cycle) ↔ g.WellFormed := by
  rw [audit_only_cycle_iff_breaches, breaches_eq_nil_iff]

end Graph

namespace Session

/-- Loading and auditing agree: a graph loads exactly when an audit reports
    nothing fatal but cycles. What is loaded is the graph itself, and the
    order in which its edges are listed does not decide whether it is. -/
theorem ofGraph_ok_iff_audit (g : Graph) :
    ((∃ s, ofGraph g = .ok s) ↔ ∀ v ∈ g.audit, v.isFatal = true → v.rule = .cycle) ∧
      (∀ s, ofGraph g = .ok s → s.graph = g) ∧
      ∀ edges, edges.Perm g.edges →
        ((∃ s, ofGraph { g with edges := edges } = .ok s) ↔ ∃ s, ofGraph g = .ok s) := by
  have hload : ∀ h : Graph, (∃ s, ofGraph h = .ok s) ↔ h.WellFormed := by
    intro h
    constructor
    · rintro ⟨s, hs⟩
      exact ((ofGraph_eq_ok_iff h s).mp hs).1
    · intro hwell
      exact ⟨⟨h⟩, (ofGraph_eq_ok_iff h ⟨h⟩).mpr ⟨hwell, rfl⟩⟩
  refine ⟨?_, fun s hs => ((ofGraph_eq_ok_iff g s).mp hs).2, fun edges hperm => ?_⟩
  · rw [hload, g.audit_only_cycle_iff]
  · rw [hload, hload]
    constructor
    · intro hwell
      exact hwell.of_perm g.edges hperm.symm
    · intro hwell
      exact hwell.of_perm edges hperm

/-- A data source that fills a store before it feeds a model, and a Condition
    that leads back. -/
def looped : Graph :=
  .ofPairs [("file", .fileUpload), ("store", .qdrant), ("model", .gpt4o), ("choice", .condition)]
    [("file", "store"), ("file", "model"), ("store", "choice"), ("choice", "file"),
      ("choice", "model")]

theorem ofGraph_looped : looped.plan = .error ⟨"choice"⟩ ∧
    ∃ s, ofGraph looped = .ok s ∧ s.graph = looped := by
  have hclean : ∀ v ∈ looped.audit, v.isFatal = true → v.rule = .cycle := by decide +kernel
  rcases (ofGraph_ok_iff_audit looped).1.mpr hclean with ⟨s, hs⟩
  exact ⟨rfl, s, hs, (ofGraph_ok_iff_audit looped).2.1 s hs⟩

end Session

end Workflow
