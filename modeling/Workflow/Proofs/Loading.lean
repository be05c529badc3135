import Workflow.Proofs.WellFormed
import Workflow.Session

/-!
# Loading a Graph

A stored graph loads exactly when it is well-formed, and then the session
holds that graph.

The rules of admission are compared with well-formedness one step at a time.
`insertNode_eq_ok_iff` and `addEdge_eq_ok_iff` say that a session over a
well-formed graph admits a node or an edge exactly when the graph that
results is well-formed. In one direction this is the invariant of editing; in
the other it says that no refusal is too strict, so a well-formed graph can
be built in the order in which it is listed, whatever that order is.

Loading folds a step that may fail over two lists, first nodes and then
edges. `foldlM_eq_ok_iff` treats both folds at once: when a step succeeds
exactly for good lists, and the beginning of a good list is good, then the
fold succeeds exactly for good lists.

## Main definitions

* `Graph.Admits`: What the rules of admission ask of an edge.

## Theorems

* `checkEdge_eq_ok_iff`: The rules of admission, stated at once.
* `Admits.wellFormed`: An admitted edge keeps a graph well-formed.
* `exists_admits_of_wellFormed`: No other edge does.
* `checkEdge_iff_wellFormed`: An edge is admitted when the graph stays
  well-formed.
* `append_node_iff`: The same, for a node.
* `insertNode_eq_ok_iff`, `addEdge_eq_ok_iff`: The steps of a session.
* `ofGraph_eq_ok_iff`: A graph loads when it is well-formed.
-/

namespace Workflow

namespace Graph

/-- What the rules of admission ask of an edge between two nodes. That the
    target is no second Trigger need not be said, as Triggers have no room. -/
structure Admits (g : Graph) (source target : NodeId) (m n : Node) : Prop where
  source_node : g.node? source = some m
  target_node : g.node? target = some n
  distinct : source ≠ target
  fresh : ⟨source, target⟩ ∉ g.edges
  room : n.kind.capability.maxIncoming.admits (g.incoming target).length = true
  accepted : m.kind = .condition ∨ m.kind.accepts n.kind = true ∧
    (m.kind.pairs n.kind = true ∨ g.hasLooseEdge source m.kind = false)

/-- A rule that refuses is passed when it does not apply. -/
theorem ite_error_eq_ok_iff (c : Prop) [Decidable c] (r : Refusal) (rest : Except Refusal Unit) :
    (if c then .error r else rest) = .ok () ↔ ¬ c ∧ rest = .ok () := by
  by_cases hc : c
  · rw [if_pos hc]
    simp only [reduceCtorEq, hc, not_true, false_and]
  · rw [if_neg hc]
    simp only [hc, not_false_iff, true_and]

/-- A rule that admits ends the matter when it applies. -/
theorem ite_ok_eq_ok_iff (c : Prop) [Decidable c] (rest : Except Refusal Unit) :
    (if c then .ok () else rest) = .ok () ↔ c ∨ rest = .ok () := by
  by_cases hc : c
  · rw [if_pos hc]
    simp only [hc, true_or]
  · rw [if_neg hc]
    simp only [hc, false_or]

/-- The rules of admission, stated at once. -/
theorem checkEdge_eq_ok_iff (g : Graph) (source target : NodeId) :
    g.checkEdge source target = .ok () ↔ ∃ m n, g.Admits source target m n := by
  constructor
  · intro h
    cases hsource : g.node? source with
    | none => simp only [checkEdge, hsource, reduceCtorEq] at h
    | some m =>
        cases htarget : g.node? target with
        | none => simp only [checkEdge, hsource, htarget, reduceCtorEq] at h
        | some n =>
            -- Of all that is checked, only this much is not said twice.
            simp only [checkEdge, hsource, htarget, ite_error_eq_ok_iff, ite_ok_eq_ok_iff,
              Bool.not_eq_true', Bool.not_eq_false, Bool.not_eq_true, and_true] at h
            rcases h with ⟨hne, hfresh, _, _, hroom, haccepted⟩
            refine ⟨m, n, hsource, htarget, hne, fun hmem => ?_, hroom, haccepted⟩
            rw [hasEdge, List.contains_iff_mem.mpr hmem] at hfresh
            exact absurd hfresh (by simp only [reduceCtorEq, not_false_eq_true])
  · rintro ⟨m, n, h⟩
    -- What is admitted passes every check, also those that follow from others.
    have hfresh : g.hasEdge source target = false := by
      rw [hasEdge, Bool.eq_false_iff]
      exact fun hmem => h.fresh (List.contains_iff_mem.mp hmem)
    have hkind := ((admits_iff _ _).mp h.room).1
    have htrigger : n.isTrigger = false := by
      rw [Node.isTrigger, decide_eq_false_iff_not]
      -- A trigger admits nothing, so its room needs no check of its own.
      exact hkind
    have hzero : n.kind.capability.maxIncoming ≠ .zero := by
      intro hzero
      have hroom := h.room
      rw [hzero] at hroom
      exact absurd hroom (by simp only [FanIn.admits, Bool.false_eq_true, not_false_eq_true])
    simp only [checkEdge, h.source_node, h.target_node, ite_error_eq_ok_iff, ite_ok_eq_ok_iff,
      h.distinct, hfresh, htrigger, hzero, h.room, Bool.false_and, Bool.not_true,
      Bool.false_eq_true, not_false_iff, true_and, Bool.not_eq_true', Bool.not_eq_false,
      Bool.not_eq_true, and_true]
    exact h.accepted

theorem mem_incoming (g : Graph) (id : NodeId) (e : Edge) :
    e ∈ g.incoming id ↔ e ∈ g.edges ∧ e.target = id := by
  rw [incoming, List.mem_filter, decide_eq_true_eq]

/-- A loose edge leaves a node, in terms of kinds. -/
theorem hasLooseEdge_iff (g : Graph) (hids : (g.nodes.map (·.id)).Nodup) (id : NodeId)
    (kind : Kind) (hkind : g.HasKind id kind) (hne : kind ≠ .condition) :
    g.hasLooseEdge id kind = true ↔ ∃ e ∈ g.edges, e.source = id ∧ g.Loose e := by
  simp only [hasLooseEdge, outgoing, List.any_eq_true, List.mem_filter, decide_eq_true_eq]
  constructor
  -- The edge that is found leaves this node, and its target has a kind.
  · rintro ⟨e, ⟨he, hsource⟩, hpairs⟩
    cases htarget : g.node? e.target with
    | none =>
        rw [htarget] at hpairs
        exact absurd hpairs (by simp only [Bool.false_eq_true, not_false_eq_true])
    | some n =>
        rw [htarget] at hpairs
        simp only [Bool.not_eq_true'] at hpairs
        refine ⟨e, he, hsource, kind, n.kind, ?_, ?_, hne, hpairs⟩
        · rw [hsource]
          exact hkind
        · exact (g.hasKind_iff_node? hids e.target n.kind).mpr ⟨n, htarget, rfl⟩
  · rintro ⟨e, he, hsource, source, target, hks, hkt, _, hpairs⟩
    rw [hsource] at hks
    rw [g.hasKind_unique hids id source kind hks hkind] at hpairs
    rcases (g.hasKind_iff_node? hids e.target target).mp hkt with ⟨n, hn, hnkind⟩
    refine ⟨e, ⟨he, hsource⟩, ?_⟩
    simp only [hn, hnkind, hpairs, Bool.not_false]

/-- What identifies edges goes on to identify them when an edge is added that
    it does not relate to any other. -/
theorem eq_of_append (edges : List Edge) (new : Edge) (same : Edge → Edge → Prop)
    (hsymm : ∀ e f, same e f → same f e)
    (hold : ∀ e ∈ edges, ∀ f ∈ edges, same e f → e = f) (hnew : ∀ e ∈ edges, ¬ same e new) :
    ∀ e ∈ edges ++ [new], ∀ f ∈ edges ++ [new], same e f → e = f := by
  intro e he f hf hsame
  rcases List.mem_append.mp he with he | he
  · rcases List.mem_append.mp hf with hf | hf
    · exact hold e he f hf hsame
    · rw [List.mem_singleton.mp hf] at hsame
      exact absurd hsame (hnew e he)
  · rcases List.mem_append.mp hf with hf | hf
    · rw [List.mem_singleton.mp he] at hsame
      exact absurd (hsymm new f hsame) (hnew f hf)
    · rw [List.mem_singleton.mp he, List.mem_singleton.mp hf]

/-- An edge is admitted into a Wait only when nothing enters it yet. -/
theorem Admits.not_into_wait {g : Graph} {source target : NodeId} {m n : Node}
    (h : g.Admits source target m n) (hg : g.WellFormed) (e : Edge) (he : e ∈ g.edges) :
    ¬ (e.target = target ∧ g.HasKind e.target .wait) := by
  rintro ⟨htarget, hkind⟩
  rw [htarget] at hkind
  have hn : g.HasKind target n.kind :=
    (g.hasKind_iff_node? hg.ids_nodup _ _).mpr ⟨n, h.target_node, rfl⟩
  have hwait := g.hasKind_unique hg.ids_nodup target _ _ hn hkind
  have hnone := List.eq_nil_of_length_eq_zero (((admits_iff _ _).mp h.room).2 hwait)
  have hmem := (g.mem_incoming target e).mpr ⟨he, htarget⟩
  rw [hnone] at hmem
  exact List.not_mem_nil hmem

/-- A loose edge is admitted only when no other one leaves its source yet. -/
theorem Admits.not_both_loose {g : Graph} {source target : NodeId} {m n : Node}
    (h : g.Admits source target m n) (hg : g.WellFormed) (e : Edge) (he : e ∈ g.edges) :
    ¬ (e.source = source ∧ g.Loose e ∧ g.Loose ⟨source, target⟩) := by
  rintro ⟨hsource, hle, k, l, hk, hl, hne, hpairs⟩
  have hm : g.HasKind source m.kind :=
    (g.hasKind_iff_node? hg.ids_nodup _ _).mpr ⟨m, h.source_node, rfl⟩
  have hn : g.HasKind target n.kind :=
    (g.hasKind_iff_node? hg.ids_nodup _ _).mpr ⟨n, h.target_node, rfl⟩
  rw [g.hasKind_unique hg.ids_nodup source k m.kind hk hm] at hne hpairs
  rw [g.hasKind_unique hg.ids_nodup target l n.kind hl hn] at hpairs
  rcases h.accepted with hcond | ⟨_, hpairing | hnone⟩
  · exact hne hcond
  · rw [hpairs] at hpairing
    exact absurd hpairing (by simp only [Bool.false_eq_true, not_false_eq_true])
  · have hsome := (g.hasLooseEdge_iff hg.ids_nodup source m.kind hm hne).mpr ⟨e, he, hsource, hle⟩
    rw [hnone] at hsome
    exact absurd hsome (by simp only [Bool.false_eq_true, not_false_eq_true])

/-- An admitted edge keeps a graph well-formed. -/
theorem Admits.wellFormed {g : Graph} {source target : NodeId} {m n : Node}
    (h : g.Admits source target m n) (hg : g.WellFormed) :
    WellFormed { g with edges := g.edges ++ [⟨source, target⟩] } := by
  have hm : g.HasKind source m.kind :=
    (g.hasKind_iff_node? hg.ids_nodup _ _).mpr ⟨m, h.source_node, rfl⟩
  have hn : g.HasKind target n.kind :=
    (g.hasKind_iff_node? hg.ids_nodup _ _).mpr ⟨n, h.target_node, rfl⟩
  have hunique := g.hasKind_unique hg.ids_nodup
  have htrigger := ((admits_iff _ _).mp h.room).1
  -- What is said of each edge holds of the old ones and of the new one. What
  -- is said of two edges is left, and there one of them may be new.
  have heach : ∀ P : Edge → Prop, (∀ e ∈ g.edges, P e) → P ⟨source, target⟩ →
      ∀ e ∈ g.edges ++ [⟨source, target⟩], P e := by
    intro P hold hnew e he
    rcases List.mem_append.mp he with he | he
    · exact hold e he
    · rw [List.mem_singleton.mp he]
      exact hnew
  refine {
    ids_nodup := hg.ids_nodup
    one_trigger := hg.one_trigger
    trigger_first := heach _ hg.trigger_first fun hkind => htrigger (hunique target _ _ hn hkind)
    ends := heach _ hg.ends ⟨hm.hasNode, hn.hasNode, h.distinct⟩
    edges_nodup := ?_
    one_into_wait := ?_
    kinds := heach _ hg.kinds ?_
    one_loose := ?_ }
  · refine List.nodup_append.mpr ⟨hg.edges_nodup, List.nodup_singleton _, ?_⟩
    intro e he f hf heq
    rw [heq, List.mem_singleton.mp hf] at he
    exact h.fresh he
  · have hsame := eq_of_append g.edges ⟨source, target⟩
      (fun e f => e.target = f.target ∧ g.HasKind e.target .wait)
      (fun e f hef => ⟨hef.1.symm, hef.1 ▸ hef.2⟩)
      (fun e he f hf hef => hg.one_into_wait e he f hf hef.1 hef.2) (h.not_into_wait hg)
    exact fun e he f hf htarget hkind => hsame e he f hf ⟨htarget, hkind⟩
  · intro k l hk hl hne
    rw [hunique source k m.kind hk hm] at hne ⊢
    rw [hunique target l n.kind hl hn]
    rcases h.accepted with hcond | ⟨haccepts, _⟩
    · exact absurd hcond hne
    · exact haccepts
  · have hsame := eq_of_append g.edges ⟨source, target⟩
      (fun e f => e.source = f.source ∧ g.Loose e ∧ g.Loose f)
      (fun e f hef => ⟨hef.1.symm, hef.2.2, hef.2.1⟩)
      (fun e he f hf hef => hg.one_loose e he f hf hef.1 hef.2.1 hef.2.2) (h.not_both_loose hg)
    exact fun e he f hf hsource hle hlf => hsame e he f hf ⟨hsource, hle, hlf⟩

/-- No edge is refused that would keep the graph well-formed. -/
theorem exists_admits_of_wellFormed (g : Graph) (source target : NodeId)
    (h : WellFormed { g with edges := g.edges ++ [⟨source, target⟩] }) :
    ∃ m n, g.Admits source target m n := by
  have hnew : (⟨source, target⟩ : Edge) ∈ g.edges ++ [⟨source, target⟩] :=
    List.mem_append_right _ List.mem_cons_self
  have hold : ∀ e ∈ g.edges, e ∈ g.edges ++ [(⟨source, target⟩ : Edge)] :=
    fun e he => List.mem_append_left _ he
  have hids : (g.nodes.map (·.id)).Nodup := h.ids_nodup
  -- An old edge that the limits say is the new one would be a repetition.
  have hfresh : (⟨source, target⟩ : Edge) ∉ g.edges := by
    intro hmem
    have hdisjoint := (List.nodup_append.mp h.edges_nodup).2.2
    exact hdisjoint _ hmem _ List.mem_cons_self rfl
  rcases h.ends _ hnew with ⟨⟨m, hm, hmid⟩, ⟨n, hn, hnid⟩, hne⟩
  have hmkind : g.HasKind source m.kind := ⟨m, hm, hmid, rfl⟩
  have hnkind : g.HasKind target n.kind := ⟨n, hn, hnid, rfl⟩
  refine ⟨m, n, (g.node?_eq_some_iff hids source m).mpr ⟨hm, hmid⟩,
    (g.node?_eq_some_iff hids target n).mpr ⟨hn, hnid⟩, hne, hfresh, ?_, ?_⟩
  · refine (admits_iff _ _).mpr ⟨fun htrigger => ?_, fun hwait => ?_⟩
    · rw [htrigger] at hnkind
      exact h.trigger_first _ hnew hnkind
    · rw [hwait] at hnkind
      rw [List.length_eq_zero_iff, List.eq_nil_iff_forall_not_mem]
      intro e he
      rcases (g.mem_incoming target e).mp he with ⟨hin, htarget⟩
      rw [← htarget] at hnkind
      rw [h.one_into_wait e (hold e hin) _ hnew htarget hnkind] at hin
      exact hfresh hin
  · by_cases hcond : m.kind = .condition
    · exact Or.inl hcond
    · refine Or.inr ⟨h.kinds _ hnew m.kind n.kind hmkind hnkind hcond, ?_⟩
      cases hpairs : m.kind.pairs n.kind with
      | true => exact Or.inl rfl
      | false =>
          refine Or.inr (Bool.eq_false_iff.mpr fun hloose => ?_)
          rcases (g.hasLooseEdge_iff hids source m.kind hmkind hcond).mp hloose with
            ⟨e, he, hsource, hle⟩
          have hlnew : g.Loose ⟨source, target⟩ :=
            ⟨m.kind, n.kind, hmkind, hnkind, hcond, hpairs⟩
          rw [h.one_loose e (hold e he) _ hnew hsource hle hlnew] at he
          exact hfresh he

/-- An edge is admitted to a well-formed graph exactly when the graph stays
    well-formed. -/
theorem checkEdge_iff_wellFormed (g : Graph) (hg : g.WellFormed) (source target : NodeId) :
    g.checkEdge source target = .ok () ↔
      WellFormed { g with edges := g.edges ++ [⟨source, target⟩] } := by
  rw [checkEdge_eq_ok_iff]
  constructor
  · rintro ⟨m, n, h⟩
    exact h.wellFormed hg
  · exact g.exists_admits_of_wellFormed source target

theorem hasKind_append (g : Graph) (n : Node) (id : NodeId) (kind : Kind) :
    HasKind { g with nodes := g.nodes ++ [n] } id kind ↔
      g.HasKind id kind ∨ n.id = id ∧ n.kind = kind := by
  simp only [HasKind, List.mem_append, List.mem_singleton, or_and_right, exists_or,
    exists_eq_left]

theorem trigger?_isSome_iff (g : Graph) :
    g.trigger?.isSome = true ↔ ∃ id, g.HasKind id .trigger := by
  rw [trigger?, triggers, List.isSome_head?]
  constructor
  · intro hne
    rcases List.exists_mem_of_ne_nil _ hne with ⟨n, hn⟩
    rcases List.mem_filter.mp hn with ⟨hin, hkind⟩
    exact ⟨n.id, n, hin, rfl, of_decide_eq_true hkind⟩
  · rintro ⟨id, n, hn, _, hkind⟩
    exact List.ne_nil_of_mem (List.mem_filter.mpr ⟨hn, decide_eq_true hkind⟩)

/-- A node that keeps a graph well-formed has a new id and is no second
    Trigger. -/
theorem fresh_of_append_node (g : Graph) (n : Node)
    (h : WellFormed { g with nodes := g.nodes ++ [n] }) :
    ¬ g.HasNode n.id ∧ ¬ (n.kind = .trigger ∧ ∃ id, g.HasKind id .trigger) := by
  have hids := h.ids_nodup
  simp only [List.map_append, List.map_cons, List.map_nil] at hids
  have hfresh : ¬ g.HasNode n.id := by
    rintro ⟨m, hm, hid⟩
    have hmem := List.mem_map_of_mem (f := (·.id)) hm
    exact (List.nodup_append.mp hids).2.2 _ hmem _ List.mem_cons_self hid
  refine ⟨hfresh, ?_⟩
  rintro ⟨hkind, id, hid⟩
  have hnew : HasKind { g with nodes := g.nodes ++ [n] } n.id .trigger :=
    (g.hasKind_append n _ _).mpr (Or.inr ⟨rfl, hkind⟩)
  have hold : HasKind { g with nodes := g.nodes ++ [n] } id .trigger :=
    (g.hasKind_append n _ _).mpr (Or.inl hid)
  rw [h.one_trigger n.id id hnew hold] at hfresh
  exact hfresh hid.hasNode

/-- A node with a new id that is no second Trigger keeps a graph
    well-formed. -/
theorem WellFormed.append_node {g : Graph} (hg : g.WellFormed) (n : Node)
    (hfresh : ¬ g.HasNode n.id) (hsecond : ¬ (n.kind = .trigger ∧ ∃ id, g.HasKind id .trigger)) :
    WellFormed { g with nodes := g.nodes ++ [n] } := by
  -- No edge touches the new node, so its kind is asked for nowhere.
  have hnode : ∀ id kind, g.HasNode id →
      HasKind { g with nodes := g.nodes ++ [n] } id kind → g.HasKind id kind := by
    intro id kind hid hkind
    rcases (g.hasKind_append n id kind).mp hkind with hold | ⟨heq, _⟩
    · exact hold
    · rw [heq] at hfresh
      exact absurd hid hfresh
  have hgrow : ∀ id, g.HasNode id → HasNode { g with nodes := g.nodes ++ [n] } id := by
    rintro id ⟨m, hm, hid⟩
    exact ⟨m, List.mem_append_left _ hm, hid⟩
  have hloose : ∀ e ∈ g.edges, Loose { g with nodes := g.nodes ++ [n] } e → g.Loose e := by
    rintro e he ⟨k, l, hk, hl, hrest⟩
    have hends := hg.ends e he
    exact ⟨k, l, hnode _ _ hends.1 hk, hnode _ _ hends.2.1 hl, hrest⟩
  refine {
    ids_nodup := ?_
    one_trigger := ?_
    trigger_first := fun e he hkind =>
      hg.trigger_first e he (hnode _ _ (hg.ends e he).2.1 hkind)
    ends := fun e he => ?_
    edges_nodup := hg.edges_nodup
    one_into_wait := fun e he f hf htarget hkind =>
      hg.one_into_wait e he f hf htarget (hnode _ _ (hg.ends e he).2.1 hkind)
    kinds := fun e he k l hk hl =>
      hg.kinds e he k l (hnode _ _ (hg.ends e he).1 hk) (hnode _ _ (hg.ends e he).2.1 hl)
    one_loose := fun e he f hf hsource hle hlf =>
      hg.one_loose e he f hf hsource (hloose e he hle) (hloose f hf hlf) }
  · simp only [List.map_append, List.map_cons, List.map_nil]
    refine List.nodup_append.mpr ⟨hg.ids_nodup, List.nodup_singleton _, ?_⟩
    intro id hid id' hid' heq
    rcases List.mem_map.mp hid with ⟨m, hm, hmid⟩
    rw [List.mem_singleton.mp hid'] at heq
    exact hfresh ⟨m, hm, hmid.trans heq⟩
  · intro a b ha hb
    rcases (g.hasKind_append n a _).mp ha with ha | ⟨ha, hkind⟩
    · rcases (g.hasKind_append n b _).mp hb with hb | ⟨_, hkind⟩
      · exact hg.one_trigger a b ha hb
      · exact absurd ⟨hkind, a, ha⟩ hsecond
    · rcases (g.hasKind_append n b _).mp hb with hb | ⟨hb, _⟩
      · exact absurd ⟨hkind, b, hb⟩ hsecond
      · exact ha.symm.trans hb
  · have hends := hg.ends e he
    exact ⟨hgrow _ hends.1, hgrow _ hends.2.1, hends.2.2⟩

/-- What the rules of admission ask of a node: a new id, and no second
    Trigger. A graph stays well-formed exactly when they are kept. -/
theorem append_node_iff (g : Graph) (hg : g.WellFormed) (n : Node) :
    WellFormed { g with nodes := g.nodes ++ [n] } ↔
      ¬ g.HasNode n.id ∧ ¬ (n.kind = .trigger ∧ ∃ id, g.HasKind id .trigger) := by
  constructor
  · exact g.fresh_of_append_node n
  · rintro ⟨hfresh, hsecond⟩
    exact hg.append_node n hfresh hsecond

end Graph

namespace Session

/-- A node is added exactly when the graph stays well-formed. -/
theorem insertNode_eq_ok_iff (s : Session) (hs : s.graph.WellFormed) (n : Node) (s' : Session) :
    s.insertNode n = .ok s' ↔
      Graph.WellFormed { s.graph with nodes := s.graph.nodes ++ [n] } ∧
        s' = ⟨{ s.graph with nodes := s.graph.nodes ++ [n] }⟩ := by
  rw [s.graph.append_node_iff hs, ← s.graph.contains_iff, ← s.graph.trigger?_isSome_iff, insertNode,
    Graph.checkKind]
  by_cases hid : s.graph.contains n.id = true
  · rw [if_pos hid]
    simp only [hid, reduceCtorEq, not_true, false_and]
  · rw [if_neg hid]
    -- Only a second trigger is refused for its kind.
    by_cases hsecond : (n.kind = .trigger ∧ s.graph.trigger?.isSome = true)
    · simp only [hsecond.1, hsecond.2, decide_true, Bool.and_self, if_true, bind, Except.bind,
        reduceCtorEq, and_self, not_true, and_false, false_and]
    · have hcheck : ¬ (decide (n.kind = .trigger) && s.graph.trigger?.isSome) = true := by
        rw [Bool.and_eq_true, decide_eq_true_eq]
        exact hsecond
      simp only [if_neg hcheck, bind, Except.bind, pure, Except.pure, Except.ok.injEq, hid, hsecond,
        Bool.false_eq_true, not_false_iff, and_self, true_and]
      exact eq_comm

/-- An edge is added exactly when the graph stays well-formed. -/
theorem addEdge_eq_ok_iff (s : Session) (hs : s.graph.WellFormed) (source target : NodeId)
    (s' : Session) : s.addEdge source target = .ok s' ↔
      Graph.WellFormed { s.graph with edges := s.graph.edges ++ [⟨source, target⟩] } ∧
        s' = ⟨{ s.graph with edges := s.graph.edges ++ [⟨source, target⟩] }⟩ := by
  rw [← s.graph.checkEdge_iff_wellFormed hs, addEdge]
  cases hcheck : s.graph.checkEdge source target with
  | error r => simp only [bind, Except.bind, reduceCtorEq, false_and]
  | ok u =>
      simp only [bind, Except.bind, pure, Except.pure, Except.ok.injEq, true_and]
      exact eq_comm

/-- A fold of steps that succeed exactly for good lists succeeds exactly for
    good lists. The state after a list is given by a function of it. -/
theorem foldlM_eq_ok_iff {ι : Type} (step : Session → ι → Except Refusal Session)
    (state : List ι → Session) (good : List ι → Prop)
    (hstep : ∀ done x, good done →
      ∀ s, step (state done) x = .ok s ↔ good (done ++ [x]) ∧ s = state (done ++ [x]))
    (hstart : ∀ done rest, good (done ++ rest) → good done)
    (rest done : List ι) (hdone : good done) (s : Session) :
    rest.foldlM step (state done) = .ok s ↔ good (done ++ rest) ∧ s = state (done ++ rest) := by
  induction rest generalizing done with
  | nil =>
      simp only [List.foldlM_nil, List.append_nil, pure, Except.pure, Except.ok.injEq, hdone,
        true_and]
      exact eq_comm
  | cons x rest ih =>
      rw [List.foldlM_cons, List.append_cons]
      cases hx : step (state done) x with
      | error r =>
          -- The list is good up to the refused step only, so no longer one is.
          have hbad : ¬ good (done ++ [x] ++ rest) := by
            intro hgood
            have hok := (hstep done x hdone _).mpr ⟨hstart _ rest hgood, rfl⟩
            rw [hx] at hok
            exact absurd hok (by simp only [reduceCtorEq, not_false_eq_true])
          simp only [bind, Except.bind, reduceCtorEq, hbad, false_and]
      | ok next =>
          rcases (hstep done x hdone next).mp hx with ⟨hgood, hnext⟩
          rw [hnext]
          exact ih (done ++ [x]) hgood

/-- A stored graph loads exactly when it is well-formed, and the session then
    holds that graph. -/
theorem ofGraph_eq_ok_iff (g : Graph) (s : Session) :
    ofGraph g = .ok s ↔ g.WellFormed ∧ s.graph = g := by
  have hnodes : ∀ t, g.nodes.foldlM insertNode {} = .ok t ↔
      Graph.WellFormed ⟨g.nodes, []⟩ ∧ t = ⟨⟨g.nodes, []⟩⟩ :=
    foldlM_eq_ok_iff insertNode (fun nodes => ⟨⟨nodes, []⟩⟩)
      (fun nodes => Graph.WellFormed ⟨nodes, []⟩)
      (fun done n hdone => insertNode_eq_ok_iff ⟨⟨done, []⟩⟩ hdone n)
      (fun done rest h => h.of_nodes_append) g.nodes [] Graph.wellFormed_empty
  -- Edges are added to a graph that has its nodes already.
  have hedges : Graph.WellFormed ⟨g.nodes, []⟩ →
      (g.edges.foldlM (fun s e => s.addEdge e.source e.target) (⟨⟨g.nodes, []⟩⟩ : Session) = .ok s ↔
        g.WellFormed ∧ s = ⟨g⟩) := fun hstart =>
    foldlM_eq_ok_iff (fun s e => s.addEdge e.source e.target) (fun edges => ⟨⟨g.nodes, edges⟩⟩)
      (fun edges => Graph.WellFormed ⟨g.nodes, edges⟩)
      (fun done e hdone => addEdge_eq_ok_iff ⟨⟨g.nodes, done⟩⟩ hdone e.source e.target)
      (fun done rest h => h.of_edges_append) g.edges [] hstart s
  have hsession : s = ⟨g⟩ ↔ s.graph = g :=
    ⟨fun h => h ▸ rfl, fun h => h ▸ rfl⟩
  rw [ofGraph]
  cases hload : g.nodes.foldlM insertNode {} with
  | error r =>
      -- What is refused while nodes are added is not well formed without edges either.
      have hbad : ¬ g.WellFormed := by
        intro hg
        have hstart : Graph.WellFormed ⟨g.nodes, []⟩ := Graph.WellFormed.of_edges_append hg
        have hok := (hnodes _).mpr ⟨hstart, rfl⟩
        rw [hload] at hok
        exact absurd hok (by simp only [reduceCtorEq, not_false_eq_true])
      simp only [bind, Except.bind, reduceCtorEq, hbad, false_and]
  | ok t =>
      rcases (hnodes t).mp hload with ⟨hstart, ht⟩
      rw [ht, ← hsession]
      exact hedges hstart

end Session

end Workflow
