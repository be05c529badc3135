import Workflow.Proofs.Editing

/-!
# Taking Back and Putting Back

What was added to a session can be taken back, and what was taken away can be
put back.

An addition that was accepted is undone by one removal. A node that was
accepted has an id of its own, so only this node goes again, and no edge goes
with it, because every edge joins nodes that were there before. An edge that
was accepted was not there before, so it is the only one that goes. A whole
list of additions is undone by the removals in the reverse order (`undoAll`).

Putting back is another matter, as the rules look at everything there is. But
they only ever forbid: what is admitted beside some nodes and edges is admitted
beside fewer of them (`checkEdge_mono`). Well-formedness says this at once, as
parts of a well-formed graph are well-formed. So an edge that is admitted now
is admitted after any removals that leave its ends, and an edge that was
removed can be added again.

## Main definitions

* `PartOf`: What is left of a graph when something was removed.
* `Edit.undo?`: The removal that takes an addition back.
* `Edit.spares`: Edits that remove, but not this node.
* `Reversible`: What can be taken back and put back.

## Theorems

* `checkEdge_mono`: An edge that is admitted to a graph is admitted to its
  parts.
* `after_undo`: An addition is undone by one removal.
* `undoAll`: A list of additions is undone by the removals in reverse order.
* `after_partOf`, `foldl_partOf`: What removals leave is a part.
* `reached_reversible`: What can be taken back and put back in a session.
-/

namespace Workflow

namespace Graph

/-- A graph is what is left of another one when something was removed. -/
structure PartOf (h g : Graph) : Prop where
  nodes : h.nodes.Sublist g.nodes
  edges : h.edges.Sublist g.edges

theorem PartOf.refl (g : Graph) : g.PartOf g := ⟨List.Sublist.refl _, List.Sublist.refl _⟩

theorem PartOf.trans {f h g : Graph} (hf : f.PartOf h) (hh : h.PartOf g) : f.PartOf g :=
  ⟨hf.nodes.trans hh.nodes, hf.edges.trans hh.edges⟩

theorem PartOf.hasKind {h g : Graph} (hpart : h.PartOf g) (id : NodeId) (kind : Kind)
    (hkind : h.HasKind id kind) : g.HasKind id kind := by
  rcases hkind with ⟨n, hn, hid⟩
  exact ⟨n, hpart.nodes.subset hn, hid⟩

/-- An edge that is admitted to a graph is admitted to the parts that have its
    ends. -/
theorem checkEdge_mono {h g : Graph} (hpart : h.PartOf g) (hg : g.WellFormed)
    (hh : h.WellFormed) (source target : NodeId) (hsource : h.HasNode source)
    (htarget : h.HasNode target) (hadmitted : g.checkEdge source target = .ok ()) :
    h.checkEdge source target = .ok () := by
  rw [checkEdge_iff_wellFormed _ hg] at hadmitted
  rw [checkEdge_iff_wellFormed _ hh]
  have hsub := hpart.edges.append (List.Sublist.refl [(⟨source, target⟩ : Edge)])
  -- Of the graph with the edge, the part with the edge is a part again.
  refine hadmitted.of_subset hh.ids_nodup hpart.hasKind (hadmitted.edges_nodup.sublist hsub)
    hsub.subset ?_
  intro e he
  rcases List.mem_append.mp he with hold | hnew
  · have hends := hh.ends e hold
    exact ⟨hends.1, hends.2.1⟩
  · rw [List.mem_singleton.mp hnew]
    exact ⟨hsource, htarget⟩

end Graph

namespace Session

/-- The removal that takes an addition back. -/
def Edit.undo? : Edit → Option Edit
  | .addNode fresh _ _ => some (.removeNode fresh)
  | .insertNode n => some (.removeNode n.id)
  | .addEdge source target => some (.removeEdge source target)
  | _ => none

/-- Edits that remove something, but not the node with an id. -/
def Edit.spares (id : NodeId) : Edit → Prop
  | .removeNode other => other ≠ id
  | .removeEdge _ _ => True
  | _ => False

/-- What is left after an edit that was accepted. -/
theorem after_of_perform {s s' : Session} {e : Edit} (h : s.perform e = .ok s') :
    s.after e = s' := by
  rw [after, s.call_eq e, h]
  rfl

/-- A call that answers well was accepted. -/
theorem perform_of_call (s : Session) (e : Edit) (h : (e.call s).1 = .ok ()) :
    s.perform e = .ok (s.after e) := by
  rw [after, s.call_eq e] at *
  cases hperform : s.perform e with
  | ok s' => rfl
  | error r =>
      rw [hperform] at h
      exact absurd h (by simp only [outcome, reduceCtorEq, not_false_eq_true])

theorem after_removeNode (s : Session) (id : NodeId) :
    s.after (.removeNode id) = s.removeNode id := after_of_perform rfl

theorem after_removeEdge (s : Session) (source target : NodeId) :
    s.after (.removeEdge source target) = s.removeEdge source target := after_of_perform rfl

/-- A node that was added can be removed, and nothing else goes with it. -/
theorem removeNode_of_insertNode {s s' : Session} (hs : s.graph.WellFormed) (n : Node)
    (h : s.insertNode n = .ok s') : s'.removeNode n.id = s := by
  rcases (s.insertNode_eq_ok_iff hs n s').mp h with ⟨hwell, rfl⟩
  have hfresh := (s.graph.fresh_of_append_node n hwell).1
  have hnodes : s.graph.nodes.filter (fun m => m.id ≠ n.id) = s.graph.nodes :=
    List.filter_eq_self.mpr fun m hm => decide_eq_true fun hid => hfresh ⟨m, hm, hid⟩
  have hedges : s.graph.edges.filter (fun e => !e.touches n.id) = s.graph.edges := by
    rw [List.filter_eq_self]
    intro e he
    -- An edge joins nodes that were there before.
    have hends := hs.ends e he
    simp only [Edge.touches, Bool.not_eq_true', Bool.or_eq_false_iff, decide_eq_false_iff_not]
    exact ⟨fun hid => hfresh (hid ▸ hends.1), fun hid => hfresh (hid ▸ hends.2.1)⟩
  have hthere : Graph.contains { s.graph with nodes := s.graph.nodes ++ [n] } n.id = true :=
    (Graph.contains_iff _ _).mpr ⟨n, List.mem_append_right _ List.mem_cons_self, rfl⟩
  simp only [removeNode, if_pos hthere, List.filter_append, hnodes, hedges, List.filter_cons, ne_eq,
    not_true_eq_false, decide_false, Bool.false_eq_true, if_false, List.filter_nil,
    List.append_nil]

/-- An edge that was added can be removed, and no other one goes with it. -/
theorem removeEdge_of_addEdge {s s' : Session} (hs : s.graph.WellFormed) (source target : NodeId)
    (h : s.addEdge source target = .ok s') : s'.removeEdge source target = s := by
  rcases (s.addEdge_eq_ok_iff hs source target s').mp h with ⟨hwell, rfl⟩
  have hfresh := (List.nodup_append.mp hwell.edges_nodup).2.2
  have hold : s.graph.edges.filter (fun e => e ≠ ⟨source, target⟩) = s.graph.edges :=
    List.filter_eq_self.mpr fun e he => decide_eq_true (hfresh e he _ List.mem_cons_self)
  simp only [removeEdge, List.filter_append, hold, List.filter_cons, ne_eq, not_true_eq_false,
    decide_false, Bool.false_eq_true, if_false, List.filter_nil, List.append_nil]

/-- An addition is undone by one removal. -/
theorem after_undo {s s' : Session} (hs : s.graph.WellFormed) (e u : Edit)
    (hundo : e.undo? = some u) (h : s.perform e = .ok s') : s'.after u = s := by
  cases e with
  | addNode fresh kind config =>
      rw [← Option.some.inj hundo, after_removeNode]
      exact removeNode_of_insertNode hs ((Node.new fresh kind).withConfig config) h
  | insertNode n =>
      rw [← Option.some.inj hundo, after_removeNode]
      exact removeNode_of_insertNode hs n h
  | addEdge source target =>
      rw [← Option.some.inj hundo, after_removeEdge]
      exact removeEdge_of_addEdge hs source target h
  | removeNode | removeEdge | updateConfig | moveNode => exact absurd hundo nofun

/-- A list of additions is undone by the removals in reverse order. -/
theorem undoAll {s s' : Session} (hs : s.graph.WellFormed) (edits : List Edit)
    (hundo : ∀ e ∈ edits, e.undo?.isSome = true) (h : edits.foldlM perform s = .ok s') :
    (edits.reverse.filterMap Edit.undo?).foldl after s' = s := by
  induction edits generalizing s with
  | nil => exact (Except.ok.inj h).symm
  | cons e rest ih =>
      rw [List.foldlM_cons] at h
      cases hfirst : s.perform e with
      | error r =>
          rw [hfirst] at h
          exact absurd h nofun
      | ok next =>
          rw [hfirst] at h
          rcases Option.isSome_iff_exists.mp (hundo e List.mem_cons_self) with ⟨u, hu⟩
          have hrest := ih (s.perform_wellFormed next hs e hfirst)
            (fun f hf => hundo f (List.mem_cons_of_mem e hf)) h
          -- The first addition is the last one to be undone.
          rw [List.reverse_cons, List.filterMap_append, List.foldl_append, hrest,
            List.filterMap_cons_some hu]
          exact after_undo hs e u hu hfirst

theorem removeNode_partOf (s : Session) (id : NodeId) : (s.removeNode id).graph.PartOf s.graph := by
  rw [removeNode]
  split
  · exact ⟨List.filter_sublist, List.filter_sublist⟩
  · exact .refl _

theorem removeNode_hasNode (s : Session) (id other : NodeId) (hne : other ≠ id)
    (h : s.graph.HasNode id) : (s.removeNode other).graph.HasNode id := by
  rw [removeNode]
  split
  · rcases h with ⟨n, hn, rfl⟩
    exact ⟨n, List.mem_filter.mpr ⟨hn, decide_eq_true hne.symm⟩, rfl⟩
  · exact h

/-- What a removal leaves is a part, with every node that it spares. -/
theorem after_partOf (s : Session) (e : Edit) (id : NodeId) (hspares : e.spares id)
    (hid : s.graph.HasNode id) :
    (s.after e).graph.PartOf s.graph ∧ (s.after e).graph.HasNode id := by
  cases e with
  | removeNode other =>
      rw [after_removeNode]
      exact ⟨s.removeNode_partOf other, s.removeNode_hasNode id other hspares hid⟩
  | removeEdge source target =>
      rw [after_removeEdge]
      exact ⟨⟨List.Sublist.refl _, List.filter_sublist⟩, hid⟩
  | addNode | insertNode | addEdge | updateConfig | moveNode => exact hspares.elim

/-- So is what many removals leave. -/
theorem foldl_partOf (edits : List Edit) (s : Session) (id : NodeId)
    (hspares : ∀ e ∈ edits, e.spares id) (hid : s.graph.HasNode id) :
    (edits.foldl after s).graph.PartOf s.graph ∧ (edits.foldl after s).graph.HasNode id := by
  induction edits generalizing s with
  | nil => exact ⟨.refl _, hid⟩
  | cons e rest ih =>
      rcases s.after_partOf e id (hspares e List.mem_cons_self) hid with ⟨hpart, hstays⟩
      rcases ih (s.after e) (fun f hf => hspares f (List.mem_cons_of_mem e hf)) hstays with
        ⟨hrest, hlast⟩
      exact ⟨hrest.trans hpart, hlast⟩

/-- An edge that was removed can be added again, and comes to stand last. -/
theorem addEdge_of_removeEdge (s : Session) (hs : s.graph.WellFormed) (e : Edge)
    (he : e ∈ s.graph.edges) :
    ∃ s', (s.removeEdge e.source e.target).addEdge e.source e.target = .ok s' ∧
      s'.graph.nodes = s.graph.nodes ∧ s'.graph.edges.Perm s.graph.edges := by
  have hperm : (s.graph.edges.filter (fun f => f ≠ e) ++ [e]).Perm s.graph.edges := by
    -- The edge is there only once, so filtering takes out one edge.
    have herase : s.graph.edges.filter (fun f => f ≠ e) = s.graph.edges.erase e := by
      rw [hs.edges_nodup.erase_eq_filter]
      exact List.filter_congr fun f _ => by simp only [bne, ne_eq, decide_not, beq_eq_decide]
    rw [herase]
    exact (List.perm_append_singleton e _).trans (List.perm_cons_erase he).symm
  have hremoved := s.removeEdge_wellFormed hs e.source e.target
  -- The graph has the same edges in another order, and their order is of no importance.
  have hadded := (addEdge_eq_ok_iff _ hremoved e.source e.target _).mpr
    ⟨hs.of_perm _ hperm, rfl⟩
  exact ⟨_, hadded, rfl, hperm⟩

/-- What can be taken back and put back. An accepted addition is undone by one
    removal, and a list of them by the removals in reverse order. An edge that is
    admitted stays so whatever else is removed. And an edge that is there can be
    removed and added again, which leaves the nodes as they are and the edges up
    to their order. -/
structure Reversible (s : Session) : Prop where
  undo : ∀ (e u : Edit), e.undo? = some u → (e.call s).1 = .ok () → (s.after e).after u = s
  undoAll : ∀ (edits : List Edit) (s' : Session), (∀ e ∈ edits, e.undo?.isSome = true) →
    edits.foldlM perform s = .ok s' → (edits.reverse.filterMap Edit.undo?).foldl after s' = s
  admitted : ∀ source target (edits : List Edit), s.graph.checkEdge source target = .ok () →
    (∀ e ∈ edits, e.spares source ∧ e.spares target) →
    (edits.foldl after s).graph.checkEdge source target = .ok ()
  putBack : ∀ e ∈ s.graph.edges, ∀ s', s' = s.after (.removeEdge e.source e.target) →
    ((Edit.addEdge e.source e.target).call s').1 = .ok () ∧
    (s'.after (.addEdge e.source e.target)).graph.nodes = s.graph.nodes ∧
    (s'.after (.addEdge e.source e.target)).graph.edges.Perm s.graph.edges

/-- What can be taken back and put back in a session. -/
theorem reached_reversible (s : Session) (h : Reached s) : Reversible s := by
  have hs := h.wellFormed
  refine {
    undo := fun e u hundo hcall => after_undo hs e u hundo (s.perform_of_call e hcall)
    undoAll := fun edits s' hundo hall => Session.undoAll hs edits hundo hall
    admitted := fun source target edits hadmitted hspares => ?_
    putBack := fun e he s' hremoved => ?_ }
  · rcases (s.graph.checkEdge_eq_ok_iff source target).mp hadmitted with ⟨m, n, hadmits⟩
    -- Both ends are there, and the removals have spared them.
    have hends : s.graph.HasNode source ∧ s.graph.HasNode target :=
      ⟨⟨m, s.graph.mem_of_node? source m hadmits.source_node⟩,
        ⟨n, s.graph.mem_of_node? target n hadmits.target_node⟩⟩
    rcases foldl_partOf edits s source (fun e he => (hspares e he).1) hends.1 with ⟨hpart, hsource⟩
    have htarget := (foldl_partOf edits s target (fun e he => (hspares e he).2) hends.2).2
    exact Graph.checkEdge_mono hpart hs (h.foldl edits s).wellFormed source target hsource htarget
      hadmitted
  -- What was taken out can be added, and stands last then.
  · rcases s.addEdge_of_removeEdge hs e he with ⟨last, hadd, hnodes, hedges⟩
    have hperform : s'.perform (.addEdge e.source e.target) = .ok last := by
      rw [hremoved, after_removeEdge]
      exact hadd
    rw [after_of_perform hperform, s'.call_eq, hperform]
    exact ⟨rfl, hnodes, hedges⟩

theorem reached_reversible_edited : Reached edited ∧ Reversible edited ∧
    edited.graph.checkEdge "start" "choice" = .ok () ∧
    (List.foldl after edited [.removeNode "pause", .removeEdge "file" "choice"]).graph.checkEdge
      "start" "choice" = .ok () ∧
    ((edited.after (.addEdge "start" "choice")).after (.removeEdge "start" "choice")) = edited := by
  have hreached : Reached edited := Reached.new.foldl _ _
  have hreversible := reached_reversible edited hreached
  have hadmitted : edited.graph.checkEdge "start" "choice" = .ok () := by decide +kernel
  refine ⟨hreached, hreversible, hadmitted, hreversible.admitted _ _ _ hadmitted ?_,
    hreversible.undo _ _ rfl (by decide +kernel)⟩
  simp only [List.mem_cons, List.not_mem_nil, or_false, forall_eq_or_imp, forall_eq, Edit.spares,
    ne_eq, String.reduceEq, not_false_eq_true, and_self]

end Session

end Workflow
