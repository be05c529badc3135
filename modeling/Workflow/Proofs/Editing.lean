import Workflow.Proofs.Auditing

/-!
# Sessions Stay Well-Formed

Whatever is done to a session, and in whatever order, its graph keeps the
rules of workflows.

An editor calls a session by seven edits and goes on with it when a call is
refused. The functions of a session return the session that results, and a
refusal carries none, so they cannot say what a refused call leaves behind.
`Edit.call` does: it works on one session in place, one check and one write
after the other, and what was written before a refusal would stay. `call_eq`
compares the two. No write comes before a check, so a refused call changes
nothing, and an accepted one leaves what the function returns.

Each edit keeps a graph well-formed for a reason of its own. What is added
has been admitted, which is the case of `insertNode_eq_ok_iff` and
`addEdge_eq_ok_iff`. What is left after a removal is part of a well-formed
graph, and the edges at a removed node go with it, so that none is left
without an end. And a change of a node touches neither its id nor its kind,
which is all that the rules ask of it.

## Main definitions

* `Edit`: A call of a session.
* `perform`: The session that an edit leads to.
* `InPlace`: A piece of a call that works on a session in place.
* `Edit.call`: An edit in place.
* `after`: What is left after an edit.
* `Reached`: The sessions that calls lead to.

## Theorems

* `WellFormed.of_keys`: Only the ids and the kinds of nodes matter.
* `perform_wellFormed`: An edit keeps a graph well-formed.
* `call_eq`: A call in place does what the function of the session says.
* `Reached.wellFormed`: The graph of a session is well-formed.
* `reached_sound`: What that means for audits, for loading and for refusals.
-/

namespace Workflow

namespace Graph

/-- The rules ask for the ids and the kinds of nodes and for nothing else
    about them. -/
theorem WellFormed.of_keys {g : Graph} (hg : g.WellFormed) (nodes : List Node)
    (hkeys : nodes.map (fun n => (n.id, n.kind)) = g.nodes.map (fun n => (n.id, n.kind))) :
    WellFormed { g with nodes := nodes } := by
  -- The ids and kinds are all that is asked of nodes.
  have hids : nodes.map (·.id) = g.nodes.map (·.id) := by
    have hfst := congrArg (List.map Prod.fst) hkeys
    rw [List.map_map, List.map_map] at hfst
    exact hfst
  have hkinds : ∀ id kind, HasKind { g with nodes := nodes } id kind ↔ g.HasKind id kind := by
    have hmem : ∀ h : Graph, ∀ id kind, h.HasKind id kind ↔
        (id, kind) ∈ h.nodes.map (fun n => (n.id, n.kind)) := by
      intro h id kind
      simp only [HasKind, List.mem_map, Prod.mk.injEq]
    intro id kind
    rw [hmem, hmem, hkeys]
  have hnode : ∀ id, g.HasNode id → HasNode { g with nodes := nodes } id := by
    intro id hid
    rcases hid.exists_hasKind with ⟨kind, hkind⟩
    exact ((hkinds id kind).mpr hkind).hasNode
  refine hg.of_subset (hids ▸ hg.ids_nodup) (fun id kind h => (hkinds id kind).mp h)
    hg.edges_nodup (List.Subset.refl _) ?_
  intro e he
  have hends := hg.ends e he
  exact ⟨hnode _ hends.1, hnode _ hends.2.1⟩

end Graph

namespace Session

/-- A call of a session. -/
inductive Edit
  | addNode (fresh : NodeId) (kind : Kind) (config : List (String × Json))
  | insertNode (n : Node)
  | removeNode (id : NodeId)
  | addEdge (source target : NodeId)
  | removeEdge (source target : NodeId)
  | updateConfig (id : NodeId) (config : Config)
  | moveNode (id : NodeId) (position : Position)

/-- The session that an edit leads to, unless it is refused. -/
def perform (s : Session) : Edit → Except Refusal Session
  | .addNode fresh kind config => s.addNode fresh kind config
  | .insertNode n => s.insertNode n
  | .removeNode id => .ok (s.removeNode id)
  | .addEdge source target => s.addEdge source target
  | .removeEdge source target => .ok (s.removeEdge source target)
  | .updateConfig id config => s.updateConfig id config
  | .moveNode id position => s.moveNode id position

/-- A piece of a call that works on a session in place. What it has written
    stays when it is refused afterwards. -/
abbrev InPlace := ExceptT Refusal (StateM Session) Unit

namespace InPlace

/-- Goes on when a check is passed. -/
def require (check : Graph → Except Refusal Unit) : InPlace := fun s => (check s.graph, s)

/-- Writes the nodes. -/
def writeNodes (change : List Node → List Node) : InPlace :=
  fun s => (.ok (), ⟨{ s.graph with nodes := change s.graph.nodes }⟩)

/-- Writes the edges. -/
def writeEdges (change : List Edge → List Edge) : InPlace :=
  fun s => (.ok (), ⟨{ s.graph with edges := change s.graph.edges }⟩)

/-- Adds a node. -/
def insertNode (n : Node) : InPlace := do
  require fun g => if g.contains n.id then .error .duplicateNode else .ok ()
  require fun g => g.checkKind n.kind
  writeNodes fun nodes => nodes ++ [n]

/-- Removes a node. The edges at it go when there are fewer nodes than
    before. -/
def removeNode (id : NodeId) : InPlace := do
  let before ← get
  writeNodes fun nodes => nodes.filter fun n => n.id ≠ id
  let after ← get
  if after.graph.nodes.length ≠ before.graph.nodes.length then
    writeEdges fun edges => edges.filter fun e => !e.touches id

/-- Adds an edge. -/
def addEdge (source target : NodeId) : InPlace := do
  require fun g => g.checkEdge source target
  writeEdges fun edges => edges ++ [⟨source, target⟩]

/-- Removes an edge. -/
def removeEdge (source target : NodeId) : InPlace :=
  writeEdges fun edges => edges.filter fun e => e ≠ ⟨source, target⟩

/-- Changes a node. -/
def changeNode (id : NodeId) (change : Node → Node) : InPlace := do
  require fun g => if g.contains id then .ok () else .error .unknownNode
  writeNodes (changeFirst id change)

end InPlace

/-- An edit in place. -/
def Edit.call : Edit → InPlace
  | .addNode fresh kind config => .insertNode ((Node.new fresh kind).withConfig config)
  | .insertNode n => .insertNode n
  | .removeNode id => .removeNode id
  | .addEdge source target => .addEdge source target
  | .removeEdge source target => .removeEdge source target
  | .updateConfig id config => .changeNode id fun n => { n with config := config }
  | .moveNode id position => .changeNode id fun n => { n with position := position }

/-- What is left after an edit, whether it was refused or not. -/
def after (s : Session) (e : Edit) : Session := (e.call s).2

/-- The sessions that calls lead to, from a new one or from one over a stored
    graph. -/
inductive Reached : Session → Prop
  | new : Reached {}
  | loaded (g : Graph) (s : Session) (h : ofGraph g = .ok s) : Reached s
  | edited (s : Session) (e : Edit) (h : Reached s) : Reached (s.after e)

/-- A change of a node that leaves its id and its kind alone leaves the ids and
    the kinds of all nodes alone. -/
theorem changeFirst_keys (id : NodeId) (change : Node → Node)
    (hkey : ∀ n : Node, (change n).id = n.id ∧ (change n).kind = n.kind) (nodes : List Node) :
    (changeFirst id change nodes).map (fun n => (n.id, n.kind)) =
      nodes.map (fun n => (n.id, n.kind)) := by
  induction nodes with
  | nil => rfl
  | cons n rest ih =>
      rw [changeFirst]
      by_cases hid : n.id = id
      · rw [if_pos hid, List.map_cons, List.map_cons, (hkey n).1, (hkey n).2]
      · rw [if_neg hid, List.map_cons, List.map_cons, ih]

/-- A changed node keeps its place in the rules. -/
theorem changeNode_wellFormed (s s' : Session) (hs : s.graph.WellFormed) (id : NodeId)
    (change : Node → Node) (hkey : ∀ n : Node, (change n).id = n.id ∧ (change n).kind = n.kind)
    (h : s.changeNode id change = .ok s') : s'.graph.WellFormed := by
  rw [changeNode] at h
  by_cases hid : s.graph.contains id = true
  · rw [if_pos hid, Except.ok.injEq] at h
    rw [← h]
    exact hs.of_keys _ (changeFirst_keys id change hkey s.graph.nodes)
  · rw [if_neg hid] at h
    exact absurd h (by simp only [reduceCtorEq, not_false_eq_true])

/-- The edges at a removed node go with it, so the ends of the others remain. -/
theorem removeNode_wellFormed (s : Session) (hs : s.graph.WellFormed) (id : NodeId) :
    (s.removeNode id).graph.WellFormed := by
  rw [removeNode]
  by_cases hid : s.graph.contains id = true
  · rw [if_pos hid]
    -- Only the removed node is no node any more.
    have hremains : ∀ other, other ≠ id → s.graph.HasNode other →
        Graph.HasNode ⟨s.graph.nodes.filter fun n => n.id ≠ id, []⟩ other := by
      rintro other hne ⟨n, hn, hother⟩
      refine ⟨n, List.mem_filter.mpr ⟨hn, ?_⟩, hother⟩
      rw [hother]
      exact decide_eq_true hne
    refine hs.of_subset ?_ ?_ (hs.edges_nodup.filter _) (List.filter_subset_self _) ?_
    · exact hs.ids_nodup.sublist (List.filter_sublist.map _)
    · rintro other kind ⟨n, hn, hkind⟩
      exact ⟨n, List.mem_of_mem_filter hn, hkind⟩
    · intro e he
      rcases List.mem_filter.mp he with ⟨hin, htouches⟩
      have hends := hs.ends e hin
      simp only [Edge.touches, Bool.not_eq_true', Bool.or_eq_false_iff, decide_eq_false_iff_not]
        at htouches
      exact ⟨hremains _ htouches.1 hends.1, hremains _ htouches.2 hends.2.1⟩
  · rw [if_neg hid]
    exact hs

theorem removeEdge_wellFormed (s : Session) (hs : s.graph.WellFormed) (source target : NodeId) :
    (s.removeEdge source target).graph.WellFormed := by
  refine hs.of_subset hs.ids_nodup (fun id kind h => h) (hs.edges_nodup.filter _)
    (List.filter_subset_self _) ?_
  intro e he
  have hends := hs.ends e (List.mem_of_mem_filter he)
  exact ⟨hends.1, hends.2.1⟩

theorem insertNode_wellFormed (s s' : Session) (hs : s.graph.WellFormed) (n : Node)
    (h : s.insertNode n = .ok s') : s'.graph.WellFormed := by
  rcases (s.insertNode_eq_ok_iff hs n s').mp h with ⟨hwell, hs'⟩
  rw [hs']
  exact hwell

theorem addEdge_wellFormed (s s' : Session) (hs : s.graph.WellFormed) (source target : NodeId)
    (h : s.addEdge source target = .ok s') : s'.graph.WellFormed := by
  rcases (s.addEdge_eq_ok_iff hs source target s').mp h with ⟨hwell, hs'⟩
  rw [hs']
  exact hwell

/-- An edit keeps a graph well-formed. -/
theorem perform_wellFormed (s s' : Session) (hs : s.graph.WellFormed) (e : Edit)
    (h : s.perform e = .ok s') : s'.graph.WellFormed := by
  cases e with
  | addNode fresh kind config => exact s.insertNode_wellFormed s' hs _ h
  | insertNode n => exact s.insertNode_wellFormed s' hs n h
  | removeNode id =>
      rw [← Except.ok.inj h]
      exact s.removeNode_wellFormed hs id
  | addEdge source target => exact s.addEdge_wellFormed s' hs source target h
  | removeEdge source target =>
      rw [← Except.ok.inj h]
      exact s.removeEdge_wellFormed hs source target
  | updateConfig id config =>
      exact s.changeNode_wellFormed s' hs id (fun n => { n with config := config })
        (fun n => ⟨rfl, rfl⟩) h
  | moveNode id position =>
      exact s.changeNode_wellFormed s' hs id (fun n => { n with position := position })
        (fun n => ⟨rfl, rfl⟩) h

/-- What a call answers and leaves, when it leads to a session or is refused
    and changes nothing. -/
def outcome (s : Session) : Except Refusal Session → Except Refusal Unit × Session
  | .ok s' => (.ok (), s')
  | .error r => (.error r, s)

namespace InPlace

/-- What follows a check sees its answer and the session it was given. -/
theorem require_bind (check : Graph → Except Refusal Unit) (rest : InPlace) (s : Session) :
    (require check >>= fun _ => rest) s = ExceptT.bindCont (fun _ => rest) (check s.graph) s :=
  rfl

/-- A check that is passed is followed by the rest of the call. -/
theorem require_ok (check : Graph → Except Refusal Unit) (rest : InPlace) (s : Session)
    (h : check s.graph = .ok ()) : (require check >>= fun _ => rest) s = rest s := by
  rw [require_bind, h]
  rfl

/-- A check that is not passed ends the call with nothing written. -/
theorem require_error (check : Graph → Except Refusal Unit) (rest : InPlace) (s : Session)
    (r : Refusal) (h : check s.graph = .error r) :
    (require check >>= fun _ => rest) s = (.error r, s) := by
  rw [require_bind, h]
  rfl

theorem insertNode_eq (n : Node) (s : Session) : insertNode n s = s.outcome (s.insertNode n) := by
  rw [insertNode, Session.insertNode]
  by_cases hid : s.graph.contains n.id = true
  · rw [require_error _ _ s .duplicateNode (if_pos hid), if_pos hid]
    rfl
  · rw [require_ok _ _ s (if_neg hid), if_neg hid]
    cases hcheck : s.graph.checkKind n.kind with
    | error r =>
        rw [require_error _ _ s r hcheck]
        rfl
    | ok u =>
        rw [require_ok _ _ s hcheck]
        rfl

theorem addEdge_eq (source target : NodeId) (s : Session) :
    addEdge source target s = s.outcome (s.addEdge source target) := by
  rw [addEdge, Session.addEdge]
  cases hcheck : s.graph.checkEdge source target with
  | error r =>
      rw [require_error _ _ s r hcheck]
      rfl
  | ok u =>
      rw [require_ok _ _ s hcheck]
      rfl

theorem changeNode_eq (id : NodeId) (change : Node → Node) (s : Session) :
    changeNode id change s = s.outcome (s.changeNode id change) := by
  rw [changeNode, Session.changeNode]
  by_cases hid : s.graph.contains id = true
  · rw [require_ok _ _ s (if_pos hid), if_pos hid]
    rfl
  · rw [require_error _ _ s .unknownNode (if_neg hid), if_neg hid]
    rfl

/-- Nothing is written when no node is removed, and the edges are looked for
    exactly when one is. -/
theorem removeNode_eq (id : NodeId) (s : Session) :
    removeNode id s = s.outcome (.ok (s.removeNode id)) := by
  -- Only nodes with the id are left out, so the number tells whether one was.
  have hstays : (s.graph.nodes.filter fun n => n.id ≠ id).length = s.graph.nodes.length ↔
      ¬ s.graph.contains id = true := by
    rw [s.graph.contains_iff, List.length_filter_eq_length_iff]
    simp only [decide_eq_true_eq, Graph.HasNode, not_exists, not_and]
  have hcall : removeNode id s =
      (if (s.graph.nodes.filter fun n => n.id ≠ id).length ≠ s.graph.nodes.length then
        writeEdges fun edges => edges.filter fun e => !e.touches id
      else pure ()) ⟨{ s.graph with nodes := s.graph.nodes.filter fun n => n.id ≠ id }⟩ := rfl
  rw [hcall, Session.removeNode]
  by_cases hid : s.graph.contains id = true
  · rw [if_pos (fun hlength => hstays.mp hlength hid), if_pos hid]
    rfl
  · have hlength := hstays.mpr hid
    rw [if_neg (not_not.mpr hlength), if_neg hid,
      List.filter_eq_self.mpr (List.length_filter_eq_length_iff.mp hlength)]
    rfl

end InPlace

/-- A call in place answers what the function of the session says. It leaves
    the session of the function, or when it is refused the one it was given. -/
theorem call_eq (s : Session) (e : Edit) : e.call s = s.outcome (s.perform e) := by
  cases e with
  | addNode fresh kind config => exact InPlace.insertNode_eq _ s
  | insertNode n => exact InPlace.insertNode_eq n s
  | removeNode id => exact InPlace.removeNode_eq id s
  | addEdge source target => exact InPlace.addEdge_eq source target s
  | removeEdge source target => rfl
  | updateConfig id config => exact InPlace.changeNode_eq id _ s
  | moveNode id position => exact InPlace.changeNode_eq id _ s

/-- A call keeps a graph well-formed, whether it is refused or not. -/
theorem after_wellFormed (s : Session) (hs : s.graph.WellFormed) (e : Edit) :
    (s.after e).graph.WellFormed := by
  rw [after, s.call_eq e]
  cases hperform : s.perform e with
  | ok s' => exact s.perform_wellFormed s' hs e hperform
  | error r => exact hs

/-- The graph of a session is well-formed, whatever was done to it. -/
theorem Reached.wellFormed (s : Session) (h : Reached s) : s.graph.WellFormed := by
  induction h with
  | new => exact Graph.wellFormed_empty
  | loaded g s hload =>
      rcases (ofGraph_eq_ok_iff g s).mp hload with ⟨hg, hs⟩
      rw [hs]
      exact hg
  | edited s e _ ih => exact s.after_wellFormed ih e

/-- Many calls lead from one session that can be reached to another. -/
theorem Reached.foldl (edits : List Edit) (s : Session) (h : Reached s) :
    Reached (edits.foldl after s) := by
  induction edits generalizing s with
  | nil => exact h
  | cons e rest ih =>
      rw [List.foldl_cons]
      exact ih (s.after e) (Reached.edited s e h)

/-- A session always holds a well-formed graph. An audit of it reports nothing
    fatal but cycles, it can be loaded again and gives the same session, and a
    call in place leaves what the function of the session says, which is the
    session itself when the call is refused. -/
theorem reached_sound (s : Session) (h : Reached s) :
    s.graph.WellFormed ∧ (∀ v ∈ s.graph.audit, v.isFatal = true → v.rule = .cycle) ∧
      ofGraph s.graph = .ok s ∧ (∀ e s', s.perform e = .ok s' → e.call s = (.ok (), s')) ∧
      ∀ e r, (e.call s).1 = .error r → s.perform e = .error r ∧ s.after e = s := by
  have hwell := h.wellFormed
  refine ⟨hwell, s.graph.audit_only_cycle_iff.mpr hwell,
    (ofGraph_eq_ok_iff s.graph s).mpr ⟨hwell, rfl⟩, fun e s' hperform => ?_, fun e r hcall => ?_⟩
  · rw [s.call_eq e, hperform]
    rfl
  -- A call that is refused is one that the edit refuses, and it leaves the graph.
  · rw [s.call_eq e] at hcall
    rw [after, s.call_eq e]
    cases hperform : s.perform e with
    | ok s' =>
        rw [hperform] at hcall
        exact absurd hcall (by simp only [outcome, reduceCtorEq, not_false_eq_true])
    | error r' =>
        rw [hperform] at hcall
        have hr : r' = r := Except.error.inj hcall
        rw [hr]
        exact ⟨rfl, rfl⟩

/-- A session after edits of all kinds. A second Trigger, a second loose edge,
    a second edge into a Wait and a change of a node that is gone are refused,
    and the removal of the store takes an edge with it. -/
def edited : Session :=
  List.foldl after {}
    [.addNode "start" .trigger [], .addNode "again" .trigger [], .addNode "file" .fileUpload [],
      .addNode "store" .qdrant [], .insertNode (Node.new "choice" .condition),
      .addNode "pause" .wait [], .addEdge "file" "store", .addEdge "file" "choice",
      .addEdge "file" "pause", .addEdge "choice" "pause", .addEdge "start" "pause",
      .addEdge "start" "choice", .addEdge "choice" "file", .removeNode "store",
      .removeEdge "start" "choice", .updateConfig "store" [],
      .moveNode "file" ⟨Binary64.zero true, Binary64.zero true⟩]

theorem reached_edited : Reached edited ∧
    edited.graph.ids = ["choice", "file", "pause", "start"] ∧
    edited.graph.edges = [⟨"file", "choice"⟩, ⟨"choice", "pause"⟩, ⟨"choice", "file"⟩] ∧
    edited.graph.WellFormed ∧ ofGraph edited.graph = .ok edited ∧
    edited.after (.addEdge "start" "pause") = edited := by
  have hreached : Reached edited := Reached.new.foldl _ _
  have hrefused : (Edit.call (.addEdge "start" "pause") edited).1 = .error .fanInExceeded := by
    decide +kernel
  rcases reached_sound edited hreached with ⟨hwell, _, hload, _, hcalls⟩
  exact ⟨hreached, by decide +kernel, by decide +kernel, hwell, hload, (hcalls _ _ hrefused).2⟩

end Session

end Workflow
