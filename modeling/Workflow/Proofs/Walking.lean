import Workflow.Proofs.Auditing

/-!
# Auditing in One Walk

An audit says what is wrong with a graph by sets: the edges that are proper, those
that are listed more than once, how many enter a node. All of that can be found in
one walk over the edges as they are listed. The walk keeps which edges it has
counted and two tallies, reports an edge as soon as it sees what is wrong with it,
and passes over the rest of what is asked of an edge once it has reported it.

What the walk keeps depends on the order in which it goes, and so does what it
finds first: of edges that are the same, the first one is counted and the later
ones are blamed. `Walked` says what holds after every edge, and `Walked.visit` is
the step. At the end the same violations were found as by sets
(`auditOnWalk_eq`), so nothing is left of the order.

## Main definitions

* `Entries.bump`, `Entries.Counts`: A tally of keys.
* `Tally`: What a walk keeps.
* `Graph.visit`, `Graph.walk`: The walk, edge after edge.
* `Graph.reportsOf`: What is reported at its end.
* `Graph.auditOnWalk`: An audit in one walk.
* `Walked`: What a walk has found so far.

## Theorems

* `Entries.Counts.bump`, `Entries.Counts.mem_iff`: Tallies count.
* `mem_auditRepeats_append`: Who is blamed when one more edge is listed.
* `Walked.visit`, `walked_foldl`: One step of a walk, and all of them.
* `seen_perm`, `mem_incoming_iff`, `mem_loose_iff`: What a walk has counted.
* `mem_reportsOf_walk_iff`: What a walk reports.
* `auditOnWalk_eq`: An audit is one walk.
-/

namespace Workflow

namespace Entries

/-- One more of a key. -/
def bump (key : String) (counts : Entries Nat) : Entries Nat :=
  counts.insert key ((find? key counts).getD 0 + 1)

/-- How often each of the keys is listed. -/
structure Counts (counts : Entries Nat) (keys : List String) : Prop where
  ordered : Ordered counts
  found : ∀ key, find? key counts = if key ∈ keys then some (keys.count key) else none

theorem counts_nil : Counts [] [] where
  ordered := List.Pairwise.nil
  found := fun _ => rfl

/-- Counting goes on with one more key. -/
theorem Counts.bump {counts : Entries Nat} {keys : List String} (h : Counts counts keys)
    (key : String) : Counts (counts.bump key) (key :: keys) where
  ordered := ordered_insert h.ordered _ _
  found := fun other => by
    -- A key that was not counted is not in the tally, and stands for zero.
    have hbefore : (find? key counts).getD 0 = keys.count key := by
      rw [h.found]
      by_cases hmem : key ∈ keys
      · rw [if_pos hmem, Option.getD_some]
      · rw [if_neg hmem, Option.getD_none, List.count_eq_zero_of_not_mem hmem]
    rw [Entries.bump, find?_insert, hbefore, h.found]
    by_cases hkey : key = other
    · rw [if_pos hkey, ← hkey, if_pos List.mem_cons_self, List.count_cons_self]
    · have hmem : other ∈ key :: keys ↔ other ∈ keys :=
        List.mem_cons.trans (or_iff_right fun heq => hkey heq.symm)
      rw [if_neg hkey, List.count_cons_of_ne hkey]
      simp only [hmem]

/-- The entries of a tally are the keys that are listed at all. -/
theorem Counts.mem_iff {counts : Entries Nat} {keys : List String} (h : Counts counts keys)
    (key : String) (n : Nat) : (key, n) ∈ counts ↔ n = keys.count key ∧ 0 < n := by
  -- Every id is counted once.
  have hkeys : (Entries.keys counts).Nodup := by
    refine List.pairwise_map.mpr (h.ordered.imp ?_)
    intro a b hlt heq
    rw [heq] at hlt
    exact String.lt_irrefl _ hlt
  rw [← find?_eq_some_iff counts hkeys, h.found]
  -- An id that does not occur has no entry, and its count is zero.
  by_cases hmem : key ∈ keys
  · have hpos := List.count_pos_iff.mpr hmem
    rw [if_pos hmem, Option.some.injEq]
    constructor
    · rintro rfl
      exact ⟨rfl, hpos⟩
    · exact fun heq => heq.1.symm
  · rw [if_neg hmem, List.count_eq_zero_of_not_mem hmem]
    constructor
    · exact fun heq => absurd heq nofun
    · rintro ⟨rfl, hpos⟩
      exact absurd hpos (Nat.lt_irrefl 0)

end Entries

/-- What a walk over the edges keeps: the edges that it has counted, how many of
    them enter a node and how many loose ones leave it, and what it has found. -/
structure Tally where
  seen : List Edge := []
  incoming : Entries Nat := []
  loose : Entries Nat := []
  found : List Violation := []

namespace Graph

/-- An edge between two different existing nodes. -/
def isProper (g : Graph) (e : Edge) : Bool :=
  g.contains e.source && g.contains e.target && !e.isSelfLoop

/-- The report of an edge that is listed again. -/
def repeatReport (e : Edge) : Violation :=
  .fatal .duplicateEdge [e.source, e.target]
    ("edge " ++ e.source ++ " -> " ++ e.target ++ " appears more than once")

/-- The report of a number of edges that enter a node. -/
def fanInReport (g : Graph) (id : NodeId) (count : Nat) : List Violation :=
  match g.node? id with
  | some n =>
      if n.kind.capability.maxIncoming.admits (count - 1) then []
      else
        [.fatal .fanInExceeded [id]
          (n.kind.label ++ " node " ++ id ++ " has " ++ toString count ++ " incoming edges")]
  | none => []

/-- The report of a number of loose edges that leave a node. -/
def fanOutReport (id : NodeId) (count : Nat) : List Violation :=
  if 1 < count then
    [.fatal .fanOutExceeded [id]
      ("node " ++ id ++ " has " ++ toString count ++ " outgoing edges")]
  else []

/-- One edge of a walk. An edge that is not proper or was counted already is
    reported and not counted. -/
def visit (g : Graph) (t : Tally) (e : Edge) : Tally :=
  if !g.isProper e then { t with found := t.found ++ g.auditEdge e }
  else if t.seen.contains e then { t with found := t.found ++ [repeatReport e] }
  else {
    seen := e :: t.seen
    incoming := t.incoming.bump e.target
    loose := if g.isLoose e then t.loose.bump e.source else t.loose
    found := t.found ++ g.auditKinds e }

/-- The walk over all edges. -/
def walk (g : Graph) : Tally := g.edges.foldl g.visit {}

/-- What is reported at the end of a walk: what was found on it, and what the
    tallies show. -/
def reportsOf (g : Graph) (t : Tally) : List Violation :=
  t.found ++ t.incoming.flatMap (fun entry => g.fanInReport entry.1 entry.2)
    ++ t.loose.flatMap fun entry => fanOutReport entry.1 entry.2

/-- An audit that goes over the edges once. -/
def auditOnWalk (g : Graph) : List Violation :=
  Violation.sorted <|
    g.auditIds ++ g.auditTriggers ++ g.reportsOf g.walk ++ g.auditCycle ++ g.auditOrphans

/-- What a walk has counted and found after some edges. -/
structure Walked (g : Graph) (walked : List Edge) (t : Tally) : Prop where
  nodup : t.seen.Nodup
  seen : ∀ e, e ∈ t.seen ↔ e ∈ walked.filter g.isProper
  incoming : t.incoming.Counts (t.seen.map (·.target))
  loose : t.loose.Counts ((t.seen.filter g.isLoose).map (·.source))
  found : ∀ v, v ∈ t.found ↔ v ∈ walked.flatMap g.auditEdge ∨
    v ∈ auditRepeats (walked.filter g.isProper) ∨ v ∈ t.seen.flatMap g.auditKinds

theorem walked_nil (g : Graph) : g.Walked [] {} where
  nodup := List.nodup_nil
  seen := fun _ => Iff.rfl
  incoming := Entries.counts_nil
  loose := Entries.counts_nil
  found := fun v => by
    simp only [List.flatMap_nil, List.filter_nil, auditRepeats, List.map_nil, List.not_mem_nil,
      or_self]

theorem mem_auditRepeats_iff (edges : List Edge) (v : Violation) :
    v ∈ auditRepeats edges ↔ ∃ e, 1 < edges.count e ∧ v = repeatReport e := by
  simp only [auditRepeats, List.mem_map, List.mem_filter, decide_eq_true_eq]
  constructor
  · rintro ⟨e, ⟨_, hcount⟩, rfl⟩
    exact ⟨e, hcount, rfl⟩
  · rintro ⟨e, hcount, rfl⟩
    exact ⟨e, ⟨List.count_pos_iff.mp (by omega), hcount⟩, rfl⟩

/-- One more edge is blamed when it was listed before. -/
theorem mem_auditRepeats_append (edges : List Edge) (e : Edge) (v : Violation) :
    v ∈ auditRepeats (edges ++ [e]) ↔
      v ∈ auditRepeats edges ∨ e ∈ edges ∧ v = repeatReport e := by
  simp only [mem_auditRepeats_iff, List.count_append, List.count_singleton, beq_iff_eq]
  constructor
  -- A report was there before, or the new edge has made it the second of its kind.
  · rintro ⟨f, hcount, rfl⟩
    by_cases hef : e = f
    · rw [if_pos hef] at hcount
      rw [hef]
      exact Or.inr ⟨List.count_pos_iff.mp (by omega), rfl⟩
    · rw [if_neg hef] at hcount
      exact Or.inl ⟨f, hcount, rfl⟩
  · rintro (⟨f, hcount, rfl⟩ | ⟨hmem, rfl⟩)
    · exact ⟨f, by omega, rfl⟩
    · have hpos := List.count_pos_iff.mpr hmem
      refine ⟨e, ?_, rfl⟩
      rw [if_pos rfl]
      omega

/-- A proper edge is not reported on its own. -/
theorem auditEdge_eq_nil_of_isProper (g : Graph) (e : Edge) (h : g.isProper e = true) :
    g.auditEdge e = [] := by
  rw [isProper, Bool.and_eq_true, Bool.not_eq_true'] at h
  rw [auditEdge, h.1, h.2]
  rfl

/-- One step of a walk. -/
theorem Walked.visit {g : Graph} {walked : List Edge} {t : Tally} (h : g.Walked walked t)
    (e : Edge) : g.Walked (walked ++ [e]) (g.visit t e) := by
  rw [Graph.visit]
  by_cases hproper : g.isProper e = true
  · have hfilter : (walked ++ [e]).filter g.isProper = walked.filter g.isProper ++ [e] := by
      rw [List.filter_append, List.filter_singleton, hproper]
      rfl
    rw [hproper, Bool.not_true, if_neg Bool.false_ne_true]
    by_cases hseen : e ∈ t.seen
    -- The edge was counted, so it is blamed and nothing else changes.
    · rw [if_pos (List.contains_iff_mem.mpr hseen)]
      exact {
        nodup := h.nodup
        seen := fun f => by
          rw [hfilter, List.mem_append, List.mem_singleton, ← h.seen]
          constructor
          · exact Or.inl
          · rintro (hf | rfl)
            · exact hf
            · exact hseen
        incoming := h.incoming
        loose := h.loose
        found := fun v => by
          rw [hfilter, mem_auditRepeats_append, ← h.seen, List.flatMap_append,
            List.flatMap_singleton, g.auditEdge_eq_nil_of_isProper e hproper, List.append_nil,
            List.mem_append, h.found, List.mem_singleton]
          simp only [hseen, true_and]
          tauto }
    -- The edge is counted, and nothing was reported of it so far.
    · rw [if_neg fun hcontains => hseen (List.contains_iff_mem.mp hcontains)]
      exact {
        nodup := List.nodup_cons.mpr ⟨hseen, h.nodup⟩
        seen := fun f => by
          rw [hfilter, List.mem_append, List.mem_singleton, List.mem_cons, h.seen]
          exact or_comm
        incoming := h.incoming.bump e.target
        loose := by
          by_cases hloose : g.isLoose e = true
          · rw [if_pos hloose, List.filter_cons_of_pos hloose]
            exact h.loose.bump e.source
          · rw [if_neg hloose, List.filter_cons_of_neg hloose]
            exact h.loose
        found := fun v => by
          rw [hfilter, mem_auditRepeats_append, ← h.seen, List.flatMap_append,
            List.flatMap_singleton, g.auditEdge_eq_nil_of_isProper e hproper, List.append_nil,
            List.mem_append, h.found, List.flatMap_cons, List.mem_append]
          simp only [hseen, false_and, or_false]
          tauto }
  -- The edge is not proper, so it is reported on its own and left out.
  · have hfilter : (walked ++ [e]).filter g.isProper = walked.filter g.isProper := by
      rw [List.filter_append, List.filter_singleton, (Bool.not_eq_true _).mp hproper]
      exact List.append_nil _
    rw [(Bool.not_eq_true _).mp hproper, Bool.not_false, if_pos rfl]
    exact {
      nodup := h.nodup
      seen := fun f => by
        rw [hfilter]
        exact h.seen f
      incoming := h.incoming
      loose := h.loose
      found := fun v => by
        rw [hfilter, List.flatMap_append, List.flatMap_singleton, List.mem_append,
          List.mem_append, h.found]
        tauto }

/-- All steps of a walk. -/
theorem walked_foldl (g : Graph) (edges walked : List Edge) (t : Tally) (h : g.Walked walked t) :
    g.Walked (walked ++ edges) (edges.foldl g.visit t) := by
  induction edges generalizing walked t with
  | nil =>
      rw [List.append_nil]
      exact h
  | cons e rest ih =>
      have hrest := ih (walked ++ [e]) (g.visit t e) (h.visit e)
      rw [List.append_assoc] at hrest
      exact hrest

theorem walked_walk (g : Graph) : g.Walked g.edges g.walk :=
  g.walked_foldl g.edges [] {} g.walked_nil

/-- The edges that have an id at one of their ends are as many as the id is listed
    there. -/
theorem length_filter_eq_count (side : Edge → NodeId) (edges : List Edge) (id : NodeId) :
    (edges.filter fun e => side e = id).length = (edges.map side).count id := by
  rw [List.count, List.countP_map, List.countP_eq_length_filter]
  rfl

theorem mem_auditFanIn_iff (g : Graph) (edges : List Edge) (id : NodeId) (v : Violation) :
    v ∈ g.auditFanIn edges id ↔
      0 < (edges.map (·.target)).count id ∧
        v ∈ g.fanInReport id ((edges.map (·.target)).count id) := by
  have hcount := length_filter_eq_count (·.target) edges id
  rw [auditFanIn, fanInReport]
  cases g.node? id with
  | none => simp only [List.not_mem_nil, and_false]
  | some n =>
      simp only [hcount, Bool.and_eq_true, decide_eq_true_eq, Bool.not_eq_true',
        List.mem_ite_nil_right, List.mem_ite_nil_left, Bool.not_eq_true, and_assoc]

theorem auditFanOut_eq (edges : List Edge) (id : NodeId) :
    auditFanOut edges id = fanOutReport id ((edges.map (·.source)).count id) := by
  rw [auditFanOut, fanOutReport, length_filter_eq_count (·.source)]

/-- What a tally shows is what is found node by node. -/
theorem mem_tally_iff {counts : Entries Nat} {keys : List String} (h : counts.Counts keys)
    (report : NodeId → Nat → List Violation) (v : Violation) :
    (v ∈ counts.flatMap fun entry => report entry.1 entry.2) ↔
      ∃ id, 0 < keys.count id ∧ v ∈ report id (keys.count id) := by
  rw [List.mem_flatMap]
  constructor
  · rintro ⟨⟨id, n⟩, hentry, hv⟩
    rcases (h.mem_iff id n).mp hentry with ⟨rfl, hpos⟩
    exact ⟨id, hpos, hv⟩
  · rintro ⟨id, hpos, hv⟩
    exact ⟨(id, keys.count id), (h.mem_iff id _).mpr ⟨rfl, hpos⟩, hv⟩

/-- The edges that a walk has counted are the proper ones, in an order of their
    own. -/
theorem seen_perm (g : Graph) :
    g.walk.seen.Perm (Ascending.ofList Edge.before g.properEdges) := by
  refine (List.perm_ext_iff_of_nodup g.walked_walk.nodup (nodup_sortedEdges _)).mpr fun e => ?_
  rw [g.walked_walk.seen, Ascending.mem_ofList Edge.before_total]
  rfl

theorem hasNode_of_seen (g : Graph) (e : Edge) (he : e ∈ g.walk.seen) :
    g.HasNode e.source ∧ g.HasNode e.target := by
  have hproper := (List.mem_filter.mp ((g.walked_walk.seen e).mp he)).2
  rw [isProper, Bool.and_eq_true, Bool.and_eq_true, contains_iff, contains_iff] at hproper
  exact hproper.1

/-- A walk counts the edges that enter the nodes. -/
theorem mem_incoming_iff (g : Graph) (v : Violation) :
    (v ∈ g.walk.incoming.flatMap fun entry => g.fanInReport entry.1 entry.2) ↔
      v ∈ g.ids.flatMap (g.auditFanIn (Ascending.ofList Edge.before g.properEdges)) := by
  have hperm := g.seen_perm.map (·.target)
  simp only [mem_tally_iff g.walked_walk.incoming, List.mem_flatMap, mem_auditFanIn_iff, mem_ids,
    ← hperm.count_eq]
  constructor
  · rintro ⟨id, hpos, hv⟩
    rcases List.mem_map.mp (List.count_pos_iff.mp hpos) with ⟨e, he, rfl⟩
    exact ⟨e.target, (g.hasNode_of_seen e he).2, hpos, hv⟩
  · rintro ⟨id, _, hv⟩
    exact ⟨id, hv⟩

/-- A walk counts the loose edges that leave the nodes. -/
theorem mem_loose_iff (g : Graph) (v : Violation) :
    (v ∈ g.walk.loose.flatMap fun entry => fanOutReport entry.1 entry.2) ↔
      v ∈ g.ids.flatMap
        (auditFanOut ((Ascending.ofList Edge.before g.properEdges).filter g.isLoose)) := by
  have hperm := (g.seen_perm.filter g.isLoose).map (·.source)
  simp only [mem_tally_iff g.walked_walk.loose, List.mem_flatMap, auditFanOut_eq, mem_ids,
    ← hperm.count_eq]
  constructor
  · rintro ⟨id, hpos, hv⟩
    rcases List.mem_map.mp (List.count_pos_iff.mp hpos) with ⟨e, he, rfl⟩
    exact ⟨e.source, (g.hasNode_of_seen e (List.mem_of_mem_filter he)).1, hv⟩
  · rintro ⟨id, _, hv⟩
    -- A tally has no entry for an id without edges, but that is not reported.
    have hmany := hv
    rw [fanOutReport, List.mem_ite_nil_right] at hmany
    exact ⟨id, by omega, hv⟩

/-- A walk reports those breaches that are about edges. -/
theorem mem_reportsOf_walk_iff (g : Graph) (v : Violation) :
    v ∈ g.auditIds ++ g.auditTriggers ++ g.reportsOf g.walk ↔ v ∈ g.breaches := by
  have hkinds : v ∈ g.walk.seen.flatMap g.auditKinds ↔
      v ∈ (Ascending.ofList Edge.before g.properEdges).flatMap g.auditKinds := by
    simp only [List.mem_flatMap, g.seen_perm.mem_iff]
  have hproper : g.edges.filter g.isProper = g.properEdges := rfl
  simp only [breaches, reportsOf, List.mem_append, g.walked_walk.found, mem_incoming_iff,
    mem_loose_iff, hkinds, hproper, or_assoc]

/-- An audit finds what one walk over the edges finds, as they are listed. -/
theorem auditOnWalk_eq (g : Graph) : g.auditOnWalk = g.audit := by
  refine Ascending.eq_of_mem_iff Violation.before_irrefl Violation.before_trans
    (Violation.pairwise_sorted _) g.pairwise_audit fun v => ?_
  rw [auditOnWalk, mem_audit_iff, Violation.mem_sorted, List.mem_append, List.mem_append,
    mem_reportsOf_walk_iff, or_assoc]

end Graph

end Workflow
