import Mathlib.Data.List.Nodup
import Mathlib.Data.Set.Card
import Workflow.Proofs.Dependency

/-!
# The Middle of a Round

What holds while a round of a countdown is under way. A round goes along the
dependencies on the nodes of its stage, one after another, and releases the
node at the end of each. So a moment of it is given by the edges that are
behind (`partway`), and the round is over when all of them are (`finish_eq`).

At every moment a node's number counts the nodes for which it still waits:
those it depends on that were not finished before the round and whose edge is
not behind. `Released.release` is the step. The edge that comes next was not
taken before and starts at a node that was not finished before, so its source
is one of the nodes for which its target waits, and the number that is lowered
is not zero. The number comes to zero for the last of them only, which is why
no node gets ready twice.

## Main definitions

* `tally`: Numbers given by a function of the id.
* `edgesFrom`: The dependencies on the nodes of a stage.
* `partway`: A round when some edges are behind.
* `awaited`: The nodes for which a node still waits.
* `Released`: What holds when some edges are behind.

## Theorems

* `finish_eq`: A round is over when all edges are behind.
* `mem_edgesFrom`, `nodup_edgesFrom`: A round goes along every dependency on
  its stage, and along each once.
* `next_edge`: What is known of the edge that comes next.
* `ncard_awaited_concat`: A release takes one off the nodes that are awaited.
* `awaited_edgesFrom`: What is awaited when the round is over.
* `Released.release_eq`: What a release does.
* `Released.release`: A release keeps what holds.
* `released_partway`: It holds at every moment of a round.
-/

namespace Workflow

namespace Countdown

/-- Numbers for a list of ids, given by a function. -/
def tally (ids : List NodeId) (f : NodeId → Nat) : Entries Nat := ids.map fun id => (id, f id)

/-- The dependencies on the nodes of a list, in the order in which a round goes
    along them. -/
def edgesFrom (dependencies : List Edge) (ids : List NodeId) : List Edge :=
  ids.flatMap fun id => dependencies.filter fun e => e.source = id

/-- A round when some edges are behind: the nodes at their ends have been
    released, and those that waited for nothing else are collected. -/
def partway (c : Countdown) (edges : List Edge) : Countdown :=
  edges.foldl (fun s e => s.release e.target) ⟨c.waiting, []⟩

/-- The nodes for which a node waits when some nodes are finished and some
    edges are behind. -/
def awaited (g : Graph) (done : List NodeId) (edges : List Edge) (id : NodeId) : Set NodeId :=
  {source | g.Depends source id ∧ source ∉ done ∧ ⟨source, id⟩ ∉ edges}

/-- What holds when some edges of a round are behind: every number counts the
    nodes that are awaited, and the nodes that got ready are listed once. -/
structure Released (g : Graph) (done : List NodeId) (edges : List Edge) (s : Countdown) :
    Prop where
  waiting : s.waiting = tally g.ids fun id => (awaited g done edges id).ncard
  ready : ∀ id, id ∈ s.ready ↔ (∃ e ∈ edges, e.target = id) ∧ awaited g done edges id = ∅
  once : s.ready.Nodup

theorem find?_tally (g : Graph) (f : NodeId → Nat) (id : NodeId) (n : Nat) :
    Entries.find? id (tally g.ids f) = some n ↔ g.HasNode id ∧ n = f id := by
  rw [tally, Entries.find?_tabulate, ← g.mem_ids]
  by_cases hid : id ∈ g.ids
  · rw [if_pos hid, Option.some.injEq, eq_comm]
    exact (and_iff_right hid).symm
  · rw [if_neg hid]
    exact iff_of_false (by simp only [reduceCtorEq, not_false_eq_true]) fun h => hid h.1

theorem keys_tally (ids : List NodeId) (f : NodeId → Nat) : (tally ids f).keys = ids := by
  rw [Entries.keys, tally, List.map_map]
  exact List.map_id' ids

theorem lower_tally (ids : List NodeId) (f : NodeId → Nat) (id : NodeId) :
    lower id (tally ids f) = tally ids fun k => if k = id then f k - 1 else f k := by
  rw [lower, tally, tally, List.map_map]
  refine List.map_congr_left ?_
  intro k _
  by_cases hk : k = id
  · simp only [Function.comp, if_pos hk]
  · simp only [Function.comp, if_neg hk]

/-- A round is over when all dependencies on its stage are behind. What got
    ready is put in order then. -/
theorem finish_eq (dependencies : List Edge) (c : Countdown) :
    c.finish dependencies =
      ⟨(c.partway (edgesFrom dependencies c.ready)).waiting,
        Ascending.texts (c.partway (edgesFrom dependencies c.ready)).ready⟩ := by
  have htargets : c.ready.flatMap (Graph.targetsOf dependencies)
      = (edgesFrom dependencies c.ready).map (·.target) := by
    rw [edgesFrom, List.map_flatMap]
    rfl
  rw [finish, htargets, List.foldl_map]
  rfl

theorem partway_concat (c : Countdown) (edges : List Edge) (e : Edge) :
    c.partway (edges ++ [e]) = (c.partway edges).release e.target := by
  rw [partway, List.foldl_append]
  rfl

theorem edgesFrom_append (dependencies : List Edge) (ids others : List NodeId) :
    edgesFrom dependencies (ids ++ others)
      = edgesFrom dependencies ids ++ edgesFrom dependencies others :=
  List.flatMap_append

/-- A round goes along every dependency on a node of its stage, and along no
    other edge. -/
theorem mem_edgesFrom (g : Graph) (ids : List NodeId) (e : Edge) :
    e ∈ edgesFrom g.dependencies ids ↔ e.source ∈ ids ∧ g.Depends e.source e.target := by
  simp only [edgesFrom, List.mem_flatMap, List.mem_filter, g.mem_dependencies, decide_eq_true_eq]
  constructor
  · rintro ⟨_, hid, hdep, rfl⟩
    exact ⟨hid, hdep⟩
  · rintro ⟨hid, hdep⟩
    exact ⟨e.source, hid, hdep, rfl⟩

/-- A round goes along no edge twice. -/
theorem nodup_edgesFrom (g : Graph) (ids : List NodeId) (hids : ids.Nodup) :
    (edgesFrom g.dependencies ids).Nodup := by
  have hnodup : g.dependencies.Nodup := Ascending.nodup Edge.before_irrefl g.pairwise_dependencies
  rw [edgesFrom, List.nodup_flatMap]
  refine ⟨fun id _ => hnodup.filter _, hids.imp ?_⟩
  intro id other hne e hid hother
  -- An edge has one source.
  have hsource := of_decide_eq_true (List.mem_filter.mp hid).2
  have hsource' := of_decide_eq_true (List.mem_filter.mp hother).2
  exact hne (hsource.symm.trans hsource')

/-- The edge that comes next in a round starts at a node of its stage, is a
    dependency, and is not behind. -/
theorem next_edge (g : Graph) (ids : List NodeId) (hids : ids.Nodup) (edges : List Edge)
    (e : Edge) (pending : List Edge)
    (hsplit : edges ++ e :: pending = edgesFrom g.dependencies ids) :
    e.source ∈ ids ∧ g.Depends e.source e.target ∧ e ∉ edges := by
  have hmem : e ∈ edgesFrom g.dependencies ids := by
    rw [← hsplit]
    exact List.mem_append_right edges List.mem_cons_self
  have hnodup := nodup_edgesFrom g ids hids
  rw [← hsplit] at hnodup
  rcases (mem_edgesFrom g ids e).mp hmem with ⟨hsource, hdep⟩
  exact ⟨hsource, hdep, fun he => (List.nodup_append'.mp hnodup).2.2 he List.mem_cons_self⟩

section Awaited

variable (g : Graph) (done : List NodeId) (edges : List Edge)

theorem mem_awaited (id source : NodeId) : source ∈ awaited g done edges id ↔
    g.Depends source id ∧ source ∉ done ∧ ⟨source, id⟩ ∉ edges := Iff.rfl

theorem finite_awaited (id : NodeId) : (awaited g done edges id).Finite := by
  refine (Graph.sourcesOf g.dependencies id).finite_toSet.subset ?_
  intro source hsource
  exact (g.mem_sourcesOf source id).mpr hsource.1

/-- A release takes one off the nodes for which the released node waits. -/
theorem ncard_awaited_concat (e : Edge) (hdep : g.Depends e.source e.target)
    (hsource : e.source ∉ done) (hnew : e ∉ edges) :
    (awaited g done (edges ++ [e]) e.target).ncard + 1 = (awaited g done edges e.target).ncard := by
  -- The edge leads from one node, and that is awaited no longer.
  have hless : awaited g done (edges ++ [e]) e.target
      = awaited g done edges e.target \ {e.source} := by
    ext source
    have heq : (⟨source, e.target⟩ : Edge) = e ↔ source = e.source := by
      rcases e with ⟨first, last⟩
      simp only [Edge.mk.injEq, and_true]
    simp only [mem_awaited, Set.mem_sdiff, Set.mem_singleton_iff, List.mem_append,
      List.mem_singleton, heq, not_or, and_assoc]
  rw [hless]
  exact Set.ncard_sdiff_singleton_add_one ⟨hdep, hsource, hnew⟩ (finite_awaited g done edges _)

/-- A release changes nothing for the other nodes. -/
theorem awaited_concat_of_ne (e : Edge) (id : NodeId) (hid : id ≠ e.target) :
    awaited g done (edges ++ [e]) id = awaited g done edges id := by
  ext source
  have hne : (⟨source, id⟩ : Edge) ≠ e := fun h => hid (congrArg Edge.target h)
  simp only [mem_awaited, List.mem_append, List.mem_singleton, hne, or_false]

/-- When a round is over, a node waits for the nodes of the stage no longer. -/
theorem awaited_edgesFrom (stage : List NodeId) (id : NodeId) :
    awaited g done (edgesFrom g.dependencies stage) id = awaited g (done ++ stage) [] id := by
  ext source
  simp only [mem_awaited, mem_edgesFrom, List.mem_append, List.not_mem_nil, not_false_iff,
    and_true, not_or]
  constructor
  · rintro ⟨hdep, hdone, hstage⟩
    exact ⟨hdep, hdone, fun hsource => hstage ⟨hsource, hdep⟩⟩
  · rintro ⟨hdep, hdone, hstage⟩
    exact ⟨hdep, hdone, fun h => hstage h.1⟩

end Awaited

section Step

variable {g : Graph} {done : List NodeId} {edges : List Edge} {s : Countdown}
  (h : Released g done edges s) (e : Edge) (hdep : g.Depends e.source e.target)
  (hsource : e.source ∉ done) (hnew : e ∉ edges)

include h hdep hsource hnew

/-- What a release does. The number of the released node is not zero, so one
    is taken from it, and the node is collected when that makes it zero. -/
theorem Released.release_eq :
    s.release e.target =
      ⟨tally g.ids fun id => (awaited g done (edges ++ [e]) id).ncard,
        if (awaited g done (edges ++ [e]) e.target).ncard = 0 then s.ready ++ [e.target]
        else s.ready⟩ := by
  have hcount := ncard_awaited_concat g done edges e hdep hsource hnew
  have hfind : Entries.find? e.target s.waiting
      = some ((awaited g done (edges ++ [e]) e.target).ncard + 1) := by
    rw [h.waiting, find?_tally]
    exact ⟨hdep.right, hcount⟩
  -- One node has one edge less to wait for, and all others are as they were.
  have hlower : lower e.target s.waiting
      = tally g.ids fun id => (awaited g done (edges ++ [e]) id).ncard := by
    rw [h.waiting, lower_tally]
    refine congrArg (tally g.ids) (funext fun id => ?_)
    by_cases hid : id = e.target
    · rw [if_pos hid, hid, ← hcount, Nat.add_sub_cancel]
    · rw [if_neg hid, awaited_concat_of_ne g done edges e id hid]
  rw [Countdown.release, hfind]
  simp only [hlower, Nat.add_eq_right]

/-- A release keeps what holds in the middle of a round. -/
theorem Released.release : Released g done (edges ++ [e]) (s.release e.target) := by
  have hcount := ncard_awaited_concat g done edges e hdep hsource hnew
  have hfinite := finite_awaited g done
  -- The released node waited for the source of the edge until now.
  have hfresh : e.target ∉ s.ready := by
    intro hmem
    have hnone := ((h.ready e.target).mp hmem).2
    rw [hnone, Set.ncard_empty] at hcount
    omega
  have hready : ∀ id, id ≠ e.target →
      ((∃ f ∈ edges ++ [e], f.target = id) ∧ awaited g done (edges ++ [e]) id = ∅
        ↔ id ∈ s.ready) := by
    intro id hid
    have hne : e.target ≠ id := fun heq => hid heq.symm
    rw [h.ready, awaited_concat_of_ne g done edges e id hid]
    simp only [List.mem_append, List.mem_singleton, or_and_right, exists_or, exists_eq_left, hne,
      or_false]
  rw [h.release_eq e hdep hsource hnew]
  -- The node is collected when the source of this edge was the last one.
  by_cases hzero : (awaited g done (edges ++ [e]) e.target).ncard = 0
  · rw [if_pos hzero]
    refine ⟨rfl, fun id => ?_, ?_⟩
    · rw [List.mem_append, List.mem_singleton]
      by_cases hid : id = e.target
      · have hnone := (Set.ncard_eq_zero (hfinite _ _)).mp hzero
        rw [hid]
        exact iff_of_true (Or.inr rfl)
          ⟨⟨e, List.mem_append_right _ List.mem_cons_self, rfl⟩, hnone⟩
      · rw [hready id hid, or_iff_left hid]
    · exact List.nodup_append'.mpr ⟨h.once, List.nodup_singleton _,
        List.disjoint_singleton.mpr hfresh⟩
  · rw [if_neg hzero]
    refine ⟨rfl, fun id => ?_, h.once⟩
    by_cases hid : id = e.target
    · rw [hid]
      refine iff_of_false hfresh fun hnone => hzero ?_
      rw [hnone.2, Set.ncard_empty]
    · exact (hready id hid).symm

end Step

/-- What holds at every moment of a round, by induction on the edges that are
    behind. -/
theorem released_partway (g : Graph) (done : List NodeId) (c : Countdown)
    (hwaiting : c.waiting = tally g.ids fun id => (awaited g done [] id).ncard)
    (hnew : ∀ id ∈ c.ready, id ∉ done) (honce : c.ready.Nodup) (edges pending : List Edge)
    (hsplit : edges ++ pending = edgesFrom g.dependencies c.ready) :
    Released g done edges (c.partway edges) := by
  induction edges using List.reverseRecOn generalizing pending with
  | nil =>
      refine ⟨hwaiting, fun id => ?_, List.nodup_nil⟩
      exact iff_of_false List.not_mem_nil fun h => by
        rcases h.1 with ⟨e, he, _⟩
        exact List.not_mem_nil he
  | append_singleton edges e ih =>
      -- The last edge that is behind was the next one the moment before.
      rw [List.append_assoc, List.singleton_append] at hsplit
      rcases next_edge g c.ready honce edges e pending hsplit with ⟨hsource, hdep, hnot⟩
      rw [partway_concat]
      exact (ih (e :: pending) hsplit).release e hdep (hnew e.source hsource) hnot

end Countdown

end Workflow
