import Mathlib.Data.List.MinMax
import Mathlib.Order.Nat
import Workflow.Proofs.Countdown

/-!
# Stages as Layers

What a plan says about a graph. The number of the stage that holds a node is
the depth of the node, so a plan is the partition of the nodes into layers of
equal depth, each in ascending order. Everything else follows from that: a
node is in one stage because it has one depth, stages are not empty because
depths have no gaps, and neither an edge nor a path stays within a layer or
goes back.

`exists_staged_of_plan` takes the stages from the last round of the countdown
and is the only place where the plan is computed. The laws that come after it
are about any planned graph and are what the rest of the theory uses.

## Main definitions

* `Plan.Layered`: The stages of a plan are the layers of a graph.

## Theorems

* `exists_staged_of_plan`: The stages of a plan are in their places, and
  every node is in one.
* `mem_stages_iff`, `nodup_stages`: The stages hold every node once.
* `stageOf?_eq_some_iff`, `exists_stage_of_depth`: The stage of a node is its
  depth.
* `mem_predecessorsOf`, `pairwise_predecessorsOf`: The predecessors of a node
  are the nodes it depends on, in ascending order.
* `stageOf?_eq_foldr`: The stage of a node from those of its predecessors.
* `layered_of_plan`: The stages of a plan are the layers of the graph.
-/

namespace Workflow

/-- The stages of a plan are the layers of a graph. Every node is in exactly
    one stage and once in it; stages are not empty and ascend; the number of
    the stage that holds a node is the length of the longest path to the
    node, which is 0 without predecessors and otherwise one more than the
    greatest number among them; so every dependency leads to a later stage,
    and no path joins two nodes of a stage. The predecessors that are listed
    for a node are the nodes that it depends on. -/
structure Plan.Layered (g : Graph) (p : Plan) : Prop where
  once : p.stages.flatten.Nodup
  complete : ∀ id, id ∈ p.stages.flatten ↔ g.HasNode id
  inhabited : ∀ stage ∈ p.stages, stage ≠ []
  ascending : ∀ stage ∈ p.stages, stage.Pairwise (· < ·)
  depth : ∀ id i, p.stageOf? id = some i ↔ g.Depth id i
  recursion : ∀ id i, p.stageOf? id = some i →
    i = ((p.predecessorsOf id).map fun s => (p.stageOf? s).getD 0 + 1).foldr max 0
  forward : ∀ source target, g.Depends source target →
    ∃ i j, p.stageOf? source = some i ∧ p.stageOf? target = some j ∧ i < j
  independent : ∀ stage ∈ p.stages, ∀ a ∈ stage, ∀ b ∈ stage,
    ¬ Relation.TransGen g.Depends a b
  predecessors : ∀ id, (p.predecessorsOf id).Pairwise (· < ·) ∧
    ∀ source, source ∈ p.predecessorsOf id ↔ g.Depends source id

namespace Graph

/-- The stages of a plan are in their places, and no node is left out. -/
theorem exists_staged_of_plan (g : Graph) (p : Plan) (h : g.plan = .ok p) :
    Countdown.Staged g p.stages ∧ (∀ id, g.HasNode id → g.Shallow p.stages.length id) ∧
      p.predecessors = g.ids.map fun id => (id, sourcesOf g.dependencies id) := by
  rcases g.plan_eq with ⟨stages, last, hrounds, _, hplan⟩
  rw [hplan] at h
  by_cases hlt : stages.flatten.length < g.ids.length
  · rw [if_pos hlt] at h
    exact absurd h (by simp only [reduceCtorEq, not_false_eq_true])
  · rw [if_neg hlt, Except.ok.injEq] at h
    rw [← h]
    refine ⟨hrounds.staged, fun id hid => ?_, rfl⟩
    by_contra hnot
    exact hlt ((Countdown.flatten_length_lt_iff g stages hrounds.staged).mpr ⟨id, hid, hnot⟩)

/-- Where a node is in the stages of a planned graph. -/
theorem mem_stage_iff (g : Graph) (p : Plan) (h : g.plan = .ok p) (i : Nat)
    (hi : i < p.stages.length) (id : NodeId) : id ∈ p.stages[i] ↔ g.Depth id i :=
  ((g.exists_staged_of_plan p h).1 i _ (List.getElem?_eq_getElem hi)).2.2 id

/-- The nodes of the stages are those of the graph. -/
theorem mem_stages_iff (g : Graph) (p : Plan) (h : g.plan = .ok p) (id : NodeId) :
    id ∈ p.stages.flatten ↔ g.HasNode id := by
  rcases g.exists_staged_of_plan p h with ⟨hstaged, hall, _⟩
  rw [Countdown.mem_flatten_iff g p.stages hstaged]
  exact ⟨fun hshallow => hshallow.1, hall id⟩

/-- Every node of a planned graph has a depth. -/
theorem exists_depth_of_plan (g : Graph) (p : Plan) (h : g.plan = .ok p) (id : NodeId)
    (hid : g.HasNode id) : ∃ i, g.Depth id i := by
  rcases (g.shallow_iff_exists_depth _ id).mp ((g.exists_staged_of_plan p h).2.1 id hid) with
    ⟨i, _, hdepth⟩
  exact ⟨i, hdepth⟩

theorem nodup_stages (g : Graph) (p : Plan) (h : g.plan = .ok p) : p.stages.flatten.Nodup :=
  Countdown.nodup_flatten g p.stages (g.exists_staged_of_plan p h).1

/-- The stage of a node is its depth. -/
theorem stageOf?_eq_some_iff (g : Graph) (p : Plan) (h : g.plan = .ok p) (id : NodeId) (i : Nat) :
    p.stageOf? id = some i ↔ g.Depth id i := by
  rw [Plan.stageOf?, List.findIdx?_eq_some_iff_getElem]
  simp only [List.contains_iff_mem]
  constructor
  · rintro ⟨hi, hmem, _⟩
    exact (g.mem_stage_iff p h i hi id).mp hmem
  · intro hdepth
    have hall := (g.exists_staged_of_plan p h).2.1 id (g.depth_hasNode id i hdepth)
    rcases (g.shallow_iff_exists_depth _ id).mp hall with ⟨j, hj, hdepthj⟩
    have heq := g.depth_unique id i j hdepth hdepthj
    rw [← heq] at hj
    -- The stage that is found is the first one, but there is no other one.
    refine ⟨hj, (g.mem_stage_iff p h i hj id).mpr hdepth, fun k hk hmem => ?_⟩
    have hdepthk := (g.mem_stage_iff p h k (by omega) id).mp hmem
    exact Nat.ne_of_lt hk (g.depth_unique id k i hdepthk hdepth)

/-- The stage with the number of a depth holds the nodes of that depth. -/
theorem exists_stage_of_depth (g : Graph) (p : Plan) (h : g.plan = .ok p) (id : NodeId) (i : Nat)
    (hdepth : g.Depth id i) : ∃ stage, p.stages[i]? = some stage ∧ id ∈ stage := by
  have hstage := (g.stageOf?_eq_some_iff p h id i).mpr hdepth
  rw [Plan.stageOf?, List.findIdx?_eq_some_iff_getElem] at hstage
  rcases hstage with ⟨hi, hmem, _⟩
  exact ⟨_, List.getElem?_eq_getElem hi, List.contains_iff_mem.mp hmem⟩

/-- Every node of a planned graph has a stage. -/
theorem exists_stageOf? (g : Graph) (p : Plan) (h : g.plan = .ok p) (id : NodeId)
    (hid : g.HasNode id) : ∃ i, p.stageOf? id = some i := by
  have hall := (g.exists_staged_of_plan p h).2.1 id hid
  rcases (g.shallow_iff_exists_depth _ id).mp hall with ⟨i, _, hdepth⟩
  exact ⟨i, (g.stageOf?_eq_some_iff p h id i).mpr hdepth⟩

theorem predecessorsOf_eq (g : Graph) (p : Plan) (h : g.plan = .ok p) (id : NodeId) :
    p.predecessorsOf id = sourcesOf g.dependencies id := by
  rw [Plan.predecessorsOf, (g.exists_staged_of_plan p h).2.2, Entries.find?_tabulate]
  by_cases hid : id ∈ g.ids
  · rw [if_pos hid, Option.getD_some]
  · rw [if_neg hid, Option.getD_none]
    -- Nothing is a source of a node that does not exist.
    refine (List.eq_nil_iff_forall_not_mem.mpr ?_).symm
    intro source hsource
    exact hid ((g.mem_ids id).mpr ((g.mem_sourcesOf source id).mp hsource).right)

theorem mem_predecessorsOf (g : Graph) (p : Plan) (h : g.plan = .ok p) (id source : NodeId) :
    source ∈ p.predecessorsOf id ↔ g.Depends source id := by
  rw [g.predecessorsOf_eq p h, g.mem_sourcesOf]

theorem pairwise_predecessorsOf (g : Graph) (p : Plan) (h : g.plan = .ok p) (id : NodeId) :
    (p.predecessorsOf id).Pairwise (· < ·) := by
  rw [g.predecessorsOf_eq p h]
  exact g.pairwise_sourcesOf id

/-- The stage of a node from those of its predecessors: it is after all of
    them, and directly after the last one. -/
theorem stageOf?_eq_foldr (g : Graph) (p : Plan) (h : g.plan = .ok p) (id : NodeId) (i : Nat)
    (hi : p.stageOf? id = some i) :
    i = ((p.predecessorsOf id).map fun s => (p.stageOf? s).getD 0 + 1).foldr max 0 := by
  have hdepth := (g.stageOf?_eq_some_iff p h id i).mp hi
  -- Some predecessor is directly before the node, and none is later than that.
  apply Nat.le_antisymm
  · cases i with
    | zero => exact Nat.zero_le _
    | succ i =>
        rcases g.exists_depth_of_succ id i hdepth with ⟨source, hdep, hsource⟩
        refine List.le_max_of_le' 0 (List.mem_map.mpr ⟨source, ?_, rfl⟩) ?_
        · exact (g.mem_predecessorsOf p h id source).mpr hdep
        · rw [(g.stageOf?_eq_some_iff p h source i).mpr hsource, Option.getD_some]
  · have hle : ∀ k ∈ (p.predecessorsOf id).map fun s => (p.stageOf? s).getD 0 + 1, k ≤ i := by
      intro k hk
      rcases List.mem_map.mp hk with ⟨source, hsource, heq⟩
      have hdep := (g.mem_predecessorsOf p h id source).mp hsource
      rcases g.exists_stageOf? p h source hdep.left with ⟨j, hj⟩
      rw [hj, Option.getD_some] at heq
      have hlt := g.depth_lt_of_depends source id j i hdep
        ((g.stageOf?_eq_some_iff p h source j).mp hj) hdepth
      omega
    exact List.max_le_of_forall_le _ i hle

/-- No path of one edge or more joins two nodes of a stage. -/
theorem not_transGen_of_mem_stage (g : Graph) (p : Plan) (h : g.plan = .ok p)
    (stage : List NodeId) (hstage : stage ∈ p.stages) (a b : NodeId) (ha : a ∈ stage)
    (hb : b ∈ stage) : ¬ Relation.TransGen g.Depends a b := by
  intro hpath
  rcases List.getElem_of_mem hstage with ⟨i, hi, heq⟩
  rw [← heq] at ha hb
  exact Nat.lt_irrefl i (g.depth_lt_of_transGen a b i i hpath
    ((g.mem_stage_iff p h i hi a).mp ha) ((g.mem_stage_iff p h i hi b).mp hb))

/-- A graph that can be planned is put into its layers. -/
theorem layered_of_plan (g : Graph) (p : Plan) (h : g.plan = .ok p) : p.Layered g := by
  rcases g.exists_staged_of_plan p h with ⟨hstaged, hall, _⟩
  have hplaced := Countdown.staged_of_mem g p.stages hstaged
  refine {
    once := Countdown.nodup_flatten g p.stages hstaged
    complete := fun id => ?_
    inhabited := fun stage hstage => (hplaced stage hstage).1
    ascending := fun stage hstage => (hplaced stage hstage).2
    depth := g.stageOf?_eq_some_iff p h
    recursion := g.stageOf?_eq_foldr p h
    forward := fun source target hdep => ?_
    independent := fun stage hstage a ha b hb =>
      g.not_transGen_of_mem_stage p h stage hstage a b ha hb
    predecessors := fun id =>
      ⟨g.pairwise_predecessorsOf p h id, g.mem_predecessorsOf p h id⟩ }
  · rw [Countdown.mem_flatten_iff g p.stages hstaged]
    exact ⟨fun hshallow => hshallow.1, hall id⟩
  -- Both nodes have a stage, and the depths tell which one comes first.
  · rcases g.exists_stageOf? p h source hdep.left with ⟨i, hi⟩
    rcases g.exists_stageOf? p h target hdep.right with ⟨j, hj⟩
    exact ⟨i, j, hi, hj, g.depth_lt_of_depends source target i j hdep
      ((g.stageOf?_eq_some_iff p h source i).mp hi) ((g.stageOf?_eq_some_iff p h target j).mp hj)⟩

/-- A diamond with a shortcut, a repeated node, a repeated edge and two
    edges to and from nowhere. -/
def diamond : Graph :=
  ofPairs [("d", .email), ("b", .action), ("a", .fileUpload), ("b", .wait), ("c", .action)]
    [("a", "c"), ("a", "b"), ("b", "d"), ("c", "d"), ("a", "d"), ("a", "b"), ("x", "a"),
      ("d", "y")]

/-- What is expected of `diamond`. -/
def diamondPlan : Plan where
  stages := [["a"], ["b", "c"], ["d"]]
  predecessors := [("a", []), ("b", ["a"]), ("c", ["a"]), ("d", ["a", "b", "c"])]

theorem plan_diamond : diamond.plan = .ok diamondPlan ∧ diamondPlan.Layered diamond :=
  ⟨rfl, layered_of_plan diamond diamondPlan rfl⟩

end Graph

end Workflow
