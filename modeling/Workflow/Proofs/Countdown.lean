import Mathlib.Algebra.BigOperators.Group.List.Basic
import Workflow.Proofs.Releasing

/-!
# The Rounds of a Countdown

What holds at the start of every round of a countdown. `Rounds` relates the
stages that are finished to the state of the countdown: the stage with number
`i` holds exactly the nodes of depth `i`, the next stage holds those whose
depth is the number of finished stages, and the number kept for a node counts
its predecessors that are not in a finished stage.

`finish_rounds` is the step of the invariant. What the releases of a round do
to the numbers is known for every moment of the round (`released_partway`);
when the round is over, the nodes of its stage count as finished, and the
nodes that got ready are those whose last predecessors were among them, which
are the nodes that are one deeper.

The countdown itself knows no bound. `Reaches` follows it round by round for
as long as a node is ready. It ends: no stage is empty and no node is in two
of them, so after as many rounds as there are nodes every node is in a stage.
That is why a run has fuel for so many rounds, and `Reaches.run_eq` says that
it gives what the countdown ends with.

## Main definitions

* `unfinished`: How many predecessors of a node are not finished.
* `StageAt`: A list holds the nodes of one depth in ascending order.
* `Staged`: Stages that are each in their place.
* `Rounds`: What holds at the start of a round.
* `Reaches`: A countdown as it goes on, round by round.

## Theorems

* `unfinished_eq_ncard`: The number of a node counts the nodes it waits for.
* `mem_flatten_iff`: The finished nodes are the shallow ones.
* `nodup_flatten`: No node is finished twice.
* `flatten_length_lt_iff`: Nodes are left when some node is not shallow.
* `start_rounds`: The invariant holds at the beginning.
* `finish_rounds`: A round preserves the invariant.
* `Reaches.rounds`: It holds before every round.
* `Rounds.length_le`: There are no more rounds than nodes.
* `Reaches.exists_end`: A countdown ends.
* `Reaches.run_add`: A run goes through every state that is reached.
* `Reaches.run_eq`: It gives what the countdown ends with.
* `plan_of_end`, `plan_eq`: The plan of a graph, in terms of the rounds that
  lead to it.
-/

namespace Workflow

namespace Countdown

/-- How many of the nodes that a node depends on are not finished. -/
def unfinished (g : Graph) (done : List NodeId) (id : NodeId) : Nat :=
  (Graph.sourcesOf g.dependencies id).countP fun source => source ∉ done

/-- A list holds the nodes of one depth in ascending order. -/
def StageAt (g : Graph) (i : Nat) (stage : List NodeId) : Prop :=
  stage.Pairwise (· < ·) ∧ ∀ id, id ∈ stage ↔ g.Depth id i

/-- Each of the stages is in its place, and none is empty. -/
def Staged (g : Graph) (stages : List (List NodeId)) : Prop :=
  ∀ i stage, stages[i]? = some stage → stage ≠ [] ∧ StageAt g i stage

/-- The state at the start of a round: the finished stages are in their
    places, the next stage is the one that comes after them, and every node
    waits for its predecessors that are not finished. -/
structure Rounds (g : Graph) (finished : List (List NodeId)) (c : Countdown) : Prop where
  staged : Staged g finished
  ready : StageAt g finished.length c.ready
  waiting : c.waiting = tally g.ids (unfinished g finished.flatten)

/-- A countdown as it goes on, without a bound: the stages that are finished
    and the state before a round. There is another round as long as a node is
    ready. -/
inductive Reaches (g : Graph) : List (List NodeId) → Countdown → Prop
  | start : Reaches g [] (start g.ids g.dependencies)
  | round (finished : List (List NodeId)) (c : Countdown) (h : Reaches g finished c)
      (hne : c.ready ≠ []) : Reaches g (finished ++ [c.ready]) (c.finish g.dependencies)

/-- The number of a node counts the nodes for which it waits before a round. -/
theorem unfinished_eq_ncard (g : Graph) (done : List NodeId) (id : NodeId) :
    unfinished g done id = (awaited g done [] id).ncard := by
  have hnodup := Graph.nodup_of_ascending _ (g.pairwise_sourcesOf id)
  have hset : awaited g done [] id
      = ((Graph.sourcesOf g.dependencies id).filter fun source => source ∉ done).toFinset := by
    ext source
    simp only [mem_awaited, List.not_mem_nil, not_false_iff, and_true, Finset.mem_coe,
      List.mem_toFinset, List.mem_filter, g.mem_sourcesOf, decide_eq_true_eq]
  rw [hset, Set.ncard_coe_finset, List.toFinset_card_of_nodup (hnodup.filter _), unfinished,
    List.countP_eq_length_filter]

theorem unfinished_eq_zero_iff (g : Graph) (done : List NodeId) (id : NodeId) :
    unfinished g done id = 0 ↔ ∀ source, g.Depends source id → source ∈ done := by
  rw [unfinished, List.countP_eq_zero]
  simp only [decide_eq_true_eq, not_not, Graph.mem_sourcesOf]

/-- What is known of a stage wherever it is. -/
theorem staged_of_mem (g : Graph) (stages : List (List NodeId)) (h : Staged g stages)
    (stage : List NodeId) (hstage : stage ∈ stages) : stage ≠ [] ∧ stage.Pairwise (· < ·) := by
  rcases List.mem_iff_getElem?.mp hstage with ⟨i, hi⟩
  exact ⟨(h i stage hi).1, (h i stage hi).2.1⟩

/-- The nodes that are finished are those whose paths are all shorter than the
    number of finished stages. -/
theorem mem_flatten_iff (g : Graph) (stages : List (List NodeId)) (h : Staged g stages)
    (id : NodeId) : id ∈ stages.flatten ↔ g.Shallow stages.length id := by
  rw [Graph.shallow_iff_exists_depth, List.mem_flatten]
  constructor
  · rintro ⟨stage, hstage, hid⟩
    rcases List.mem_iff_getElem?.mp hstage with ⟨i, hi⟩
    have hlt : i < stages.length := (List.getElem?_eq_some_iff.mp hi).1
    exact ⟨i, hlt, ((h i stage hi).2.2 id).mp hid⟩
  · rintro ⟨i, hlt, hdepth⟩
    have hi : stages[i]? = some stages[i] := List.getElem?_eq_getElem hlt
    exact ⟨stages[i], List.getElem_mem hlt, ((h i _ hi).2.2 id).mpr hdepth⟩

/-- No node is in two stages or twice in one. -/
theorem nodup_flatten (g : Graph) (stages : List (List NodeId)) (h : Staged g stages) :
    stages.flatten.Nodup := by
  rw [List.nodup_flatten]
  constructor
  · intro stage hstage
    exact Graph.nodup_of_ascending stage (staged_of_mem g stages h stage hstage).2
  · rw [List.pairwise_iff_getElem]
    intro i j hi hj hij id hidi hidj
    have hdi := ((h i _ (List.getElem?_eq_getElem hi)).2.2 id).mp hidi
    have hdj := ((h j _ (List.getElem?_eq_getElem hj)).2.2 id).mp hidj
    exact Nat.ne_of_lt hij (g.depth_unique id i j hdi hdj)

/-- Nothing but nodes is in a stage. -/
theorem flatten_subset_ids (g : Graph) (stages : List (List NodeId)) (h : Staged g stages) :
    stages.flatten ⊆ g.ids := by
  intro id hid
  exact (g.mem_ids id).mpr ((mem_flatten_iff g stages h id).mp hid).1

/-- Nodes are left exactly when some node is not shallow. -/
theorem flatten_length_lt_iff (g : Graph) (stages : List (List NodeId)) (h : Staged g stages) :
    stages.flatten.length < g.ids.length ↔
      ∃ id, g.HasNode id ∧ ¬ g.Shallow stages.length id := by
  -- The stages hold some of the nodes, each of them once, so it is enough to
  -- count them.
  have hsubperm := List.subperm_of_subset (nodup_flatten g stages h) (flatten_subset_ids g stages h)
  constructor
  · intro hlt
    by_contra hnone
    have hall : g.ids ⊆ stages.flatten := by
      intro id hid
      by_contra hnot
      rw [mem_flatten_iff g stages h] at hnot
      exact hnone ⟨id, (g.mem_ids id).mp hid, hnot⟩
    have hle := g.nodup_ids.length_le_of_subset hall
    omega
  · rintro ⟨id, hnode, hnot⟩
    by_contra hle
    have hperm := hsubperm.perm_of_length_le (Nat.le_of_not_lt hle)
    have hid := hperm.mem_iff.mpr ((g.mem_ids id).mpr hnode)
    exact hnot ((mem_flatten_iff g stages h id).mp hid)

/-- Every stage holds a node at least, so there are no more stages than
    nodes in them. -/
theorem length_le_flatten (g : Graph) (stages : List (List NodeId)) (h : Staged g stages) :
    stages.length ≤ stages.flatten.length := by
  have hpos : ∀ n ∈ stages.map List.length, 1 ≤ n := by
    intro n hn
    rcases List.mem_map.mp hn with ⟨stage, hstage, hlength⟩
    rw [← hlength]
    exact List.length_pos_of_ne_nil (staged_of_mem g stages h stage hstage).1
  have hsum := List.length_le_sum_of_one_le (stages.map List.length) hpos
  rw [List.length_map] at hsum
  rw [List.length_flatten]
  exact hsum

/-- One more stage in its place. -/
theorem staged_append (g : Graph) (stages : List (List NodeId)) (stage : List NodeId)
    (h : Staged g stages) (hne : stage ≠ []) (hstage : StageAt g stages.length stage) :
    Staged g (stages ++ [stage]) := by
  intro i other hi
  rw [List.getElem?_append] at hi
  by_cases hlt : i < stages.length
  · rw [if_pos hlt] at hi
    exact h i other hi
  · rw [if_neg hlt, List.getElem?_singleton] at hi
    by_cases hlast : i - stages.length = 0
    · rw [if_pos hlast, Option.some.injEq] at hi
      have heq : i = stages.length := by omega
      rw [← hi, heq]
      exact ⟨hne, hstage⟩
    · rw [if_neg hlast] at hi
      exact absurd hi (by simp only [reduceCtorEq, not_false_eq_true])

/-- At the beginning nothing is finished, and the nodes without predecessors
    are ready. -/
theorem start_rounds (g : Graph) : Rounds g [] (start g.ids g.dependencies) := by
  -- At the start no predecessor is done.
  have hcount : ∀ id, unfinished g [] id = (Graph.sourcesOf g.dependencies id).length := by
    intro id
    rw [unfinished, List.countP_eq_length]
    intro source _
    exact decide_eq_true List.not_mem_nil
  have hready : (start g.ids g.dependencies).ready
      = g.ids.filter fun id => (Graph.sourcesOf g.dependencies id).length = 0 := by
    simp only [start, idle, List.filter_map, List.map_map]
    exact List.map_id' _
  refine ⟨?_, ⟨?_, fun id => ?_⟩, ?_⟩
  · intro i stage hi
    exact absurd hi (by simp only [List.getElem?_nil, reduceCtorEq, not_false_eq_true])
  -- What is ready is in the order of the ids.
  · rw [hready]
    exact g.pairwise_ids.filter _
  · rw [hready, List.mem_filter, decide_eq_true_eq, ← hcount id, unfinished_eq_zero_iff, g.mem_ids,
      List.length_nil, g.depth_iff, g.shallow_succ_iff]
    -- At depth zero there is nothing that could be waited for.
    have hnone : ∀ source, g.Shallow 0 source ↔ source ∈ ([] : List NodeId) := fun source =>
      iff_of_false (g.not_shallow_zero source) List.not_mem_nil
    simp only [hnone, List.not_mem_nil, not_false_iff, and_true]
  · refine List.map_congr_left ?_
    intro id _
    rw [List.flatten_nil, hcount]

/-- The nodes of the next stage are not finished. -/
theorem Rounds.new {g : Graph} {finished : List (List NodeId)} {c : Countdown}
    (h : Rounds g finished c) (id : NodeId) (hid : id ∈ c.ready) : id ∉ finished.flatten := by
  intro hdone
  have hdepth := (h.ready.2 id).mp hid
  exact ((g.depth_iff id _).mp hdepth).2 ((mem_flatten_iff g finished h.staged id).mp hdone)

/-- What holds at every moment of a round. -/
theorem Rounds.released {g : Graph} {finished : List (List NodeId)} {c : Countdown}
    (h : Rounds g finished c) (edges pending : List Edge)
    (hsplit : edges ++ pending = edgesFrom g.dependencies c.ready) :
    Released g finished.flatten edges (c.partway edges) := by
  refine released_partway g finished.flatten c ?_ h.new (Graph.nodup_of_ascending _ h.ready.1)
    edges pending hsplit
  rw [h.waiting]
  exact congrArg (tally g.ids) (funext (unfinished_eq_ncard g finished.flatten))

/-- A round preserves the invariant. The nodes of the stage are finished when
    it is over, and what gets ready is one deeper than the stage: it has a
    predecessor in the stage, and none that is not finished now. -/
theorem finish_rounds (g : Graph) (finished : List (List NodeId)) (c : Countdown)
    (h : Rounds g finished c) (hne : c.ready ≠ []) :
    Rounds g (finished ++ [c.ready]) (c.finish g.dependencies) := by
  have hstaged := staged_append g finished c.ready h.staged hne h.ready
  have hreleased := h.released (edgesFrom g.dependencies c.ready) [] (List.append_nil _)
  have hflatten : (finished ++ [c.ready]).flatten = finished.flatten ++ c.ready := by
    rw [List.flatten_append, List.flatten_singleton]
  rw [finish_eq]
  refine ⟨hstaged, ⟨Ascending.pairwise_texts _, fun id => ?_⟩, ?_⟩
  · have hdone : ∀ source, g.Shallow (finished ++ [c.ready]).length source
        ↔ source ∈ finished.flatten ++ c.ready := by
      intro source
      rw [← hflatten, mem_flatten_iff g _ hstaged]
    have hbefore : g.Shallow (finished ++ [c.ready]).length id
        ↔ g.HasNode id ∧ ∀ source, g.Depends source id → source ∈ finished.flatten := by
      rw [List.length_append, List.length_singleton, g.shallow_succ_iff]
      simp only [mem_flatten_iff g finished h.staged]
    have hnone : awaited g (finished.flatten ++ c.ready) [] id = ∅
        ↔ ∀ source, g.Depends source id → source ∈ finished.flatten ++ c.ready := by
      rw [← Set.ncard_eq_zero (finite_awaited g _ _ id), ← unfinished_eq_ncard,
        unfinished_eq_zero_iff]
    rw [Ascending.mem_texts, hreleased.ready, awaited_edgesFrom, hnone, g.depth_iff,
      g.shallow_succ_iff, hbefore]
    simp only [hdone, mem_edgesFrom]
    constructor
    · rintro ⟨⟨e, ⟨hsource, hdep⟩, rfl⟩, hall⟩
      exact ⟨⟨hdep.right, hall⟩, fun hearly => h.new e.source hsource (hearly.2 e.source hdep)⟩
    · rintro ⟨⟨hnode, hall⟩, hlate⟩
      refine ⟨?_, hall⟩
      -- Without a predecessor in the stage it would have been ready before.
      by_contra hnot
      refine hlate ⟨hnode, fun source hdep => ?_⟩
      rcases List.mem_append.mp (hall source hdep) with hearly | hstage
      · exact hearly
      · exact absurd ⟨⟨source, id⟩, ⟨hstage, hdep⟩, rfl⟩ hnot
  · rw [hreleased.waiting, hflatten]
    refine congrArg (tally g.ids) (funext fun id => ?_)
    rw [awaited_edgesFrom, unfinished_eq_ncard]

/-- The invariant holds before every round. -/
theorem Reaches.rounds {g : Graph} {finished : List (List NodeId)} {c : Countdown}
    (h : Reaches g finished c) : Rounds g finished c := by
  induction h with
  | start => exact start_rounds g
  | round finished c _ hne ih => exact finish_rounds g finished c ih hne

/-- Every round finishes a node at least, so there are no more rounds than
    nodes. -/
theorem Rounds.length_le {g : Graph} {finished : List (List NodeId)} {c : Countdown}
    (h : Rounds g finished c) : finished.length ≤ g.ids.length :=
  Nat.le_trans (length_le_flatten g finished h.staged)
    ((nodup_flatten g finished h.staged).length_le_of_subset
      (flatten_subset_ids g finished h.staged))

/-- When as many stages are finished as there are nodes, no node is ready. -/
theorem ready_eq_nil_of_length (g : Graph) (finished : List (List NodeId)) (c : Countdown)
    (h : Rounds g finished c) (hlength : finished.length = g.ids.length) : c.ready = [] := by
  by_contra hne
  have hle := (finish_rounds g finished c h hne).length_le
  rw [List.length_append, List.length_singleton] at hle
  omega

/-- A countdown ends: some time no node is ready. By induction on the number
    of rounds that there may still be. -/
theorem Reaches.exists_end {g : Graph} (left : Nat) (finished : List (List NodeId))
    (c : Countdown) (h : Reaches g finished c) (hleft : finished.length + left = g.ids.length) :
    ∃ stages last, Reaches g stages last ∧ last.ready = [] := by
  induction left generalizing finished c with
  | zero =>
      -- Stages were made of every single node.
      exact ⟨finished, c, h, ready_eq_nil_of_length g finished c h.rounds hleft⟩
  | succ left ih =>
      by_cases hready : c.ready = []
      · exact ⟨finished, c, h, hready⟩
      · refine ih (finished ++ [c.ready]) (c.finish g.dependencies) (h.round finished c hready) ?_
        rw [List.length_append, List.length_singleton]
        omega

theorem run_of_ready_eq_nil (dependencies : List Edge) (fuel : Nat) (c : Countdown)
    (h : c.ready = []) : c.run dependencies fuel = ([], c.waiting) := by
  cases fuel with
  | zero => rfl
  | succ fuel => rw [run, h, List.isEmpty_nil, if_pos rfl]

theorem run_of_ready_ne_nil (dependencies : List Edge) (fuel : Nat) (c : Countdown)
    (h : c.ready ≠ []) : c.run dependencies (fuel + 1) =
      (c.ready :: ((c.finish dependencies).run dependencies fuel).1,
        ((c.finish dependencies).run dependencies fuel).2) := by
  have hnot : ¬ c.ready.isEmpty = true := fun hempty => h (List.isEmpty_iff.mp hempty)
  rw [run, if_neg hnot]

/-- A run goes through every state that a countdown reaches, and goes on from
    there with the fuel that is left. -/
theorem Reaches.run_add {g : Graph} {finished : List (List NodeId)} {c : Countdown}
    (h : Reaches g finished c) (fuel : Nat) :
    (Countdown.start g.ids g.dependencies).run g.dependencies (finished.length + fuel) =
      (finished ++ (c.run g.dependencies fuel).1, (c.run g.dependencies fuel).2) := by
  induction h generalizing fuel with
  | start => rw [List.length_nil, Nat.zero_add, List.nil_append]
  | round finished c _ hne ih =>
      -- The last round is the first that the run takes from the state before.
      rw [List.length_append, List.length_singleton, Nat.add_assoc, Nat.add_comm 1, ih,
        run_of_ready_ne_nil _ _ _ hne, List.append_cons]

/-- What a run gives is the end of the countdown. There is fuel for as many
    rounds as there are nodes, and with more than that it gives the same. -/
theorem Reaches.run_eq {g : Graph} {finished : List (List NodeId)} {c : Countdown}
    (h : Reaches g finished c) (hready : c.ready = []) (fuel : Nat) (hfuel : g.ids.length ≤ fuel) :
    (Countdown.start g.ids g.dependencies).run g.dependencies fuel = (finished, c.waiting) := by
  have hle := Nat.le_trans h.rounds.length_le hfuel
  have hrun := h.run_add (fuel - finished.length)
  rw [Nat.add_sub_cancel' hle, run_of_ready_eq_nil _ _ _ hready, List.append_nil] at hrun
  exact hrun

end Countdown

namespace Graph

/-- How a graph is planned: when the countdown has ended, the plan is made of
    the finished stages, and refused when nodes are left. -/
theorem plan_of_end (g : Graph) (stages : List (List NodeId)) (last : Countdown)
    (h : Countdown.Reaches g stages last) (hready : last.ready = []) :
    g.plan = if stages.flatten.length < g.ids.length
      then .error ⟨cycleNode g.dependencies last.waiting⟩
      else .ok ⟨stages, g.ids.map fun id => (id, sourcesOf g.dependencies id)⟩ := by
  rw [plan, h.run_eq hready _ (Nat.le_refl _)]

/-- Every graph is planned so, with some stages in their places. -/
theorem plan_eq (g : Graph) : ∃ stages last, Countdown.Rounds g stages last ∧ last.ready = [] ∧
    g.plan = if stages.flatten.length < g.ids.length
      then .error ⟨cycleNode g.dependencies last.waiting⟩
      else .ok ⟨stages, g.ids.map fun id => (id, sourcesOf g.dependencies id)⟩ := by
  rcases Countdown.Reaches.start.exists_end g.ids.length [] _ (Nat.zero_add _) with
    ⟨stages, last, hlast, hready⟩
  exact ⟨stages, last, hlast.rounds, hready, g.plan_of_end stages last hlast hready⟩

end Graph

end Workflow
