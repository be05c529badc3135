import Workflow.Proofs.Countdown

/-!
# Refused Plans

A graph is refused exactly when its dependencies have a cycle, and the node
that is named lies on one.

When the countdown ends with nodes left, every one of them still waits for
another that is left: a node all of whose predecessors are finished would be
ready, and no node is. So the walk backwards among the nodes that are left
never gets stuck. `Trail` follows it without a bound. It keeps every node that
it has seen reachable from where it stands, and it cannot see more nodes than
are left, so it meets one of them again within one step more; that node
reaches itself. That no node merely above or below a cycle is named follows,
as the named one is on a cycle.

## Main definitions

* `leftOf`: The nodes whose number is not zero.
* `Trail`: The walk backwards as it goes on, step by step.

## Theorems

* `mem_left_iff`: The nodes that are left are those that are not shallow.
* `exists_source_left`: A node that is left waits for one that is left.
* `Trail.within`, `Trail.length_le`: The walk stays among the nodes that are
  left, and sees each of them once.
* `Trail.reaches`: What it has seen is reached from where it stands.
* `exists_back`: The walk never gets stuck.
* `walkBack_trail`: The walk ends where it has been before.
* `cycleNode_cycle`: The node that is named is on a cycle.
* `plan_error_iff_cycle`: A graph is refused for a cycle, and only for one.
-/

namespace Workflow

namespace Countdown

/-- When no node is ready, a node waits for something exactly when it is not
    shallow. -/
theorem unfinished_pos_iff (g : Graph) (stages : List (List NodeId)) (last : Countdown)
    (h : Rounds g stages last) (hready : last.ready = []) (id : NodeId) (hid : g.HasNode id) :
    0 < unfinished g stages.flatten id ↔ ¬ g.Shallow stages.length id := by
  have hzero : unfinished g stages.flatten id = 0 ↔ g.Shallow (stages.length + 1) id := by
    rw [unfinished_eq_zero_iff, g.shallow_succ_iff]
    simp only [mem_flatten_iff g stages h.staged, hid, true_and]
  have hnone : ¬ g.Depth id stages.length := by
    intro hdepth
    have hmem := (h.ready.2 id).mpr hdepth
    rw [hready] at hmem
    exact List.not_mem_nil hmem
  constructor
  · intro hpos hshallow
    have hsucc := g.shallow_mono stages.length (stages.length + 1) id (Nat.le_succ _) hshallow
    have heq := hzero.mpr hsucc
    omega
  · intro hnot
    by_contra hle
    exact hnone ((g.depth_iff id stages.length).mpr ⟨hzero.mp (by omega), hnot⟩)

end Countdown

namespace Graph

/-- The ids whose number is not zero. -/
def leftOf (waiting : Entries Nat) : List NodeId :=
  (waiting.filter fun entry => 0 < entry.2).map (·.1)

/-- At the end of a countdown the nodes that are left are those that are not
    shallow. -/
theorem mem_left_iff (g : Graph) (stages : List (List NodeId)) (last : Countdown)
    (h : Countdown.Rounds g stages last) (hready : last.ready = []) (id : NodeId) :
    id ∈ leftOf last.waiting ↔ g.HasNode id ∧ ¬ g.Shallow stages.length id := by
  have hpos := Countdown.unfinished_pos_iff g stages last h hready id
  rw [leftOf, h.waiting, Countdown.tally]
  simp only [List.mem_map, List.mem_filter, decide_eq_true_eq]
  constructor
  · rintro ⟨entry, ⟨⟨k, hk, hentry⟩, hlt⟩, hid⟩
    rw [← hentry] at hlt hid
    simp only at hlt hid
    rw [hid] at hk hlt
    have hnode := (g.mem_ids id).mp hk
    exact ⟨hnode, (hpos hnode).mp hlt⟩
  · rintro ⟨hnode, hnot⟩
    exact ⟨_, ⟨⟨id, (g.mem_ids id).mpr hnode, rfl⟩, (hpos hnode).mpr hnot⟩, rfl⟩

/-- A node that is left waits for one that is left. -/
theorem exists_source_left (g : Graph) (stages : List (List NodeId)) (last : Countdown)
    (h : Countdown.Rounds g stages last) (hready : last.ready = []) (id : NodeId)
    (hid : id ∈ leftOf last.waiting) :
    ∃ source ∈ sourcesOf g.dependencies id, source ∈ leftOf last.waiting := by
  rcases (g.mem_left_iff stages last h hready id).mp hid with ⟨hnode, hnot⟩
  by_contra hnone
  -- With all its predecessors finished, the node would be shallow or ready.
  have hsources : ∀ source, g.Depends source id → g.Shallow stages.length source := by
    intro source hdep
    by_contra hsource
    exact hnone ⟨source, (g.mem_sourcesOf source id).mpr hdep,
      (g.mem_left_iff stages last h hready source).mpr ⟨hdep.left, hsource⟩⟩
  have hsucc := (g.shallow_succ_iff stages.length id).mpr ⟨hnode, hsources⟩
  have hmem := (h.ready.2 id).mpr ((g.depth_iff id stages.length).mpr ⟨hsucc, hnot⟩)
  rw [hready] at hmem
  exact List.not_mem_nil hmem

/-- The walk backwards as it goes on, without a bound: the nodes that it has
    seen, the last one first, and the node where it stands. From a node that
    it sees for the first time it goes on to the smallest source that is
    left. -/
inductive Trail (dependencies : List Edge) (left : List NodeId) (first : NodeId) :
    List NodeId → NodeId → Prop
  | start : Trail dependencies left first [] first
  | back (seen : List NodeId) (id source : NodeId) (h : Trail dependencies left first seen id)
      (hnew : id ∉ seen) (hsource : (sourcesOf dependencies id).find? left.contains = some source) :
      Trail dependencies left first (id :: seen) source

section Trail

variable {dependencies : List Edge} {left : List NodeId} {first : NodeId}

/-- There is always a source left to go to. -/
theorem exists_back
    (hleft : ∀ id ∈ left, ∃ source ∈ sourcesOf dependencies id, source ∈ left) (id : NodeId)
    (hid : id ∈ left) :
    ∃ source, (sourcesOf dependencies id).find? left.contains = some source := by
  rcases hleft id hid with ⟨source, hsource, hin⟩
  exact Option.isSome_iff_exists.mp
    (List.find?_isSome.mpr ⟨source, hsource, List.contains_iff_mem.mpr hin⟩)

variable (hfirst : first ∈ left)

include hfirst

/-- What holds wherever the walk stands: it is and was among the nodes that
    are left, and it has seen each of them once at most. -/
theorem Trail.within {seen : List NodeId} {id : NodeId}
    (h : Trail dependencies left first seen id) : id ∈ left ∧ seen ⊆ left ∧ seen.Nodup := by
  induction h with
  | start => exact ⟨hfirst, List.nil_subset left, List.nodup_nil⟩
  | back seen id source _ hnew hsource ih =>
      rcases ih with ⟨hid, hsubset, hnodup⟩
      exact ⟨List.contains_iff_mem.mp (List.find?_some hsource),
        List.cons_subset.mpr ⟨hid, hsubset⟩, List.nodup_cons.mpr ⟨hnew, hnodup⟩⟩

/-- The walk cannot see more nodes than there are. -/
theorem Trail.length_le {seen : List NodeId} {id : NodeId}
    (h : Trail dependencies left first seen id) : seen.length ≤ left.length :=
  (h.within hfirst).2.2.length_le_of_subset (h.within hfirst).2.1

/-- The walk ends where it has been before, by induction on the fuel. There is
    fuel for one step more than there are nodes to see. -/
theorem walkBack_trail
    (hleft : ∀ id ∈ left, ∃ source ∈ sourcesOf dependencies id, source ∈ left) (fuel : Nat)
    (seen : List NodeId) (id : NodeId) (h : Trail dependencies left first seen id)
    (hfuel : left.length < fuel + seen.length) :
    ∃ seen', Trail dependencies left first seen' (walkBack dependencies left fuel seen id) ∧
      walkBack dependencies left fuel seen id ∈ seen' := by
  induction fuel generalizing seen id with
  | zero =>
      have hle := h.length_le hfirst
      omega
  | succ fuel ih =>
      by_cases hmet : seen.contains id = true
      · rw [walkBack, if_pos hmet]
        exact ⟨seen, h, List.contains_iff_mem.mp hmet⟩
      · rw [walkBack, if_neg hmet]
        have hnew : id ∉ seen := fun hmem => hmet (List.contains_iff_mem.mpr hmem)
        rcases exists_back hleft id (h.within hfirst).1 with ⟨source, hsource⟩
        rw [hsource]
        refine ih (id :: seen) source (h.back seen id source hnew hsource) ?_
        rw [List.length_cons]
        omega

end Trail

/-- Everything that the walk has seen is reached from where it stands. -/
theorem Trail.reaches {g : Graph} {left seen : List NodeId} {first id : NodeId}
    (h : Trail g.dependencies left first seen id) :
    ∀ x ∈ seen, Relation.TransGen g.Depends id x := by
  induction h with
  | start => exact fun x hx => absurd hx List.not_mem_nil
  | back seen id source _ _ hsource ih =>
      have hdep := (g.mem_sourcesOf source id).mp (List.mem_of_find?_eq_some hsource)
      intro x hx
      rcases List.mem_cons.mp hx with heq | hmem
      · rw [heq]
        exact Relation.TransGen.single hdep
      · exact Relation.TransGen.head hdep (ih x hmem)

/-- When nodes are left, the walk begins at the smallest of them, and the node
    that is named is where it ends. -/
theorem cycleNode_trail (g : Graph) (stages : List (List NodeId)) (last : Countdown)
    (h : Countdown.Rounds g stages last) (hready : last.ready = [])
    (hlt : stages.flatten.length < g.ids.length) :
    ∃ first rest seen, leftOf last.waiting = first :: rest ∧
      Trail g.dependencies (leftOf last.waiting) first seen
        (cycleNode g.dependencies last.waiting) ∧
      cycleNode g.dependencies last.waiting ∈ seen := by
  -- A node is left, since not all are in the stages.
  rcases (Countdown.flatten_length_lt_iff g stages h.staged).mp hlt with ⟨id, hid⟩
  have hmem := (g.mem_left_iff stages last h hready id).mpr hid
  cases hleft : leftOf last.waiting with
  | nil =>
      rw [hleft] at hmem
      exact absurd hmem List.not_mem_nil
  | cons first rest =>
      have hnode : cycleNode g.dependencies last.waiting
          = walkBack g.dependencies (first :: rest) ((first :: rest).length + 1) [] first := by
        rw [leftOf] at hleft
        simp only [cycleNode, hleft]
      -- What is left depends on something that is left, so the walk finds a source each time.
      have hsources := g.exists_source_left stages last h hready
      rw [hleft] at hsources
      rw [hnode]
      rcases walkBack_trail List.mem_cons_self hsources _ [] first Trail.start
        (Nat.lt_succ_self _) with ⟨seen, htrail, hseen⟩
      exact ⟨first, rest, seen, rfl, htrail, hseen⟩

/-- The node that a refusal names is on a cycle. -/
theorem cycleNode_cycle (g : Graph) (stages : List (List NodeId)) (last : Countdown)
    (h : Countdown.Rounds g stages last) (hready : last.ready = [])
    (hlt : stages.flatten.length < g.ids.length) :
    Relation.TransGen g.Depends (cycleNode g.dependencies last.waiting)
      (cycleNode g.dependencies last.waiting) := by
  rcases g.cycleNode_trail stages last h hready hlt with ⟨_, _, _, _, htrail, hseen⟩
  exact htrail.reaches _ hseen

/-- A graph is refused exactly when its dependencies have a cycle, and the
    node that is named is a node of the graph that leads back to itself. -/
theorem plan_error_iff_cycle (g : Graph) :
    ((∃ c, g.plan = .error c) ↔ ∃ id, Relation.TransGen g.Depends id id) ∧
      ∀ c, g.plan = .error c →
        g.HasNode c.node ∧ Relation.TransGen g.Depends c.node c.node := by
  rcases g.plan_eq with ⟨stages, last, hrounds, hready, hplan⟩
  -- What the plan names is where the walk has met its own trail.
  have hnamed : ∀ c, g.plan = .error c → Relation.TransGen g.Depends c.node c.node := by
    intro c hc
    rw [hplan] at hc
    by_cases hlt : stages.flatten.length < g.ids.length
    · rw [if_pos hlt, Except.error.injEq] at hc
      rw [← hc]
      exact g.cycleNode_cycle stages last hrounds hready hlt
    · rw [if_neg hlt] at hc
      exact absurd hc (by simp only [reduceCtorEq, not_false_eq_true])
  refine ⟨⟨?_, ?_⟩, fun c hc => ⟨?_, hnamed c hc⟩⟩
  · rintro ⟨c, hc⟩
    exact ⟨c.node, hnamed c hc⟩
  · rintro ⟨id, hcycle⟩
    -- A node on a cycle is in no stage, however many there are.
    rcases Relation.TransGen.head'_iff.mp hcycle with ⟨_, hdep, _⟩
    have hlt := (Countdown.flatten_length_lt_iff g stages hrounds.staged).mpr
      ⟨id, hdep.left, g.not_shallow_of_cycle id hcycle stages.length⟩
    exact ⟨_, hplan.trans (if_pos hlt)⟩
  · rcases Relation.TransGen.head'_iff.mp (hnamed c hc) with ⟨_, hdep, _⟩
    exact hdep.left

/-- A cycle between one node above it and one below it. The walk begins at the
    node below, which has the smallest id of those that are left. -/
def branched : Graph :=
  ofPairs [("a", .action), ("b", .email), ("c", .action), ("d", .action)]
    [("d", "b"), ("b", "c"), ("c", "b"), ("c", "a"), ("c", "x")]

theorem plan_branched : branched.plan = .error ⟨"c"⟩ ∧
    branched.HasNode "c" ∧ Relation.TransGen branched.Depends "c" "c" :=
  ⟨rfl, (plan_error_iff_cycle branched).2 ⟨"c"⟩ rfl⟩

end Graph

end Workflow
