import Workflow.Proofs.Cycle

/-!
# The Moments of a Countdown

What holds throughout the planning of a graph, at every moment of it and not
only for the plan that comes of it.

A moment of the countdown is a round that has come some way: some stages are
finished, and some of the edges on the next one are behind. `Rounds.moment`
says how the numbers stand there. Every number counts the nodes for which its
node still waits; no edge has been taken twice, in this round or before; and
no node has got ready twice. So a release always finds a number that is not
zero (`Rounds.lowers`), and putting the collected nodes in order drops none of
them (`Rounds.finish_perm`).

When no node is ready any more and nodes are left, each of these waits for
another one (`exists_source_waiting`), so the walk backwards can always go on.
It sees none of them twice, and has met one again after as many steps as there
are nodes left.

Neither the countdown nor the walk is bounded here. `Countdown.Reaches` and
`Trail` go on as long as there is something to do, and that this is not long
is part of what is shown.

## Main definitions

* `Countdown.Moment`: How the numbers stand in the middle of a round.
* `Retraced`: How the walk backwards goes.
* `CountedThroughout`: What holds throughout the planning of a graph.

## Theorems

* `Rounds.find?_waiting_iff`: The number of a node before a round.
* `Rounds.later`: No edge leads from a stage to itself or back.
* `Rounds.moment`: How the numbers stand at every moment.
* `Rounds.lowers`: A release takes one from a number that is not zero.
* `Rounds.finish_perm`: What got ready in a round is the next stage.
* `mem_leftOf_iff`: The nodes that are left are those whose number is not zero.
* `exists_source_waiting`: A node that is left waits for one that is left.
* `retraced_of_left`: The walk backwards goes on and ends.
* `counted_throughout`: All of it, for every graph.
-/

namespace Workflow

namespace Countdown

/-- How the numbers stand when some stages are finished and some edges on the
    next one are behind. A node's number counts the nodes it depends on that
    are neither finished nor at the beginning of an edge to it that is behind.
    The edges that were taken so far are dependencies, and none was taken
    twice. No node is in two of the stages or among those that got ready by
    now, or twice in one of them. -/
structure Moment (g : Graph) (finished : List (List NodeId)) (c : Countdown) (edges : List Edge) :
    Prop where
  number : ∀ id n, Entries.find? id (c.partway edges).waiting = some n ↔
    g.HasNode id ∧ n = (awaited g finished.flatten edges id).ncard
  known : ∀ e ∈ edgesFrom g.dependencies finished.flatten ++ edges, g.Depends e.source e.target
  once : (edgesFrom g.dependencies finished.flatten ++ edges).Nodup
  fresh : (finished.flatten ++ c.ready ++ (c.partway edges).ready).Nodup

section Rounds

variable {g : Graph} {finished : List (List NodeId)} {c : Countdown} (h : Rounds g finished c)

include h

/-- The number of a node before a round. -/
theorem Rounds.find?_waiting_iff (id : NodeId) (n : Nat) :
    Entries.find? id c.waiting = some n ↔
      g.HasNode id ∧ n = {source | g.Depends source id ∧ source ∉ finished.flatten}.ncard := by
  have hset : awaited g finished.flatten [] id
      = {source | g.Depends source id ∧ source ∉ finished.flatten} := by
    ext source
    simp only [mem_awaited, List.not_mem_nil, not_false_iff, and_true, Set.mem_ofPred_eq]
  rw [h.waiting, find?_tally, unfinished_eq_ncard, hset]

theorem Rounds.nodup : (finished.flatten ++ c.ready).Nodup :=
  List.nodup_append'.mpr ⟨nodup_flatten g finished h.staged,
    Graph.nodup_of_ascending _ h.ready.1, fun id hdone hready => h.new id hready hdone⟩

/-- The nodes that depend on a node of the next stage are neither in it nor
    finished: all that they depend on would be finished before the stage. -/
theorem Rounds.later (source target : NodeId) (hsource : source ∈ c.ready)
    (hdep : g.Depends source target) : target ∉ finished.flatten ++ c.ready := by
  intro htarget
  -- Then its source would be in an earlier stage than the one it is ready for.
  have hshallow : g.Shallow (finished.length + 1) target := by
    rcases List.mem_append.mp htarget with hdone | hready
    · exact g.shallow_mono _ _ target (Nat.le_succ _)
        ((mem_flatten_iff g finished h.staged target).mp hdone)
    · exact ((g.depth_iff target _).mp ((h.ready.2 target).mp hready)).1
  have hearly := ((g.shallow_succ_iff finished.length target).mp hshallow).2 source hdep
  exact h.new source hsource ((mem_flatten_iff g finished h.staged source).mpr hearly)

/-- How the numbers stand at every moment of a round. -/
theorem Rounds.moment (edges pending : List Edge)
    (hsplit : edges ++ pending = edgesFrom g.dependencies c.ready) :
    Moment g finished c edges := by
  have hreleased := h.released edges pending hsplit
  have hedges : ∀ e ∈ edges, e.source ∈ c.ready ∧ g.Depends e.source e.target := by
    intro e he
    rw [← mem_edgesFrom, ← hsplit]
    exact List.mem_append_left pending he
  refine ⟨fun id n => ?_, fun e he => ?_, ?_, ?_⟩
  · rw [hreleased.waiting, find?_tally]
  · rcases List.mem_append.mp he with hdone | hround
    · exact ((mem_edgesFrom g finished.flatten e).mp hdone).2
    · exact (hedges e hround).2
  -- The edges of this round are a beginning of those of its whole stage.
  · have hall := nodup_edgesFrom g _ h.nodup
    rw [edgesFrom_append, ← hsplit, ← List.append_assoc] at hall
    exact hall.of_append_left
  · refine List.nodup_append'.mpr ⟨h.nodup, hreleased.once, fun id hold hnew => ?_⟩
    -- What got ready is at the end of an edge that is behind.
    rcases ((hreleased.ready id).mp hnew).1 with ⟨e, he, htarget⟩
    rw [← htarget] at hold
    exact h.later e.source e.target (hedges e he).1 (hedges e he).2 hold

/-- A release takes one from a number that is not zero, and collects the node
    exactly when that was its last one. -/
theorem Rounds.lowers (edges : List Edge) (e : Edge) (pending : List Edge)
    (hsplit : edges ++ e :: pending = edgesFrom g.dependencies c.ready) :
    ∃ n, Entries.find? e.target (c.partway edges).waiting = some (n + 1) ∧
      Entries.find? e.target (c.partway (edges ++ [e])).waiting = some n ∧
      (c.partway (edges ++ [e])).ready =
        if n = 0 then (c.partway edges).ready ++ [e.target] else (c.partway edges).ready := by
  rcases next_edge g c.ready (Graph.nodup_of_ascending _ h.ready.1) edges e pending hsplit with
    ⟨hsource, hdep, hnew⟩
  have hdone := h.new e.source hsource
  have hreleased := h.released edges (e :: pending) hsplit
  refine ⟨(awaited g finished.flatten (edges ++ [e]) e.target).ncard, ?_, ?_, ?_⟩
  · rw [hreleased.waiting, find?_tally]
    exact ⟨hdep.right, ncard_awaited_concat g _ edges e hdep hdone hnew⟩
  -- The number after the release is that of the nodes still awaited then.
  · rw [partway_concat, hreleased.release_eq e hdep hdone hnew, find?_tally]
    exact ⟨hdep.right, rfl⟩
  · rw [partway_concat, hreleased.release_eq e hdep hdone hnew]

/-- What got ready in a round is the next stage, in another order. -/
theorem Rounds.finish_perm : (c.finish g.dependencies).ready.Perm
    (c.partway (edgesFrom g.dependencies c.ready)).ready := by
  have honce := (h.released _ [] (List.append_nil _)).once
  rw [finish_eq]
  refine (List.perm_ext_iff_of_nodup ?_ honce).mpr fun id => Ascending.mem_texts id _
  exact Graph.nodup_of_ascending _ (Ascending.pairwise_texts _)

end Rounds

/-- A node with two predecessors, one of them named twice, and an edge from
    nowhere. When the first edge of the round is behind, the node waits for the
    second; nothing is ready yet. -/
example :
    let g := Graph.ofPairs [("c", .action), ("a", .trigger), ("b", .fileUpload)]
      [("b", "c"), ("x", "c"), ("a", "c"), ("b", "c")]
    (start g.ids g.dependencies).partway [⟨"a", "c"⟩] = ⟨[("a", 0), ("b", 0), ("c", 1)], []⟩ := by
  rfl

end Countdown

namespace Graph

/-- The nodes that are left are those whose number is not zero. -/
theorem mem_leftOf_iff (waiting : Entries Nat) (hkeys : waiting.keys.Nodup) (id : NodeId) :
    id ∈ leftOf waiting ↔ ∃ n, Entries.find? id waiting = some n ∧ 0 < n := by
  simp only [leftOf, List.mem_map, List.mem_filter, decide_eq_true_eq,
    Entries.find?_eq_some_iff waiting hkeys]
  constructor
  · rintro ⟨⟨key, n⟩, ⟨hmem, hpos⟩, rfl⟩
    exact ⟨n, hmem, hpos⟩
  · rintro ⟨n, hmem, hpos⟩
    exact ⟨(id, n), ⟨hmem, hpos⟩, rfl⟩

section End

variable (g : Graph) (stages : List (List NodeId)) (last : Countdown)
  (h : Countdown.Rounds g stages last) (hready : last.ready = [])

include h

theorem nodup_keys_waiting : last.waiting.keys.Nodup := by
  rw [h.waiting, Countdown.keys_tally]
  exact g.nodup_ids

include hready

/-- At the end of a countdown a node whose number is not zero depends on
    another one. -/
theorem exists_source_waiting (id : NodeId) (n : Nat)
    (hfind : Entries.find? id last.waiting = some n) (hpos : 0 < n) :
    ∃ source m, g.Depends source id ∧ Entries.find? source last.waiting = some m ∧ 0 < m := by
  have hkeys := g.nodup_keys_waiting stages last h
  have hid := (mem_leftOf_iff last.waiting hkeys id).mpr ⟨n, hfind, hpos⟩
  rcases g.exists_source_left stages last h hready id hid with ⟨source, hsource, hleft⟩
  rcases (mem_leftOf_iff last.waiting hkeys source).mp hleft with ⟨m, hm, hmpos⟩
  exact ⟨source, m, (g.mem_sourcesOf source id).mp hsource, hm, hmpos⟩

end End

/-- How the walk backwards goes over the nodes that are left. Wherever it
    stands there is a node to go on to, it has seen at most as many nodes as
    are left, and it ends where it has been before, which is at the node that
    is named. To find that out takes one step more than it has seen nodes. -/
structure Retraced (g : Graph) (waiting : Entries Nat) (first : NodeId) : Prop where
  onward : ∀ seen id, Trail g.dependencies (leftOf waiting) first seen id →
    ∃ source, (sourcesOf g.dependencies id).find? (leftOf waiting).contains = some source
  short : ∀ seen id, Trail g.dependencies (leftOf waiting) first seen id →
    seen.length + 1 ≤ (leftOf waiting).length + 1
  ends : ∃ seen, Trail g.dependencies (leftOf waiting) first seen
    (cycleNode g.dependencies waiting) ∧ cycleNode g.dependencies waiting ∈ seen

/-- What holds throughout the planning of a graph.

    Before every round the number of a node is that of its predecessors that
    are not in a finished stage, and at every moment of a round the numbers
    stand as `Countdown.Moment` says. The release that comes next finds a
    number that is not zero and takes one from it. What a round collects is
    the next stage. There are no more rounds than nodes and the countdown
    ends. A run goes through all of it, and with fuel for that many rounds or
    more it gives what the countdown ends with.

    At the end every node whose number is not zero depends on another one. If
    there are such nodes the plan is refused, and the walk backwards that finds
    the node to name begins at the first of them, always goes on, and sees none
    of them twice; otherwise it is made of the stages. -/
structure CountedThroughout (g : Graph) : Prop where
  number : ∀ finished c, Countdown.Reaches g finished c → ∀ id n,
    Entries.find? id c.waiting = some n ↔
      g.HasNode id ∧ n = {source | g.Depends source id ∧ source ∉ finished.flatten}.ncard
  moment : ∀ finished c, Countdown.Reaches g finished c → ∀ edges pending,
    edges ++ pending = Countdown.edgesFrom g.dependencies c.ready →
      Countdown.Moment g finished c edges
  lowers : ∀ finished c, Countdown.Reaches g finished c → ∀ edges e pending,
    edges ++ e :: pending = Countdown.edgesFrom g.dependencies c.ready →
      ∃ n, Entries.find? e.target (c.partway edges).waiting = some (n + 1) ∧
        Entries.find? e.target (c.partway (edges ++ [e])).waiting = some n ∧
        (c.partway (edges ++ [e])).ready =
          if n = 0 then (c.partway edges).ready ++ [e.target] else (c.partway edges).ready
  finish : ∀ finished c, Countdown.Reaches g finished c →
    (c.finish g.dependencies).waiting =
        (c.partway (Countdown.edgesFrom g.dependencies c.ready)).waiting ∧
      (c.finish g.dependencies).ready.Perm
        (c.partway (Countdown.edgesFrom g.dependencies c.ready)).ready
  rounds : ∀ finished c, Countdown.Reaches g finished c → finished.length ≤ g.ids.length
  ends : ∃ finished last, Countdown.Reaches g finished last ∧ last.ready = []
  through : ∀ finished c, Countdown.Reaches g finished c → ∀ fuel,
    (Countdown.start g.ids g.dependencies).run g.dependencies (finished.length + fuel) =
      (finished ++ (c.run g.dependencies fuel).1, (c.run g.dependencies fuel).2)
  run : ∀ finished last, Countdown.Reaches g finished last → last.ready = [] →
    ∀ fuel, g.ids.length ≤ fuel →
      (Countdown.start g.ids g.dependencies).run g.dependencies fuel = (finished, last.waiting)
  left : ∀ finished last, Countdown.Reaches g finished last → last.ready = [] → ∀ id n,
    Entries.find? id last.waiting = some n → 0 < n →
      ∃ source m, g.Depends source id ∧ Entries.find? source last.waiting = some m ∧ 0 < m
  plan : ∀ finished last, Countdown.Reaches g finished last → last.ready = [] →
    g.plan = if finished.flatten.length < g.ids.length
      then .error ⟨cycleNode g.dependencies last.waiting⟩
      else .ok ⟨finished, g.ids.map fun id => (id, sourcesOf g.dependencies id)⟩
  walk : ∀ finished last, Countdown.Reaches g finished last → last.ready = [] →
    finished.flatten.length < g.ids.length →
      ∃ first rest, leftOf last.waiting = first :: rest ∧ g.Retraced last.waiting first

/-- When nodes are left, the walk backwards goes over them, and there is a
    first one to begin at. -/
theorem retraced_of_left (g : Graph) (stages : List (List NodeId)) (last : Countdown)
    (h : Countdown.Rounds g stages last) (hready : last.ready = [])
    (hlt : stages.flatten.length < g.ids.length) :
    ∃ first rest, leftOf last.waiting = first :: rest ∧ g.Retraced last.waiting first := by
  rcases g.cycleNode_trail stages last h hready hlt with
    ⟨first, rest, seen, hleft, htrail, hseen⟩
  have hfirst : first ∈ leftOf last.waiting := by
    rw [hleft]
    exact List.mem_cons_self
  -- Each step back finds a node that is left, and the trail never gets longer than what is
  -- left.
  refine ⟨first, rest, hleft, fun seen id hat => ?_, fun seen id hat => ?_, seen, htrail, hseen⟩
  · exact exists_back (g.exists_source_left stages last h hready) id (hat.within hfirst).1
  · exact Nat.succ_le_succ (hat.length_le hfirst)

/-- The numbers are right throughout the planning of every graph, and the
    countdown and the walk backwards end in time. -/
theorem counted_throughout (g : Graph) : g.CountedThroughout where
  number := fun finished c h => h.rounds.find?_waiting_iff
  moment := fun finished c h edges pending hsplit => h.rounds.moment edges pending hsplit
  lowers := fun finished c h edges e pending hsplit => h.rounds.lowers edges e pending hsplit
  finish := fun finished c h => ⟨by rw [Countdown.finish_eq], h.rounds.finish_perm⟩
  rounds := fun finished c h => h.rounds.length_le
  ends := Countdown.Reaches.start.exists_end g.ids.length [] _ (Nat.zero_add _)
  through := fun finished c h fuel => h.run_add fuel
  run := fun finished last h hready fuel hfuel => h.run_eq hready fuel hfuel
  left := fun finished last h hready id n hfind hpos =>
    g.exists_source_waiting finished last h.rounds hready id n hfind hpos
  plan := g.plan_of_end
  walk := fun finished last h hready hlt => g.retraced_of_left finished last h.rounds hready hlt

end Graph

end Workflow
