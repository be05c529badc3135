import Mathlib.Logic.Relation
import Mathlib.Order.Bounds.Basic
import Workflow.Plan

/-!
# Dependencies and Depths

What the stages of a plan are compared with. `Depends` reads the dependencies
off the nodes and the edges of a graph, without sets or orders: there is an
edge, and both of its ends are nodes. A `Path` is counted by its edges, and
the depth of a node is the length of the longest path that ends there. A node
below a cycle has no depth, as longer and longer paths lead to it.

`Shallow` is the form in which depths are found. Whether every path to a node
is shorter than `i + 1` is decided by its direct predecessors, on each of
which every path is shorter than `i`, so the nodes that are shallow at `i`
are those that can be finished in `i` rounds. `depth_iff` and
`shallow_iff_exists_depth` lead from one notion to the other.

## Main definitions

* `HasNode`: An id is that of a node.
* `Depends`: One node consumes the output of another.
* `Path`: A path with a given number of edges.
* `Depth`: The length of the longest path to a node.
* `Shallow`: All paths to a node are shorter than a bound.

## Theorems

* `mem_ids`, `mem_dependencies`, `mem_sourcesOf`: The sets that planning works
  on, read off the graph.
* `pairwise_ids`, `pairwise_dependencies`, `pairwise_sourcesOf`: They are in
  ascending order.
* `shallow_succ_iff`: Shallow nodes are found from their predecessors.
* `depth_iff`: The depth of a node is the first bound it does not keep.
* `shallow_iff_exists_depth`: Shallow nodes are those of smaller depth.
* `depth_lt_of_depends`: A dependency leads to a greater depth.
* `exists_depth_of_succ`: Depths grow by one along a longest path.
* `depth_lt_of_transGen`: So does a path.
* `not_shallow_of_cycle`: No bound is kept on a cycle.
-/

namespace Workflow

namespace Graph

/-- An id is that of a node. -/
def HasNode (g : Graph) (id : NodeId) : Prop := ∃ n ∈ g.nodes, n.id = id

/-- One node consumes the output of another: there is an edge between them,
    and both are nodes of the graph. -/
def Depends (g : Graph) (source target : NodeId) : Prop :=
  ⟨source, target⟩ ∈ g.edges ∧ g.HasNode source ∧ g.HasNode target

/-- A directed path over the dependencies of a graph, with the number of its
    edges. A node alone is a path of no edges. -/
inductive Path (g : Graph) : Nat → NodeId → NodeId → Prop
  | refl (id : NodeId) (hid : g.HasNode id) : Path g 0 id id
  | step (k : Nat) (first last next : NodeId) (hpath : Path g k first last)
      (hdep : g.Depends last next) : Path g (k + 1) first next

/-- The depth of a node is the length of the longest path that ends there. -/
def Depth (g : Graph) (id : NodeId) (i : Nat) : Prop :=
  IsGreatest {k | ∃ first, g.Path k first id} i

/-- All paths to a node are shorter than a bound. -/
def Shallow (g : Graph) (i : Nat) (id : NodeId) : Prop :=
  g.HasNode id ∧ ∀ k first, g.Path k first id → k < i

theorem contains_iff (g : Graph) (id : NodeId) : g.contains id = true ↔ g.HasNode id := by
  rw [contains, node?, List.find?_isSome]
  simp only [decide_eq_true_eq, HasNode]

instance (g : Graph) (id : NodeId) : Decidable (g.HasNode id) :=
  decidable_of_iff _ (g.contains_iff id)

theorem mem_ids (g : Graph) (id : NodeId) : id ∈ g.ids ↔ g.HasNode id := by
  rw [ids, Ascending.mem_texts, List.mem_map]
  exact Iff.rfl

theorem pairwise_ids (g : Graph) : g.ids.Pairwise (· < ·) :=
  Ascending.pairwise_texts _

/-- An ascending list of texts has no repetitions. -/
theorem nodup_of_ascending (items : List String) (h : items.Pairwise (· < ·)) : items.Nodup :=
  Ascending.nodup Ascending.textBefore_irrefl (h.imp decide_eq_true)

/-- Ascending lists of texts are the same when they have the same members. -/
theorem eq_of_ascending (items others : List String) (hitems : items.Pairwise (· < ·))
    (hothers : others.Pairwise (· < ·)) (h : ∀ x, x ∈ items ↔ x ∈ others) : items = others :=
  Ascending.eq_of_mem_iff Ascending.textBefore_irrefl Ascending.textBefore_trans
    (hitems.imp decide_eq_true) (hothers.imp decide_eq_true) h

theorem nodup_ids (g : Graph) : g.ids.Nodup :=
  nodup_of_ascending _ g.pairwise_ids

theorem mem_dependencies (g : Graph) (e : Edge) :
    e ∈ g.dependencies ↔ g.Depends e.source e.target := by
  have hmem := Ascending.mem_ofList Edge.before_total e
    (g.edges.filter fun e => g.ids.contains e.source && g.ids.contains e.target)
  rw [dependencies, hmem, List.mem_filter]
  simp only [Bool.and_eq_true, List.contains_iff_mem, mem_ids, Depends]

theorem pairwise_dependencies (g : Graph) :
    g.dependencies.Pairwise fun e f => Edge.before e f = true :=
  Ascending.pairwise_ofList Edge.before_total Edge.before_trans _

theorem mem_sourcesOf (g : Graph) (source id : NodeId) :
    source ∈ sourcesOf g.dependencies id ↔ g.Depends source id := by
  simp only [sourcesOf, List.mem_map, List.mem_filter, mem_dependencies, decide_eq_true_eq]
  constructor
  · rintro ⟨e, ⟨hdep, htarget⟩, hsource⟩
    rw [← hsource, ← htarget]
    exact hdep
  · intro hdep
    exact ⟨⟨source, id⟩, ⟨hdep, rfl⟩, rfl⟩

/-- The sources on which a node depends are listed in ascending order. Edges
    ascend by source first, and these have the same target. -/
theorem pairwise_sourcesOf (g : Graph) (id : NodeId) :
    (sourcesOf g.dependencies id).Pairwise (· < ·) := by
  rw [sourcesOf, List.pairwise_map]
  refine (g.pairwise_dependencies.filter _).imp_of_mem ?_
  intro e f he hf hef
  have hetarget := of_decide_eq_true (List.mem_filter.mp he).2
  have hftarget := of_decide_eq_true (List.mem_filter.mp hf).2
  rcases (Edge.before_iff e f).mp hef with hlt | ⟨_, hlt⟩
  · exact hlt
  · rw [hetarget, hftarget] at hlt
    exact absurd hlt (String.lt_irrefl id)

theorem Depends.left {g : Graph} {source target : NodeId} (h : g.Depends source target) :
    g.HasNode source := h.2.1

theorem Depends.right {g : Graph} {source target : NodeId} (h : g.Depends source target) :
    g.HasNode target := h.2.2

theorem Path.hasNode {g : Graph} {k : Nat} {first last : NodeId} (h : g.Path k first last) :
    g.HasNode last := by
  cases h with
  | refl _ hid => exact hid
  | step _ _ _ _ _ hdep => exact hdep.right

theorem not_shallow_zero (g : Graph) (id : NodeId) : ¬ g.Shallow 0 id := by
  intro h
  exact Nat.not_lt_zero 0 (h.2 0 id (Path.refl id h.1))

/-- Whether a node is shallow is decided by its direct predecessors: a path
    to it is the empty one, or one edge longer than a path to one of them. -/
theorem shallow_succ_iff (g : Graph) (i : Nat) (id : NodeId) :
    g.Shallow (i + 1) id ↔ g.HasNode id ∧ ∀ source, g.Depends source id → g.Shallow i source := by
  constructor
  · intro h
    refine ⟨h.1, fun source hdep => ⟨hdep.left, fun k first hpath => ?_⟩⟩
    have hlonger := h.2 (k + 1) first (Path.step k first source id hpath hdep)
    omega
  · intro h
    refine ⟨h.1, fun k first hpath => ?_⟩
    cases hpath with
    | refl _ _ => omega
    | step j _ last _ hprev hdep =>
        have hshort := (h.2 last hdep).2 j first hprev
        omega

theorem shallow_mono (g : Graph) (i j : Nat) (id : NodeId) (hij : i ≤ j) (h : g.Shallow i id) :
    g.Shallow j id :=
  ⟨h.1, fun k first hpath => Nat.lt_of_lt_of_le (h.2 k first hpath) hij⟩

/-- The depth of a node is the first bound that its paths do not keep. -/
theorem depth_iff (g : Graph) (id : NodeId) (i : Nat) :
    g.Depth id i ↔ g.Shallow (i + 1) id ∧ ¬ g.Shallow i id := by
  constructor
  · rintro ⟨⟨first, hpath⟩, hmax⟩
    refine ⟨⟨hpath.hasNode, fun k first' hpath' => ?_⟩, fun hshallow => ?_⟩
    · exact Nat.lt_succ_of_le (hmax ⟨first', hpath'⟩)
    · exact Nat.lt_irrefl i (hshallow.2 i first hpath)
  · rintro ⟨hsucc, hnot⟩
    -- Some path is not shorter than `i`, and none is longer.
    have hlong : ∃ k first, g.Path k first id ∧ i ≤ k := by
      by_contra hnone
      refine hnot ⟨hsucc.1, fun k first hpath => ?_⟩
      by_contra hle
      exact hnone ⟨k, first, hpath, by omega⟩
    rcases hlong with ⟨k, first, hpath, hik⟩
    have hki := hsucc.2 k first hpath
    have hkeq : k = i := by omega
    rw [hkeq] at hpath
    refine ⟨⟨first, hpath⟩, ?_⟩
    rintro j ⟨first', hpath'⟩
    have hj := hsucc.2 j first' hpath'
    omega

theorem depth_hasNode (g : Graph) (id : NodeId) (i : Nat) (h : g.Depth id i) : g.HasNode id :=
  ((g.depth_iff id i).mp h).1.1

theorem depth_unique (g : Graph) (id : NodeId) (i j : Nat) (hi : g.Depth id i)
    (hj : g.Depth id j) : i = j :=
  IsGreatest.unique hi hj

/-- The shallow nodes are those of smaller depth. -/
theorem shallow_iff_exists_depth (g : Graph) (i : Nat) (id : NodeId) :
    g.Shallow i id ↔ ∃ j, j < i ∧ g.Depth id j := by
  constructor
  · intro h
    induction i with
    | zero => exact absurd h (g.not_shallow_zero id)
    | succ i ih =>
        by_cases hi : g.Shallow i id
        · rcases ih hi with ⟨j, hj, hdepth⟩
          exact ⟨j, by omega, hdepth⟩
        · exact ⟨i, by omega, (g.depth_iff id i).mpr ⟨h, hi⟩⟩
  · rintro ⟨j, hj, hdepth⟩
    exact g.shallow_mono (j + 1) i id hj ((g.depth_iff id j).mp hdepth).1

/-- A dependency leads to a greater depth. -/
theorem depth_lt_of_depends (g : Graph) (source target : NodeId) (i j : Nat)
    (hdep : g.Depends source target) (hi : g.Depth source i) (hj : g.Depth target j) :
    i < j := by
  rcases hi.1 with ⟨first, hpath⟩
  exact hj.2 ⟨first, Path.step i first source target hpath hdep⟩

/-- A node that is not at the beginning has a direct predecessor that is one
    less deep: the last but one node on a longest path. -/
theorem exists_depth_of_succ (g : Graph) (id : NodeId) (i : Nat) (h : g.Depth id (i + 1)) :
    ∃ source, g.Depends source id ∧ g.Depth source i := by
  rcases h.1 with ⟨first, hpath⟩
  cases hpath with
  | step _ _ last _ hprev hdep =>
      refine ⟨last, hdep, ⟨first, hprev⟩, ?_⟩
      rintro k ⟨first', hpath'⟩
      have hle := h.2 ⟨first', Path.step k first' last id hpath' hdep⟩
      omega

/-- What leads to a shallow node over one edge or more is shallow already one
    round earlier. -/
theorem shallow_of_transGen (g : Graph) (source target : NodeId) (i : Nat)
    (hpath : Relation.TransGen g.Depends source target) (h : g.Shallow (i + 1) target) :
    g.Shallow i source := by
  induction hpath using Relation.TransGen.head_induction_on with
  | single hdep => exact ((g.shallow_succ_iff i target).mp h).2 _ hdep
  | head hdep _ ih =>
      exact ((g.shallow_succ_iff i _).mp (g.shallow_mono i (i + 1) _ (Nat.le_succ i) ih)).2 _ hdep

/-- A path of one edge or more leads to a greater depth as well. -/
theorem depth_lt_of_transGen (g : Graph) (source target : NodeId) (i j : Nat)
    (hpath : Relation.TransGen g.Depends source target) (hi : g.Depth source i)
    (hj : g.Depth target j) : i < j := by
  have hsource := g.shallow_of_transGen source target j hpath ((g.depth_iff target j).mp hj).1
  by_contra hle
  exact ((g.depth_iff source i).mp hi).2 (g.shallow_mono j i source (by omega) hsource)

/-- No bound is kept on a cycle, where a path can go round once more. -/
theorem not_shallow_of_cycle (g : Graph) (id : NodeId) (hcycle : Relation.TransGen g.Depends id id)
    (i : Nat) : ¬ g.Shallow i id := by
  induction i with
  | zero => exact g.not_shallow_zero id
  | succ i ih => exact fun h => ih (g.shallow_of_transGen id id i hcycle h)

end Graph

end Workflow
