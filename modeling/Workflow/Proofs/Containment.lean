import Workflow.Proofs.Endings

/-!
# Containment of Failures

What the failure of a node means for the rest of a run that is not cancelled.

While it runs, a node is skipped when one of its direct predecessors failed or
was skipped, unless its kind tolerates that. Seen from the end, the nodes that
were skipped are those that are exposed to a failure: a path leads there from a
node that failed, and no node on it, after the first, tolerates anything
(`skipped_iff_exposed`). A node that tolerates failures ends the path. It is
never skipped, so it makes up for the failures directly before it, and the
status of a run can be read off the nodes that failed and the kinds of those
that come directly after them (`status_iff_failures`).

Both theorems are about runs that are over and in which nobody chose to cancel.
Then what is left of the ways in which a node may be settled is either an
attempt of its own or a predecessor that is to blame.

## Main definitions

* `Tolerates`, `Exposed`: Which nodes a failure reaches.
* `EndedAs`: How a node ended.
* `Blames`: The predecessor because of which a node was skipped.
* `Contains`: What failures do to the nodes of a run.
* `StatusExplained`: What failures do to the status of a run.

## Theorems

* `skipped_of_exposed`, `blames_of_skipped`: One step of a failure.
* `skipped_iff_exposed`: What failures do to the nodes of a run.
* `contained_iff`: What makes up for a failure.
* `status_iff_failures`: What failures do to the status of a run.
-/

namespace Workflow

namespace Graph

/-- A node runs in spite of failures before it. -/
def Tolerates (g : Graph) (id : NodeId) : Prop :=
  ∃ node, g.node? id = some node ∧ node.kind.tolerant = true

/-- A node has no output when the other one has none. -/
def Exposed (g : Graph) (source target : NodeId) : Prop :=
  g.Depends source target ∧ ¬ g.Tolerates target

theorem tolerates_iff (g : Graph) (node : Node) (h : g.node? node.id = some node) :
    g.Tolerates node.id ↔ node.kind.tolerant = true := by
  simp only [Tolerates, h, Option.some.injEq, exists_eq_left']

end Graph

namespace RunResult

/-- How a node ended. -/
def EndedAs (r : RunResult) (id : NodeId) (status : NodeStatus) : Prop :=
  ∃ run, r.node? id = some run ∧ run.status = status

/-- The smallest direct predecessor of a node that failed or was skipped, and
    which of both it was. -/
structure Blames (g : Graph) (r : RunResult) (id predecessor : NodeId) (status : NodeStatus) :
    Prop where
  depends : g.Depends predecessor id
  missing : status = .failed ∨ status = .skipped
  ended : r.EndedAs predecessor status
  first : ∀ p, g.Depends p id → r.EndedAs p .failed ∨ r.EndedAs p .skipped → predecessor ≤ p

/-- What failures do to the nodes of a run. The nodes that are skipped are
    those that a path of exposed nodes joins to one that failed. They were not
    attempted, and the error names a predecessor and how it ended. All other
    nodes were attempted, and the attempts are counted unless the handler broke
    down. Without a failure nothing is skipped. -/
structure Contains (g : Graph) (attempted : NodeId → Prop) (r : RunResult) : Prop where
  skipped_iff : ∀ id, r.EndedAs id .skipped ↔
    ∃ f, r.EndedAs f .failed ∧ Relation.TransGen g.Exposed f id
  skipped : ∀ id run, r.node? id = some run → run.status = .skipped →
    run.attempts = 0 ∧ ¬ attempted id ∧ ∃ predecessor status,
      r.Blames g id predecessor status ∧
      run.error = some ⟨.predecessor, "predecessor " ++ predecessor ++ " " ++ status.label⟩
  others : ∀ id run, r.node? id = some run → run.status ≠ .skipped →
    attempted id ∧ (0 < run.attempts ∨ run.error = some ⟨.permanent, "handler panicked"⟩)
  calm : (∀ id, ¬ r.EndedAs id .failed) → ∀ id, ¬ r.EndedAs id .skipped

/-- What failures do to the status of a run. It fails when no node that comes
    directly after some failure tolerates it. It succeeds when every node does.
    Otherwise it is partial, and then there is a failure, and after every failure
    a node that tolerates it and was attempted. -/
structure StatusExplained (g : Graph) (attempted : NodeId → Prop) (r : RunResult) : Prop where
  failed_iff : r.status = .failed ↔
    ∃ f, r.EndedAs f .failed ∧ ∀ next, g.Depends f next → ¬ g.Tolerates next
  succeeded_iff : r.status = .succeeded ↔ ∀ id, g.HasNode id → r.EndedAs id .succeeded
  otherwise : r.status ≠ .failed → r.status ≠ .succeeded → r.status = .partly
  partly : r.status = .partly → (∃ f, r.EndedAs f .failed) ∧
    ∀ f, r.EndedAs f .failed → ∃ next, g.Depends f next ∧ g.Tolerates next ∧ attempted next

end RunResult

namespace RunState

/-- A run is over and was not cancelled. -/
structure Calm (setup : Setup) (s : RunState) : Prop where
  sound : s.Sound setup
  ended : s.status ≠ none
  calm : s.cancelled = false

variable {setup : Setup} {s : RunState}

theorem endedAs_iff (setup : Setup) (s : RunState) (id : NodeId) (status : NodeStatus) :
    (s.result setup).EndedAs id status ↔ ∃ r, s.record? id = some r ∧ r.status = status :=
  Iff.rfl

theorem EndedAs.unique {id : NodeId} {a b : NodeStatus} (ha : (s.result setup).EndedAs id a)
    (hb : (s.result setup).EndedAs id b) : a = b := by
  rcases ha with ⟨run, hrun, hstatus⟩
  rcases hb with ⟨run', hrun', hstatus'⟩
  rw [hrun, Option.some.injEq] at hrun'
  rw [← hstatus, ← hstatus', hrun']

theorem Calm.settled_of_record? (h : s.Calm setup) (id : NodeId) (r : NodeRun)
    (hr : s.record? id = some r) :
    ∃ node, node.id = id ∧ setup.graph.node? node.id = some node ∧ r.node = id ∧
      r.kind = node.kind ∧ s.Settled setup node r :=
  h.sound.settled_of_over h.ended id r hr

/-- One step of a failure: a node that is exposed to one without an output is
    skipped. -/
theorem Calm.skipped_of_exposed (h : s.Calm setup) (p id : NodeId)
    (hexposed : setup.graph.Exposed p id)
    (hmissing : (s.result setup).EndedAs p .failed ∨ (s.result setup).EndedAs p .skipped) :
    (s.result setup).EndedAs id .skipped := by
  rcases h.sound.exists_record? id hexposed.1.right with ⟨r, hr⟩
  rcases h.settled_of_record? id r hr with ⟨node, hnamed, hnode, _, _, hsettled⟩
  have hmem := (setup.graph.mem_predecessorsOf setup.plan h.sound.planned id p).mpr hexposed.1
  -- Neither was it free to run because of its kind, nor because of its
  -- predecessors.
  have hbound : ¬ (node.kind.tolerant = true ∨ s.Fed setup node.id) := by
    rintro (htolerant | hfed)
    · refine hexposed.2 ?_
      rw [← hnamed]
      exact (setup.graph.tolerates_iff node hnode).mpr htolerant
    · rw [hnamed] at hfed
      rcases hmissing with hp | hp <;> exact absurd (EndedAs.unique hp (hfed p hmem)) nofun
  cases hsettled with
  | succeeded _ _ _ _ _ _ hfree | failed _ _ _ _ _ _ _ hfree => exact absurd hfree hbound
  | blocked _ _ hstatus => exact ⟨r, hr, hstatus⟩
  | cancelled _ _ _ _ _ hcancelled => exact absurd (hcancelled.symm.trans h.calm) nofun

/-- One step of a failure, seen from its end: what is known of a node that was
    skipped. -/
theorem Calm.blames_of_skipped (h : s.Calm setup) (id : NodeId) (r : NodeRun)
    (hr : s.record? id = some r) (hstatus : r.status = .skipped) :
    r.attempts = 0 ∧ s.starts id = 0 ∧ ¬ setup.graph.Tolerates id ∧
      ∃ predecessor status, (s.result setup).Blames setup.graph id predecessor status ∧
        r.error = some ⟨.predecessor, blockedReason predecessor status⟩ := by
  rcases h.settled_of_record? id r hr with ⟨node, hnamed, hnode, _, _, hsettled⟩
  rw [← hnamed]
  cases hsettled with
  | succeeded _ hother | failed _ hother => exact absurd (hother.symm.trans hstatus) nofun
  | cancelled _ _ _ _ _ hcancelled => exact absurd (hcancelled.symm.trans h.calm) nofun
  | blocked predecessor status _ _ herror hattempts hstarts hkind hblocked =>
      refine ⟨hattempts, hstarts, ?_, predecessor, status, ⟨?_, hblocked.ended, hblocked.known, ?_⟩,
        herror⟩
      · rw [setup.graph.tolerates_iff node hnode, hkind]
        exact Bool.false_ne_true
      · exact (setup.graph.mem_predecessorsOf setup.plan h.sound.planned _ _).mp hblocked.mem
      -- What stands before the one to blame has succeeded.
      · intro p hp hmissing hlt
        have hmem := (setup.graph.mem_predecessorsOf setup.plan h.sound.planned _ p).mpr hp
        have hsucceeded : (s.result setup).EndedAs p .succeeded := hblocked.first p hmem hlt
        rcases hmissing with hother | hother <;>
          exact absurd (EndedAs.unique hother hsucceeded) nofun

/-- A failure leads to every node that was skipped. -/
theorem Calm.exists_failure (h : s.Calm setup) (i : Nat) :
    ∀ id, setup.graph.Depth id i → (s.result setup).EndedAs id .skipped →
      ∃ f, (s.result setup).EndedAs f .failed ∧ Relation.TransGen setup.graph.Exposed f id := by
  -- The induction is on the depth of the node: the predecessor that is to blame is nearer to
  -- the first stage, and it failed itself or was skipped because of another one.
  induction i using Nat.strong_induction_on with
  | h i ih =>
      rintro id hdepth ⟨r, hr, hstatus⟩
      rcases h.blames_of_skipped id r hr hstatus with ⟨_, _, hbound, p, status, hblames, _⟩
      have hexposed : setup.graph.Exposed p id := ⟨hblames.depends, hbound⟩
      have hended := hblames.ended
      rcases hblames.missing with heq | heq
      · rw [heq] at hended
        exact ⟨p, hended, Relation.TransGen.single hexposed⟩
      · rw [heq] at hended
        have hp := hblames.depends.left
        rcases setup.graph.exists_depth_of_plan setup.plan h.sound.planned p hp with ⟨j, hdepthj⟩
        have hlt := setup.graph.depth_lt_of_depends p id j i hblames.depends hdepthj hdepth
        rcases ih j hlt p hdepthj hended with ⟨f, hfailed, hpath⟩
        exact ⟨f, hfailed, hpath.tail hexposed⟩

/-- The nodes that are skipped are those that are exposed to a failure. -/
theorem Calm.skipped_iff (h : s.Calm setup) (id : NodeId) :
    (s.result setup).EndedAs id .skipped ↔
      ∃ f, (s.result setup).EndedAs f .failed ∧ Relation.TransGen setup.graph.Exposed f id := by
  constructor
  · rintro ⟨r, hr, hstatus⟩
    have hid := h.sound.hasNode_of_record? id r hr
    rcases setup.graph.exists_depth_of_plan setup.plan h.sound.planned id hid with ⟨i, hdepth⟩
    exact h.exists_failure i id hdepth ⟨r, hr, hstatus⟩
  -- The failure is passed on along the path, from each node to the next.
  · rintro ⟨f, hfailed, hpath⟩
    induction hpath with
    | single hexposed => exact h.skipped_of_exposed f _ hexposed (Or.inl hfailed)
    | tail _ hexposed ih => exact h.skipped_of_exposed _ _ hexposed (Or.inr ih)

/-- A node that was not skipped was attempted. -/
theorem Calm.attempted_of_not_skipped (h : s.Calm setup) (id : NodeId) (r : NodeRun)
    (hr : s.record? id = some r) (hstatus : r.status ≠ .skipped) :
    0 < s.starts id ∧ (0 < r.attempts ∨ r.error = some ⟨.permanent, "handler panicked"⟩) := by
  rcases h.settled_of_record? id r hr with ⟨node, hnamed, _, _, _, hsettled⟩
  rw [← hnamed]
  cases hsettled with
  | blocked _ _ hother | cancelled _ hother => exact absurd hother hstatus
  | succeeded _ _ _ _ hattempts hstarts =>
      rw [hattempts]
      exact ⟨hstarts, Or.inl hstarts⟩
  | failed error _ _ herror _ hattempts hstarts =>
      refine ⟨hstarts, ?_⟩
      -- A handler that broke down leaves no count, but its error tells of it.
      rcases hattempts with hcounted | ⟨_, hpanicked⟩
      · rw [hcounted]
        exact Or.inl hstarts
      · rw [herror, hpanicked]
        exact Or.inr rfl

theorem Calm.status_of_tolerates (h : s.Calm setup) (id : NodeId) (r : NodeRun)
    (hr : s.record? id = some r) (htolerates : setup.graph.Tolerates id) :
    r.status = .succeeded ∨ r.status = .failed := by
  rcases h.settled_of_record? id r hr with ⟨_, _, _, _, _, hsettled⟩
  rcases hsettled.status_cases with hstatus | hstatus | hstatus
  · exact Or.inl hstatus
  · exact Or.inr hstatus
  · exact absurd htolerates (h.blames_of_skipped id r hr hstatus).2.2.1

theorem Sound.any_records_iff (h : s.Sound setup) (property : NodeRun → Bool) :
    ((s.records.map (·.2)).any property = true) ↔
      ∃ id r, s.record? id = some r ∧ property r = true := by
  rw [List.any_map, List.any_eq_true]
  constructor
  · rintro ⟨⟨id, r⟩, hmem, hproperty⟩
    exact ⟨id, r, (h.mem_records_iff id r).mp hmem, hproperty⟩
  · rintro ⟨id, r, hr, hproperty⟩
    exact ⟨(id, r), (h.mem_records_iff id r).mpr hr, hproperty⟩

/-- A failure is made up for by a node directly after it that tolerates it. -/
theorem Calm.contained_iff (h : s.Calm setup) (id : NodeId) (hid : setup.graph.HasNode id) :
    contained setup.graph s.records id = true ↔
      ∃ next, setup.graph.Depends id next ∧ setup.graph.Tolerates next := by
  rw [contained, List.any_eq_true]
  constructor
  · rintro ⟨e, he, hfound⟩
    rcases List.mem_filter.mp he with ⟨hedge, hsource⟩
    rw [decide_eq_true_eq] at hsource
    cases hr : Entries.find? e.target s.records with
    | none =>
        rw [hr] at hfound
        exact absurd hfound Bool.false_ne_true
    | some r =>
        rw [hr] at hfound
        rcases h.settled_of_record? e.target r hr with ⟨node, hnamed, hnode, _, hkind, _⟩
        have htolerant := ((Bool.and_eq_true _ _).mp hfound).1
        rw [hkind] at htolerant
        refine ⟨e.target, ⟨?_, hid, h.sound.hasNode_of_record? e.target r hr⟩, ?_⟩
        · rw [← hsource]
          exact hedge
        · rw [← hnamed]
          exact (setup.graph.tolerates_iff node hnode).mpr htolerant
  -- A node that tolerates failures is never skipped, so its kind alone decides.
  · rintro ⟨next, hdep, htolerates⟩
    rcases h.sound.exists_record? next hdep.right with ⟨r, hr⟩
    rcases h.settled_of_record? next r hr with ⟨node, hnamed, hnode, _, hkind, _⟩
    have hstatus := h.status_of_tolerates next r hr htolerates
    rw [← hnamed, setup.graph.tolerates_iff node hnode] at htolerates
    refine ⟨⟨id, next⟩, List.mem_filter.mpr ⟨hdep.1, decide_eq_true rfl⟩, ?_⟩
    rw [record?] at hr
    simp only [hr, hkind, htolerates, Bool.true_and, Bool.or_eq_true, decide_eq_true_eq]
    exact hstatus

theorem Calm.any_failure_iff (h : s.Calm setup) :
    ((s.records.map (·.2)).any fun r =>
      r.status = .failed && !contained setup.graph s.records r.node) = true ↔
    ∃ f, (s.result setup).EndedAs f .failed ∧
      ∀ next, setup.graph.Depends f next → ¬ setup.graph.Tolerates next := by
  -- A failure is contained when a node after it tolerates it.
  have hlost : ∀ f r, s.record? f = some r →
      ((!contained setup.graph s.records r.node) = true ↔
        ∀ next, setup.graph.Depends f next → ¬ setup.graph.Tolerates next) := by
    intro f r hr
    rcases h.settled_of_record? f r hr with ⟨_, _, _, hnamed, _⟩
    rw [hnamed, Bool.not_eq_true', ← Bool.not_eq_true,
      h.contained_iff f (h.sound.hasNode_of_record? f r hr)]
    simp only [not_exists, not_and]
  rw [h.sound.any_records_iff]
  refine exists_congr fun f => ?_
  simp only [Bool.and_eq_true, decide_eq_true_eq, endedAs_iff]
  constructor
  · rintro ⟨r, hr, hstatus, hnone⟩
    exact ⟨⟨r, hr, hstatus⟩, (hlost f r hr).mp hnone⟩
  · rintro ⟨⟨r, hr, hstatus⟩, hnone⟩
    exact ⟨r, hr, hstatus, (hlost f r hr).mpr hnone⟩

theorem Calm.any_missing_iff (h : s.Calm setup) :
    ((s.records.map (·.2)).any fun r => r.status = .failed || r.status = .skipped) = true ↔
      ∃ id, (s.result setup).EndedAs id .failed ∨ (s.result setup).EndedAs id .skipped := by
  rw [h.sound.any_records_iff]
  refine exists_congr fun id => ?_
  simp only [Bool.or_eq_true, decide_eq_true_eq, endedAs_iff, ← exists_or, ← and_or_left]

/-- The status of a run that is over is read off its records. -/
theorem Sound.status_eq (h : s.Sound setup) (hover : s.status ≠ none) :
    (s.result setup).status = Workflow.outcome setup.graph s.records s.interrupted := by
  rcases Option.ne_none_iff_exists'.mp hover with ⟨status, hstatus⟩
  rw [result, hstatus, Option.getD_some, h.outcome status hstatus]

theorem Calm.status_eq (h : s.Calm setup) :
    (s.result setup).status = outcome setup.graph s.records false := by
  have hinterrupted : s.interrupted = false := by
    rw [← Bool.not_eq_true]
    intro hinterrupted
    exact absurd ((h.sound.interrupted hinterrupted).symm.trans h.calm) nofun
  rw [h.sound.status_eq h.ended, hinterrupted]

/-- A node without an output is due to a failure. -/
theorem Calm.exists_failed (h : s.Calm setup) (id : NodeId)
    (hmissing : (s.result setup).EndedAs id .failed ∨ (s.result setup).EndedAs id .skipped) :
    ∃ f, (s.result setup).EndedAs f .failed := by
  rcases hmissing with hfailed | hskipped
  · exact ⟨id, hfailed⟩
  · rcases (h.skipped_iff id).mp hskipped with ⟨f, hfailed, _⟩
    exact ⟨f, hfailed⟩

theorem Calm.not_missing_iff (h : s.Calm setup) :
    (¬ ∃ id, (s.result setup).EndedAs id .failed ∨ (s.result setup).EndedAs id .skipped) ↔
      ∀ id, setup.graph.HasNode id → (s.result setup).EndedAs id .succeeded := by
  constructor
  · intro hnone id hid
    rcases h.sound.exists_record? id hid with ⟨r, hr⟩
    rcases h.settled_of_record? id r hr with ⟨_, _, _, _, _, hsettled⟩
    -- A record says one of three things, and two of them are excluded.
    rcases hsettled.status_cases with hstatus | hstatus | hstatus
    · exact ⟨r, hr, hstatus⟩
    · exact absurd ⟨id, Or.inl ⟨r, hr, hstatus⟩⟩ hnone
    · exact absurd ⟨id, Or.inr ⟨r, hr, hstatus⟩⟩ hnone
  · rintro hall ⟨id, hmissing⟩
    have hid : setup.graph.HasNode id := by
      rcases hmissing with ⟨r, hr, _⟩ | ⟨r, hr, _⟩ <;> exact h.sound.hasNode_of_record? id r hr
    rcases hmissing with hother | hother <;>
      exact absurd (EndedAs.unique hother (hall id hid)) nofun

/-- The status of a run is one of three, by what failed and what was skipped. -/
theorem Calm.status_cases (h : s.Calm setup) :
    ((s.result setup).status = .failed ∧ ∃ f, (s.result setup).EndedAs f .failed ∧
      ∀ next, setup.graph.Depends f next → ¬ setup.graph.Tolerates next) ∨
    ((s.result setup).status = .partly ∧
      (¬ ∃ f, (s.result setup).EndedAs f .failed ∧
        ∀ next, setup.graph.Depends f next → ¬ setup.graph.Tolerates next) ∧
      ∃ id, (s.result setup).EndedAs id .failed ∨ (s.result setup).EndedAs id .skipped) ∨
    ((s.result setup).status = .succeeded ∧
      ∀ id, setup.graph.HasNode id → (s.result setup).EndedAs id .succeeded) := by
  rw [h.status_eq, ← h.any_failure_iff, ← h.any_missing_iff, ← h.not_missing_iff,
    ← h.any_missing_iff, outcome, if_neg Bool.false_ne_true]
  split
  -- What could not be contained comes first.
  · rename_i hfailure
    exact Or.inl ⟨rfl, hfailure⟩
  · rename_i hfailure
    split
    -- Nothing else than a node that is missing makes the difference then.
    · rename_i hmissing
      exact Or.inr (Or.inl ⟨rfl, hfailure, hmissing⟩)
    · rename_i hmissing
      exact Or.inr (Or.inr ⟨rfl, hmissing⟩)

end RunState

namespace Course

variable {setup : Setup}

theorem calm {choices : List Choice} {s : RunState} (h : Course setup choices s)
    (hover : s.status ≠ none) (hcalm : .cancel ∉ choices) : s.Calm setup where
  sound := h.sound
  ended := hover
  calm := by
    rw [← Bool.not_eq_true, h.cancelled_iff]
    exact hcalm

/-- What failures do to the nodes of a run that is not cancelled. -/
theorem skipped_iff_exposed (choices : List Choice) (s : RunState) (h : Course setup choices s)
    (hover : s.status ≠ none) (hcalm : .cancel ∉ choices) :
    (s.result setup).Contains setup.graph (Attempted setup choices) := by
  have hend := h.calm hover hcalm
  refine {
    skipped_iff := hend.skipped_iff
    skipped := fun id r hr hstatus => ?_
    others := fun id r hr hstatus => ?_
    calm := fun hnone id hskipped => ?_ }
  · rcases hend.blames_of_skipped id r hr hstatus with ⟨hattempts, hstarts, _, hblames⟩
    refine ⟨hattempts, ?_, hblames⟩
    rw [h.attempted_iff choices s id, hstarts]
    exact Nat.lt_irrefl 0
  · rw [h.attempted_iff choices s id]
    exact hend.attempted_of_not_skipped id r hr hstatus
  · rcases (hend.skipped_iff id).mp hskipped with ⟨f, hfailed, _⟩
    exact hnone f hfailed

end Course

/-- Fetching times out and then fails for good, so no model is asked, and the
    mail says so. -/
def pageGone : List Choice :=
  [.advance, .launch, .grant "fetch", .answer "fetch" (.error (.timedOut 30000)), .tick 5,
    .wake "fetch", .answer "fetch" (.error (.failed (.permanent "gone"))), .collect "fetch",
    .advance, .launch, .advance, .launch, .grant "mail", .answer "mail" (.ok .null),
    .collect "mail", .advance]

/-- How the run ends, and the node that asks the model. -/
def observeAsk (s : RunState) : Option RunStatus × Option NodeStatus :=
  (s.status, (s.record? "ask").map NodeRun.status)

theorem pageGone_calm : .cancel ∉ pageGone := by
  simp only [pageGone, List.mem_cons, reduceCtorEq, List.not_mem_nil, or_self, not_false_eq_true]

theorem skipped_iff_exposed_pageGone : ∃ s, Course report pageGone s ∧
    (s.result report).EndedAs "ask" .skipped ∧
    (s.result report).Contains report.graph (Attempted report pageGone) := by
  rcases Course.exists_of_observed report pageGone observeAsk (some .partly, some .skipped) rfl rfl
    with ⟨s, hcourse, hseen⟩
  have hstatus : s.status = some .partly := congrArg Prod.fst hseen
  have hover : s.status ≠ none := by
    rw [hstatus]
    exact Option.some_ne_none _
  refine ⟨s, hcourse, Option.map_eq_some_iff.mp (congrArg Prod.snd hseen), ?_⟩
  exact hcourse.skipped_iff_exposed pageGone s hover pageGone_calm

namespace Course

variable {setup : Setup}

/-- What failures do to the status of a run that is not cancelled. -/
theorem status_iff_failures (choices : List Choice) (s : RunState) (h : Course setup choices s)
    (hover : s.status ≠ none) (hcalm : .cancel ∉ choices) :
    (s.result setup).StatusExplained setup.graph (Attempted setup choices) := by
  have hend := h.calm hover hcalm
  have hcontains := h.skipped_iff_exposed choices s hover hcalm
  rcases hend.status_cases with ⟨hstatus, hfailure⟩ | ⟨hstatus, hnone, hmissing⟩ | ⟨hstatus, hall⟩
  -- Some failure is not made up for.
  · have hnot : ¬ ∀ id, setup.graph.HasNode id → (s.result setup).EndedAs id .succeeded := by
      rw [← hend.not_missing_iff, not_not]
      exact hfailure.imp fun f hf => Or.inl hf.1
    refine ⟨iff_of_true hstatus hfailure, iff_of_false ?_ hnot, ?_, ?_⟩ <;> rw [hstatus] <;> nofun
  -- All failures are made up for, and there is one.
  · have hnot : ¬ ∀ id, setup.graph.HasNode id → (s.result setup).EndedAs id .succeeded := by
      rw [← hend.not_missing_iff, not_not]
      exact hmissing
    refine ⟨iff_of_false ?_ hnone, iff_of_false ?_ hnot, fun _ _ => hstatus, fun _ => ⟨?_, ?_⟩⟩
    · rw [hstatus]
      exact nofun
    · rw [hstatus]
      exact nofun
    · rcases hmissing with ⟨id, hid⟩
      exact hend.exists_failed id hid
    -- A failure without such a node would have failed the run.
    · intro f hfailed
      by_contra hlost
      refine hnone ⟨f, hfailed, fun next hdep htolerates => hlost ⟨next, hdep, htolerates, ?_⟩⟩
      rcases hend.sound.exists_record? next hdep.right with ⟨r, hr⟩
      refine (hcontains.others next r hr ?_).1
      rcases hend.status_of_tolerates next r hr htolerates with heq | heq <;> rw [heq] <;> nofun
  -- Every node succeeded.
  · have hnone : ¬ ∃ f, (s.result setup).EndedAs f .failed ∧
        ∀ next, setup.graph.Depends f next → ¬ setup.graph.Tolerates next := by
      rintro ⟨f, hfailed, _⟩
      exact hend.not_missing_iff.mpr hall ⟨f, Or.inl hfailed⟩
    refine ⟨iff_of_false ?_ hnone, iff_of_true hstatus hall, ?_, ?_⟩ <;> rw [hstatus] <;> nofun

end Course

theorem status_iff_failures_pageGone : ∃ s, Course report pageGone s ∧ s.status = some .partly ∧
    (s.result report).StatusExplained report.graph (Attempted report pageGone) := by
  rcases Course.exists_of_observed report pageGone observeAsk (some .partly, some .skipped) rfl rfl
    with ⟨s, hcourse, hseen⟩
  have hstatus : s.status = some .partly := congrArg Prod.fst hseen
  have hover : s.status ≠ none := by
    rw [hstatus]
    exact Option.some_ne_none _
  exact ⟨s, hcourse, hstatus, hcourse.status_iff_failures pageGone s hover pageGone_calm⟩

end Workflow
