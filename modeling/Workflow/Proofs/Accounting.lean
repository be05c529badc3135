import Workflow.Proofs.Awakening
import Workflow.Proofs.Reporting

/-!
# How Attempts Are Counted

What the record of a node says about the attempts that were made, and what was
announced of them.

An attempt is counted where it is made, in the task of its node. The count
reaches the record when the answer of the task is collected, whether that
answer is kept or discarded, and nothing is announced of the node after that.
A node that has no task was not attempted, and its record counts none.

There is one way to lose the count. A task whose handler breaks down never
answers. Its end is noted without it, so the record says that there was no
attempt, and so does the report of the end, although there was at least one
(`attempts_accounted`).

## Main definitions

* `Accounted`: How the attempts of all nodes of a run are counted.

## Theorems

* `Sound.starts_of_isTerminal`: Nothing begins in the step that ends a node, or
  after it.
* `Course.counted`: A record counts what was announced, unless the handler of
  its node broke down.
* `Course.attempts_accounted`: How the attempts of all nodes of a run are
  counted.
* `attempts_uncounted`: A run in which an attempt is not counted.
-/

namespace Workflow

/-- How the attempts of the nodes of a run are counted. A record counts the
    attempts that were announced exactly when the handler of its node did not
    break down; otherwise it says that there was none, and there was one. The
    report of an end says what the record says. -/
structure Accounted (setup : Setup) (choices : List Choice) (s : RunState) : Prop where
  exact : ∀ id run, (s.result setup).node? id = some run →
    (run.attempts = s.starts id ↔ ¬ BrokeDown setup choices id)
  lost : ∀ id run, (s.result setup).node? id = some run → BrokeDown setup choices id →
    run.attempts = 0 ∧ 0 < s.starts id
  reported : ∀ id run, (s.result setup).node? id = some run →
    ∀ status attempts elapsedMs, .nodeFinished id status attempts elapsedMs ∈ s.events →
      attempts = run.attempts

namespace RunState

variable {setup : Setup} {s s' : RunState}

/-- Nothing begins in the step that ends a node, or after it. -/
theorem Sound.starts_of_isTerminal (h : s'.Sound setup) (choice : Choice)
    (hstep : s.step setup choice = some s') (id : NodeId) (r : NodeRun)
    (hr : s'.record? id = some r) (hterminal : r.status.isTerminal = true) :
    s'.starts id = s.starts id := by
  have hnone := h.task?_of_isTerminal id r hr hterminal
  cases (does_of_step setup s s' choice hstep).2 with
  | tick | cancel => rfl
  | work _ _ _ hmove =>
      rcases hmove.starts id with hsame | ⟨_, t, htask, _⟩
      · exact hsame
      -- An attempt that begins belongs to a task.
      · rw [hnone] at htask
        exact absurd htask nofun

/-- Nothing has begun of a node that is still to be launched. -/
theorem Sound.starts_of_fresh (h : s.Sound setup) (node : Node)
    (hnode : setup.graph.node? node.id = some node)
    (hr : s.record? node.id = some (.ofNode node)) : s.starts node.id = 0 := by
  cases h.standing node hnode with
  | upcoming _ _ _ _ hstarts => exact hstarts
  | working _ _ hrecord =>
      rw [hr, Option.some.injEq] at hrecord
      exact absurd (congrArg NodeRun.status hrecord) nofun
  | settled r hrecord _ _ _ _ hsettled =>
      rw [hr, Option.some.injEq] at hrecord
      have hterminal := hsettled.isTerminal
      rw [← hrecord] at hterminal
      exact absurd hterminal Bool.false_ne_true

end RunState

namespace Course

variable {setup : Setup}

/-- A handler breaks down in an attempt, and that attempt was announced. -/
theorem starts_of_brokeDown (choices : List Choice) (s : RunState) (h : Course setup choices s)
    (id : NodeId) (hbroken : BrokeDown setup choices id) : 0 < s.starts id := by
  -- An attempt that was made at some time is announced ever after.
  rcases hbroken with ⟨earlier, ⟨later, heq⟩, u, t, hu, htask, hphase⟩
  have hid := u.node_of_task? id t htask
  rw [← hid] at htask ⊢
  rcases hu.sound.exists_node_of_task? t htask with ⟨node, hnamed, hnode⟩
  rcases hu.sound.working_of_task? t htask node hnode hnamed with ⟨_, _, hsound, hstarts, _⟩
  rw [hphase, ← hstarts] at hsound
  have hattempted := (hu.attempted_iff earlier u t.node).mpr hsound
  rw [← h.attempted_iff choices s t.node, ← heq]
  exact hattempted.mono later

/-- A record counts what was announced, unless the handler of its node broke
    down. -/
theorem counted (choices : List Choice) (s : RunState) (h : Course setup choices s) :
    ∀ id r, s.record? id = some r → r.status.isTerminal = true →
      r.attempts = s.starts id ∨ BrokeDown setup choices id := by
  refine induction (P := fun choices s => ∀ id r, s.record? id = some r →
    r.status.isTerminal = true → r.attempts = s.starts id ∨ BrokeDown setup choices id)
    ?_ ?_ choices s h
  · intro id r hr hterminal
    rcases RunState.start_fresh setup h.planned id r hr with ⟨node, hfresh⟩
    rw [hfresh] at hterminal
    exact absurd hterminal Bool.false_ne_true
  -- The step either leaves the record, or ends the node; nothing begins in it.
  · intro choices choice u u' hu ih hstep id r' hr' hterminal
    have hstarts := (hu.concat choice u' hstep).sound.starts_of_isTerminal choice hstep id r' hr'
      hterminal
    rcases hu.exists_noted choices u choice u' hstep id r' hr' with
      ⟨node, r, events, lost, hid, hnode, hr, hnoted⟩
    rw [hstarts, ← hid]
    -- What ends without having been launched was not attempted.
    have hnever : r = .ofNode node → u.starts node.id = 0 := by
      intro hfresh
      rw [hfresh] at hr
      exact hu.sound.starts_of_fresh node hnode hr
    cases hnoted.notes with
    | nothing =>
        rcases ih node.id r' hr hterminal with hcounted | ⟨earlier, hearlier, hbroken⟩
        · exact Or.inl hcounted
        · exact Or.inr ⟨earlier, hearlier.trans (List.prefix_append choices [choice]), hbroken⟩
    | launched => exact absurd hterminal Bool.false_ne_true
    | blocked _ _ _ hfresh | forgone hfresh =>
        rw [hnever hfresh, hfresh]
        exact Or.inl rfl
    | ended t change events lost htask hnamed hworking hends =>
        rcases hu.sound.working_of_task? t htask node hnode hnamed.symm with
          ⟨_, _, _, hbegun, _⟩
        rw [← hnamed, hbegun]
        -- The count is taken from the answer, if there is one.
        cases hends with
        | settled _ result => cases result <;> exact Or.inl rfl
        | discarded => exact Or.inl rfl
        | missed hphase | dropped hphase =>
            exact Or.inr ⟨choices, List.prefix_append choices [choice], u, t, hu, htask, hphase⟩

/-- The report of an end says how many attempts the record counts. -/
theorem attempts_of_finished (choices : List Choice) (s : RunState) (h : Course setup choices s)
    (id : NodeId) (r : NodeRun) (hr : s.record? id = some r) (status : NodeStatus)
    (attempts elapsedMs : Nat) (hevent : .nodeFinished id status attempts elapsedMs ∈ s.events) :
    attempts = r.attempts := by
  have hmem : .nodeFinished id status attempts elapsedMs ∈ s.reports id :=
    List.mem_filter.mpr ⟨hevent, decide_eq_true rfl⟩
  -- There is one report at most, and it was made from the record.
  cases h.told choices s id r hr with
  | pending _ hreports | untold _ hreports =>
      rw [hreports] at hmem
      exact absurd hmem List.not_mem_nil
  | told report _ _ hreports hreport =>
      rw [hreports, List.mem_singleton] at hmem
      rw [← hmem] at hreport
      exact hreport.2.2.2.1

/-- How the attempts of all nodes of a run are counted. -/
theorem attempts_accounted (choices : List Choice) (s : RunState) (h : Course setup choices s)
    (hover : s.status ≠ none) : Accounted setup choices s := by
  have hlost : ∀ id run, s.record? id = some run → BrokeDown setup choices id →
      run.attempts = 0 ∧ 0 < s.starts id := by
    intro id run hrun hbroken
    refine ⟨?_, h.starts_of_brokeDown choices s id hbroken⟩
    rcases h.fate_of_brokeDown choices s id hbroken with ⟨t, htask, _⟩ | ⟨r, hr, hattempts, _⟩
    -- Nothing waits any more when the run is over.
    · rw [← s.node_of_task? id t htask] at htask
      exact absurd (h.sound.open_of_task? t htask) hover
    · rw [hrun, Option.some.injEq] at hr
      rw [hr]
      exact hattempts
  refine {
    exact := fun id run hrun => ⟨fun hcounted hbroken => ?_, fun hsound => ?_⟩
    lost := hlost
    reported := fun id run hrun status attempts elapsedMs =>
      h.attempts_of_finished choices s id run hrun status attempts elapsedMs }
  · have hnone := hlost id run hrun hbroken
    omega
  · rcases h.sound.settled_of_over hover id run hrun with ⟨_, _, _, _, _, hsettled⟩
    exact (h.counted choices s id run hrun hsettled.isTerminal).resolve_right hsound

end Course

/-- A page is fetched in the second attempt, the model that is asked about it
    breaks down, and the mail says so. -/
def modelDown : List Choice :=
  [.advance, .launch, .grant "fetch", .answer "fetch" (.error (.failed (.transient "busy"))),
    .tick 5, .wake "fetch", .answer "fetch" (.ok .null), .collect "fetch", .advance, .launch,
    .grant "ask", .crash "ask", .sweep, .advance, .launch, .grant "mail",
    .answer "mail" (.ok .null), .collect "mail", .advance]

theorem attempts_accounted_modelDown : ∃ s, Course report modelDown s ∧
    s.status = some .partly ∧ Accounted report modelDown s := by
  rcases Course.exists_of_observed report modelDown RunState.status (some .partly) rfl rfl with
    ⟨s, hcourse, hstatus⟩
  refine ⟨s, hcourse, hstatus, hcourse.attempts_accounted modelDown s ?_⟩
  rw [hstatus]
  exact Option.some_ne_none _

/-- An attempt was made and announced, and neither the record of the node nor
    the report of its end counts it. -/
theorem attempts_uncounted : ∃ s run, Course report modelDown s ∧ s.status = some .partly ∧
    (s.result report).node? "ask" = some run ∧ s.starts "ask" = 1 ∧ run.attempts = 0 ∧
    .nodeFinished "ask" .failed 0 0 ∈ s.events := by
  rcases Course.exists_of_observed report modelDown
    (fun s => (s.status, s.starts "ask", (s.record? "ask").map NodeRun.attempts,
      s.reports "ask"))
    (some .partly, 1, some 0, [.nodeFinished "ask" .failed 0 0]) rfl rfl with ⟨s, hcourse, hseen⟩
  simp only [Prod.mk.injEq, Option.map_eq_some_iff] at hseen
  rcases hseen with ⟨hstatus, hstarts, ⟨run, hrun, hattempts⟩, hreports⟩
  have hmem : .nodeFinished "ask" .failed 0 0 ∈ s.reports "ask" := by
    rw [hreports]
    exact List.mem_singleton_self _
  exact ⟨s, run, hcourse, hstatus, hrun, hstarts, hattempts, (List.mem_filter.mp hmem).1⟩

end Workflow
