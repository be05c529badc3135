import Mathlib.Data.List.Induction
import Workflow.Run.Machine

/-!
# What a Step Does

A step of a run is one of eleven choices, and each of them looks at the state
before it does anything. Here it is said once what can come of all that, so
that no later proof opens a step again.

Seen from a node, little can happen. A node is launched, and becomes a task
unless it is blocked. Its task goes on: it gets a worker, an attempt ends, a
rest is over. Its task ends, and the end is noted in the record of the node.
`Task.Goes` and `Task.Ends` list the ways in which a task goes on and ends,
and `Move` puts them beside the few steps that concern the run as a whole.
`does_of_step` says that there is nothing else, but for the passing of time and
for cancelling. Only one choice cancels a run, and nothing takes that back.

## Main definitions

* `record?`: What is known of a node.
* `upcoming`: The nodes that are still to be launched.
* `starts`: How many attempts of a node have begun.
* `Task.Goes`: How a task goes on.
* `Task.Hears`: What the end of an attempt makes of its task.
* `Task.Ends`: How the end of a task is noted.
* `Move`: What is done in a run.
* `Does`: What a step does.
* `Course`: The choices that lead a run to where it is.

## Theorems

* `record?_amend`, `task?_put`, `task?_drop`: What is seen of a node after a
  change at the same node or at another.
* `does_of_step`: What a step does.
* `finish_eq`, `record?_finish`: What the end of a run does to its records.
* `exists_status_finish`: What happens at the end of a run.
* `Course.induction`: What holds at the beginning and is kept by every step
  holds all along.
* `Course.cancelled_iff`: A run is cancelled by the choice to cancel it.
-/

namespace Workflow

/-- Whether a choice is to do something. Time passes and a run is cancelled
    without that. -/
def Choice.isWork : Choice → Bool
  | .tick _ => false
  | .cancel => false
  | _ => true

/-- Whether an attempt of a node begins. -/
def Happening.begins (id : NodeId) : Happening → Bool
  | .nodeStarted node _ => node = id
  | _ => false

/-- What is noted of a node that becomes a task. -/
def NodeRun.launched (r : NodeRun) : NodeRun := { r with status := .running }

namespace RunState

/-- What is known of a node. -/
def record? (s : RunState) (id : NodeId) : Option NodeRun := Entries.find? id s.records

/-- The nodes that are still to be launched. -/
def upcoming (s : RunState) : List NodeId := s.entering ++ s.ahead.flatten

/-- How many attempts of a node have begun. -/
def starts (s : RunState) (id : NodeId) : Nat := s.events.countP (Happening.begins id)

/-- The same state with fewer nodes to launch in the current stage. -/
def leave (s : RunState) (rest : List NodeId) : RunState := { s with entering := rest }

/-- The task that a node becomes. -/
def newTask (setup : Setup) (s : RunState) (node : Node) (id : NodeId) : Task where
  node := id
  kind := node.kind
  config := node.config
  inputs := s.inputsOf setup id
  launchedMs := s.nowMs

/-- What is noted of a node that a predecessor blocks. -/
def blockedRun (setup : Setup) (s : RunState) (predecessor : NodeId) (status : NodeStatus)
    (r : NodeRun) : NodeRun :=
  r.skip (s.instant setup) ⟨.predecessor, blockedReason predecessor status⟩

/-- A node has become a task. -/
def enlist (s : RunState) (id : NodeId) (task : Task) : RunState :=
  { s.amend id NodeRun.launched with tasks := s.tasks ++ [task] }

/-- A task has gone on. -/
def proceed (s : RunState) (task : Task) (events : List Happening) : RunState :=
  { s.put task with events := s.events ++ events }

/-- The end of a task was noted. Cancelling may have taken its result away. -/
def retire (s : RunState) (id : NodeId) (change : NodeRun → NodeRun) (events : List Happening)
    (lost : Bool) : RunState :=
  { (s.drop id).amend id change with
    events := s.events ++ events
    interrupted := s.interrupted || lost }

end RunState

namespace Task

/-- How a task goes on, and what happens then. -/
inductive Goes (setup : Setup) (s : RunState) (t : Task) : Task → List Happening → Prop
  /-- It gets a worker when the run is cancelled. -/
  | turnedAway (hphase : t.phase = .queued) (hworker : s.busy < max 1 setup.workers)
      (hcancelled : s.cancelled = true) :
      Goes setup s t (t.enter (.answered s.nowMs (.error ⟨.cancelled, RunState.cancelReason⟩))) []
  /-- It gets a worker, and the first attempt begins. -/
  | begins (hphase : t.phase = .queued) (hworker : s.busy < max 1 setup.workers)
      (hcalm : s.cancelled = false) :
      Goes setup s t { t.attemptAgain with startedMs := some s.nowMs }
        [.nodeStarted t.node (t.attempts + 1)]
  /-- An attempt has an output. -/
  | succeeds (output : Json) (hphase : t.phase = .attempting) :
      Goes setup s t (t.enter (.answered s.nowMs (.ok output))) []
  /-- An attempt has none, and there will be another one. -/
  | rests (e : AttemptError) (hphase : t.phase = .attempting)
      (hretry : (NodeError.ofAttempt e).cause.isRetryable = true)
      (hbudget : t.attempts ≤ setup.budget t.kind) :
      Goes setup s t
        (t.enter (.resting (s.nowMs + setup.restMs t.node (t.attempts - 1)) (.ofAttempt e)))
        [.nodeRetrying t.node t.attempts (setup.restMs t.node (t.attempts - 1))
          (NodeError.ofAttempt e).message]
  /-- An attempt has none, and it was the last one. -/
  | fails (e : AttemptError) (hphase : t.phase = .attempting)
      (hlast : (NodeError.ofAttempt e).cause.isRetryable = false ∨
        setup.budget t.kind < t.attempts) :
      Goes setup s t (t.enter (.answered s.nowMs (.error (.ofAttempt e)))) []
  /-- The handler breaks down. -/
  | breaksDown (hphase : t.phase = .attempting) : Goes setup s t (t.enter .brokenDown) []
  /-- A rest is over, and the next attempt begins. -/
  | wakes (untilMs : Nat) (error : NodeError) (hphase : t.phase = .resting untilMs error)
      (hdue : untilMs ≤ s.nowMs) :
      Goes setup s t t.attemptAgain [.nodeStarted t.node (t.attempts + 1)]
  /-- A rest is cut short when the run is cancelled. -/
  | cutShort (untilMs : Nat) (error : NodeError) (hphase : t.phase = .resting untilMs error)
      (hcancelled : s.cancelled = true) :
      Goes setup s t (t.enter (.answered s.nowMs (.error error))) []

/-- What the end of an attempt makes of its task: there is an answer, unless
    another attempt follows. -/
inductive Hears (setup : Setup) (s : RunState) (t : Task) :
    Except AttemptError Json → Task → Prop
  /-- The attempt has an output. -/
  | output (output : Json) :
      Hears setup s t (.ok output) (t.enter (.answered s.nowMs (.ok output)))
  /-- It has none, and there will be another one. -/
  | again (e : AttemptError) (hretry : (NodeError.ofAttempt e).cause.isRetryable = true)
      (hbudget : t.attempts ≤ setup.budget t.kind) :
      Hears setup s t (.error e)
        (t.enter (.resting (s.nowMs + setup.restMs t.node (t.attempts - 1)) (.ofAttempt e)))
  /-- It has none, and it was the last one. -/
  | last (e : AttemptError)
      (hlast : (NodeError.ofAttempt e).cause.isRetryable = false ∨
        setup.budget t.kind < t.attempts) :
      Hears setup s t (.error e) (t.enter (.answered s.nowMs (.error (.ofAttempt e))))

/-- The status that an answer gives to a node. -/
def statusOf : Except NodeError Json → NodeStatus
  | .ok _ => .succeeded
  | .error _ => .failed

/-- How the end of a task is noted: what becomes of the record, what happens,
    and whether cancelling has taken its result away. -/
inductive Ends (setup : Setup) (s : RunState) (t : Task) :
    (NodeRun → NodeRun) → List Happening → Bool → Prop
  /-- The answer is noted. -/
  | settled (atMs : Nat) (result : Except NodeError Json) (hphase : t.phase = .answered atMs result)
      (hcalm : s.cancelled = false) :
      Ends setup s t (fun r => (r.close setup t atMs).settle result)
        [.nodeFinished t.node (statusOf result) t.attempts (atMs - t.launchedMs)] false
  /-- The answer is discarded. -/
  | discarded (atMs : Nat) (result : Except NodeError Json)
      (hphase : t.phase = .answered atMs result) (hcancelled : s.cancelled = true) :
      Ends setup s t
        (fun r => (r.close setup t atMs).skip (s.instant setup)
          ⟨.cancelled, "result discarded: run cancelled"⟩)
        [.nodeSkipped t.node RunState.cancelReason] true
  /-- There will be no answer, and the node failed. -/
  | missed (hphase : t.phase = .brokenDown) (hcalm : s.cancelled = false) :
      Ends setup s t
        (fun r => { r with
          status := .failed
          error := some ⟨.permanent, "handler panicked"⟩
          finishedAt := some (s.instant setup) })
        [.nodeFinished t.node .failed 0 0] false
  /-- There will be no answer, and it does not matter. -/
  | dropped (hphase : t.phase = .brokenDown) (hcancelled : s.cancelled = true) :
      Ends setup s t (fun r => r.skip (s.instant setup) ⟨.cancelled, RunState.cancelReason⟩) [] true

end Task

namespace RunState

/-- What a step does when something is done. -/
inductive Move (setup : Setup) (s : RunState) : RunState → Prop
  /-- There is no node to launch. -/
  | pass (id : NodeId) (rest : List NodeId) (hentering : s.entering = id :: rest)
      (hnode : setup.graph.node? id = none) : Move setup s (s.leave rest)
  /-- A node is skipped because of a predecessor. -/
  | block (id : NodeId) (rest : List NodeId) (node : Node) (predecessor : NodeId)
      (status : NodeStatus) (hentering : s.entering = id :: rest)
      (hnode : setup.graph.node? id = some node) (hkind : node.kind.tolerant = false)
      (hblocker : s.blocker? setup id = some (predecessor, status)) :
      Move setup s
        (((s.leave rest).amend id (s.blockedRun setup predecessor status)).emit
          (.nodeSkipped id (blockedReason predecessor status)))
  /-- A node becomes a task. -/
  | launch (id : NodeId) (rest : List NodeId) (node : Node) (hentering : s.entering = id :: rest)
      (hnode : setup.graph.node? id = some node)
      (hfree : node.kind.tolerant = true ∨ s.blocker? setup id = none) :
      Move setup s ((s.leave rest).enlist id (s.newTask setup node id))
  /-- A task goes on. -/
  | go (t next : Task) (events : List Happening) (htask : s.task? t.node = some t)
      (hgoes : t.Goes setup s next events) : Move setup s (s.proceed next events)
  /-- A task ends. -/
  | close (t : Task) (change : NodeRun → NodeRun) (events : List Happening) (lost : Bool)
      (htask : s.task? t.node = some t) (hentering : s.entering = [])
      (hends : t.Ends setup s change events lost) :
      Move setup s (s.retire t.node change events lost)
  /-- The next stage is entered. -/
  | enter (stage : List NodeId) (ahead : List (List NodeId)) (hentering : s.entering = [])
      (htasks : s.tasks = []) (hahead : s.ahead = stage :: ahead) (hcalm : s.cancelled = false) :
      Move setup s
        ({ s with stage := s.stage + 1, ahead := ahead, entering := stage }.emit
          (.stageStarted s.stage stage))
  /-- The run ends after the last stage. -/
  | finish (hentering : s.entering = []) (htasks : s.tasks = []) (hahead : s.ahead = []) :
      Move setup s (s.finish setup)
  /-- The run ends before the last stage. -/
  | abandon (hentering : s.entering = []) (htasks : s.tasks = []) (hahead : s.ahead ≠ [])
      (hcancelled : s.cancelled = true) : Move setup s ({ s with interrupted := true }.finish setup)

/-- What a step does. -/
inductive Does (setup : Setup) (s : RunState) : Choice → RunState → Prop
  /-- Time passes. -/
  | tick (ms : Nat) : Does setup s (.tick ms) { s with nowMs := s.nowMs + ms }
  /-- The run is cancelled. -/
  | cancel : Does setup s .cancel { s with cancelled := true }
  /-- Something is done. -/
  | work (choice : Choice) (s' : RunState) (hwork : choice.isWork = true)
      (hmove : s.Move setup s') : Does setup s choice s'

/-- What is known of a node after a change at the same node or at another. -/
theorem record?_amend (s : RunState) (id other : NodeId) (change : NodeRun → NodeRun) :
    (s.amend id change).record? other =
      if other = id then (s.record? other).map change else s.record? other := by
  -- The change is looked up by its key, and then it is one for every entry.
  have hvalues : (s.amend id change).records =
      s.records.map fun entry => (entry.1, if entry.1 = id then change entry.2 else entry.2) := by
    refine List.map_congr_left ?_
    intro entry _
    by_cases hentry : entry.1 = id
    · rw [if_pos hentry, if_pos hentry]
    · rw [if_neg hentry, if_neg hentry]
  rw [record?, record?, hvalues,
    Entries.find?_mapValues fun key r => if key = id then change r else r]
  by_cases hother : other = id
  · simp only [if_pos hother]
  · simp only [if_neg hother, Option.map_id']

theorem keys_amend (s : RunState) (id : NodeId) (change : NodeRun → NodeRun) :
    (s.amend id change).records.map (·.1) = s.records.map (·.1) := by
  rw [amend, List.map_map]
  refine List.map_congr_left ?_
  intro entry _
  by_cases hentry : entry.1 = id
  · simp only [Function.comp, if_pos hentry]
  · simp only [Function.comp, if_neg hentry]

theorem node_of_task? (s : RunState) (id : NodeId) (t : Task) (h : s.task? id = some t) :
    t.node = id := by
  rw [task?] at h
  have hfound := List.find?_some h
  exact of_decide_eq_true hfound

/-- The task of a node after a task was replaced. -/
theorem task?_put (s : RunState) (task : Task) (id : NodeId) :
    (s.put task).task? id =
      if id = task.node then (s.task? id).map fun _ => task else s.task? id := by
  simp only [task?, put]
  induction s.tasks with
  | nil => simp only [List.map_nil, List.find?_nil, Option.map_none, ite_self]
  | cons t rest ih =>
      rw [List.map_cons, List.find?_cons, List.find?_cons, ih]
      -- Replacing a task leaves its node, so the same entry is found.
      by_cases hid : id = task.node
      · by_cases hnode : t.node = task.node
        · simp only [hid, hnode, decide_true, if_true, Option.map_some]
        · simp only [hid, hnode, decide_false, if_true, if_false]
      · by_cases hnode : t.node = task.node
        · have hother : ¬ task.node = id := fun h => hid h.symm
          simp only [hid, hnode, hother, decide_false, if_true, if_false]
        · simp only [hid, hnode, if_false]

theorem task?_drop (s : RunState) (id other : NodeId) :
    (s.drop id).task? other = if other = id then none else s.task? other := by
  rw [task?, task?, drop, List.find?_filter]
  by_cases hother : other = id
  · rw [if_pos hother, List.find?_eq_none]
    intro t _ ht
    simp only [decide_eq_true_eq, hother] at ht
    exact ht.1 ht.2
  · rw [if_neg hother]
    congr 1
    funext t
    by_cases ht : t.node = other
    · simp only [ht, hother, ne_eq, not_false_eq_true, decide_true, and_self]
    · simp only [ht, decide_false, Bool.false_eq_true, and_false]

theorem task?_enlist (s : RunState) (id other : NodeId) (task : Task) (hnode : task.node = id)
    (hnone : s.task? id = none) :
    (s.enlist id task).task? other = if other = id then some task else s.task? other := by
  rw [task?, task?, enlist, List.find?_append]
  by_cases hother : other = id
  · rw [task?] at hnone
    rw [if_pos hother, hother, hnone, Option.none_or, List.find?_cons_of_pos]
    exact decide_eq_true hnode
  · rw [if_neg hother, List.find?_cons_of_neg, List.find?_nil, Option.or_none]
    rw [decide_eq_true_eq, hnode]
    exact fun h => hother h.symm

/-- The tasks that are there stay when another one is added. -/
theorem task?_enlist_of_some (s : RunState) {id other : NodeId} {task t : Task}
    (hnode : task.node = id) (hnone : s.task? id = none) (htask : s.task? other = some t) :
    (s.enlist id task).task? other = some t := by
  rw [task?_enlist s id other task hnode hnone, if_neg]
  · exact htask
  · intro heq
    rw [heq, hnone] at htask
    exact absurd htask.symm (Option.some_ne_none t)

theorem task?_eq_none_of_nil (s : RunState) (id : NodeId) (h : s.tasks = []) :
    s.task? id = none := by
  rw [task?, h, List.find?_nil]

theorem starts_emit (s : RunState) (what : Happening) (id : NodeId)
    (h : what.begins id = false) : (s.emit what).starts id = s.starts id := by
  rw [starts, emit, List.countP_append, List.countP_singleton, h, if_neg Bool.false_ne_true]
  rfl

/-- Launching a node skips it or makes it a task. -/
theorem move_of_launch (setup : Setup) (s s' : RunState) (h : s.launch setup = some s') :
    s.Move setup s' := by
  rw [launch] at h
  cases hentering : s.entering with
  | nil =>
      rw [hentering] at h
      exact absurd h (by simp only [reduceCtorEq, not_false_eq_true])
  | cons id rest =>
      rw [hentering] at h
      simp only at h
      cases hnode : setup.graph.node? id with
      | none =>
          rw [hnode, Option.some.injEq] at h
          rw [← h]
          exact .pass id rest hentering hnode
      | some node =>
          rw [hnode, Option.some.injEq] at h
          rw [← h]
          -- A kind that tolerates failures is not asked about its predecessors.
          cases hkind : node.kind.tolerant with
          | true =>
              simp only [launchNode, hkind, if_true]
              exact .launch id rest node hentering hnode (Or.inl hkind)
          | false =>
              have hsame : blocker? setup { s with entering := rest } id = s.blocker? setup id :=
                rfl
              simp only [launchNode, hkind, hsame, Bool.false_eq_true, if_false]
              cases hblocker : s.blocker? setup id with
              | none => exact .launch id rest node hentering hnode (Or.inr hblocker)
              | some blocker =>
                  exact .block id rest node blocker.1 blocker.2 hentering hnode hkind hblocker

theorem proceed_nil (s : RunState) (task : Task) : s.proceed task [] = s.put task := by
  rw [proceed, List.append_nil]
  rfl

/-- A task that gets a worker begins, unless the run is cancelled. -/
theorem goes_of_grant (setup : Setup) (s s' : RunState) (id : NodeId)
    (h : s.grant setup id = some s') : ∃ t next events, t.node = id ∧ s.task? t.node = some t ∧
      t.phase = .queued ∧ t.Goes setup s next events ∧ s' = s.proceed next events := by
  rcases Option.bind_eq_some_iff.mp h with ⟨t, htask, hs'⟩
  have hnode := s.node_of_task? id t htask
  rw [← hnode] at htask hs'
  cases hphase : t.phase with
  | queued =>
      simp only [hphase] at hs'
      -- There has to be a worker. Who gets him while the run is cancelled gives him back.
      by_cases hworker : max 1 setup.workers ≤ s.busy
      · rw [if_pos hworker] at hs'
        exact absurd hs' (by simp only [reduceCtorEq, not_false_eq_true])
      · rw [if_neg hworker] at hs'
        cases hcancelled : s.cancelled with
        | true =>
            rw [hcancelled, if_pos rfl, Option.some.injEq, ← s.proceed_nil] at hs'
            exact ⟨t, _, _, hnode, htask, hphase,
              .turnedAway hphase (Nat.lt_of_not_le hworker) hcancelled, hs'.symm⟩
        | false =>
            rw [hcancelled, if_neg Bool.false_ne_true, Option.some.injEq] at hs'
            exact ⟨t, _, _, hnode, htask, hphase,
              .begins hphase (Nat.lt_of_not_le hworker) hcancelled, hs'.symm⟩
  | attempting | resting _ _ | answered _ _ | brokenDown =>
      simp only [hphase, reduceCtorEq] at hs'

/-- An attempt that ends has an output, or is followed by a rest, or was the
    last one. -/
theorem goes_of_answer (setup : Setup) (s s' : RunState) (id : NodeId)
    (outcome : Except AttemptError Json) (h : s.answer setup id outcome = some s') :
    ∃ t next events, t.node = id ∧ s.task? t.node = some t ∧ t.phase = .attempting ∧
      t.Hears setup s outcome next ∧ t.Goes setup s next events ∧
      s' = s.proceed next events := by
  rcases Option.bind_eq_some_iff.mp h with ⟨t, htask, hs'⟩
  have hnode := s.node_of_task? id t htask
  rw [← hnode] at htask hs'
  cases hphase : t.phase with
  | attempting =>
      simp only [hphase] at hs'
      cases outcome with
      | ok output =>
          rw [Option.some.injEq, ← s.proceed_nil] at hs'
          exact ⟨t, _, _, hnode, htask, hphase, .output output, .succeeds output hphase, hs'.symm⟩
      | error e =>
          -- Another attempt takes an error that may pass and attempts that are left.
          simp only at hs'
          by_cases hretry : ((NodeError.ofAttempt e).cause.isRetryable
              && decide (t.attempts ≤ setup.budget t.kind)) = true
          · rw [if_pos hretry, Option.some.injEq] at hs'
            rw [Bool.and_eq_true, decide_eq_true_eq] at hretry
            exact ⟨t, _, _, hnode, htask, hphase, .again e hretry.1 hretry.2,
              .rests e hphase hretry.1 hretry.2, hs'.symm⟩
          · rw [if_neg hretry, Option.some.injEq, ← s.proceed_nil] at hs'
            rw [Bool.and_eq_true, decide_eq_true_eq, not_and_or, Bool.not_eq_true,
              Nat.not_le] at hretry
            exact ⟨t, _, _, hnode, htask, hphase, .last e hretry, .fails e hphase hretry, hs'.symm⟩
  | queued | resting _ _ | answered _ _ | brokenDown =>
      simp only [hphase, reduceCtorEq] at hs'

theorem goes_of_crash (setup : Setup) (s s' : RunState) (id : NodeId) (h : s.crash id = some s') :
    ∃ t next events, t.node = id ∧ s.task? t.node = some t ∧ t.phase = .attempting ∧
      next = t.enter .brokenDown ∧ t.Goes setup s next events ∧ s' = s.proceed next events := by
  rcases Option.bind_eq_some_iff.mp h with ⟨t, htask, hs'⟩
  have hnode := s.node_of_task? id t htask
  rw [← hnode] at htask
  cases hphase : t.phase with
  | attempting =>
      simp only [hphase, Option.some.injEq] at hs'
      rw [← s.proceed_nil] at hs'
      exact ⟨t, _, _, hnode, htask, hphase, rfl, .breaksDown hphase, hs'.symm⟩
  | queued | resting _ _ | answered _ _ | brokenDown =>
      simp only [hphase, reduceCtorEq] at hs'

/-- A rest that is over is followed by the next attempt. -/
theorem rested_of_wake (s s' : RunState) (id : NodeId) (h : s.wake id = some s') :
    ∃ t untilMs error, t.node = id ∧ s.task? t.node = some t ∧
      t.phase = .resting untilMs error ∧ untilMs ≤ s.nowMs ∧
      s' = s.proceed t.attemptAgain [.nodeStarted t.node (t.attempts + 1)] := by
  rcases Option.bind_eq_some_iff.mp h with ⟨t, htask, hs'⟩
  have hnode := s.node_of_task? id t htask
  rw [← hnode] at htask hs'
  cases hphase : t.phase with
  | resting untilMs error =>
      simp only [hphase] at hs'
      by_cases hdue : untilMs ≤ s.nowMs
      · rw [if_pos hdue, Option.some.injEq] at hs'
        exact ⟨t, untilMs, error, hnode, htask, hphase, hdue, hs'.symm⟩
      · rw [if_neg hdue] at hs'
        exact absurd hs' (by simp only [reduceCtorEq, not_false_eq_true])
  | queued | attempting | answered _ _ | brokenDown =>
      simp only [hphase, reduceCtorEq] at hs'

theorem goes_of_wake (setup : Setup) (s s' : RunState) (id : NodeId) (h : s.wake id = some s') :
    ∃ t next events, s.task? t.node = some t ∧ t.phase.isResting = true ∧
      t.Goes setup s next events ∧ s' = s.proceed next events := by
  rcases rested_of_wake s s' id h with ⟨t, untilMs, error, -, htask, hphase, hdue, heq⟩
  exact ⟨t, _, _, htask, by rw [hphase]; rfl, .wakes untilMs error hphase hdue, heq⟩

theorem goes_of_interrupt (setup : Setup) (s s' : RunState) (id : NodeId)
    (h : s.interrupt id = some s') : ∃ t next events, s.task? t.node = some t ∧
      t.phase.isResting = true ∧ t.Goes setup s next events ∧ s' = s.proceed next events := by
  rcases Option.bind_eq_some_iff.mp h with ⟨t, htask, hs'⟩
  have hnode := s.node_of_task? id t htask
  rw [← hnode] at htask
  cases hphase : t.phase with
  | resting untilMs error =>
      simp only [hphase] at hs'
      by_cases hcancelled : s.cancelled = true
      · rw [if_pos hcancelled, Option.some.injEq, ← s.proceed_nil] at hs'
        exact ⟨t, _, _, htask, by rw [hphase]; rfl, .cutShort untilMs error hphase hcancelled,
          hs'.symm⟩
      · rw [if_neg hcancelled] at hs'
        exact absurd hs' (by simp only [reduceCtorEq, not_false_eq_true])
  | queued | attempting | answered _ _ | brokenDown =>
      simp only [hphase, reduceCtorEq] at hs'

theorem retire_kept (s : RunState) (id : NodeId) (change : NodeRun → NodeRun) (e : Happening) :
    s.retire id change [e] false = ((s.drop id).amend id change).emit e := by
  rw [retire, Bool.or_false]
  rfl

/-- The answer of a task is noted, or discarded when the run is cancelled. -/
theorem move_of_collect (setup : Setup) (s s' : RunState) (id : NodeId)
    (h : s.collect setup id = some s') : s.Move setup s' := by
  rcases Option.bind_eq_some_iff.mp h with ⟨t, htask, hs'⟩
  have hnode := s.node_of_task? id t htask
  rw [← hnode] at htask hs'
  cases hphase : t.phase with
  | answered atMs result =>
      simp only [hphase] at hs'
      -- Tasks are collected when the whole stage was launched.
      by_cases hentering : s.entering = []
      · rw [hentering] at hs'
        simp only [List.isEmpty_nil, Bool.not_true, Bool.false_eq_true, if_false] at hs'
        cases hcancelled : s.cancelled with
        | true =>
            rw [hcancelled, if_pos rfl, Option.some.injEq] at hs'
            -- Once the run is cancelled, the answer is discarded.
            have hends : t.Ends setup s _ _ _ := .discarded atMs result hphase hcancelled
            have hmove := Move.close t _ _ _ htask hentering hends
            rw [retire, Bool.or_true] at hmove
            rw [← hs']
            exact hmove
        | false =>
            rw [hcancelled, if_neg Bool.false_ne_true, Option.some.injEq] at hs'
            have hends : t.Ends setup s _ _ _ := .settled atMs result hphase hcancelled
            have hmove := Move.close t _ _ _ htask hentering hends
            rw [retire_kept] at hmove
            rw [← hs']
            cases result with
            | ok output => exact hmove
            | error error => exact hmove
      · have hfull : (!s.entering.isEmpty) = true := by
          rw [Bool.not_eq_true', List.isEmpty_eq_false_iff]
          exact hentering
        rw [if_pos hfull] at hs'
        exact absurd hs' (by simp only [reduceCtorEq, not_false_eq_true])
  | queued | attempting | resting _ _ | brokenDown =>
      simp only [hphase, reduceCtorEq] at hs'

/-- The first task of those that broke down is taken for failed, or dropped
    when the run is cancelled. -/
theorem move_of_sweep (setup : Setup) (s s' : RunState) (h : s.sweep setup = some s') :
    s.Move setup s' := by
  rw [sweep] at h
  cases htasks : s.tasks with
  | nil =>
      rw [htasks] at h
      exact absurd h (by simp only [reduceCtorEq, not_false_eq_true])
  | cons t rest =>
      rw [htasks] at h
      simp only at h
      by_cases hguard : (!s.entering.isEmpty
          || !(t :: rest).all fun t => t.phase.isBrokenDown) = true
      · rw [if_pos hguard] at h
        exact absurd h (by simp only [reduceCtorEq, not_false_eq_true])
      · rw [if_neg hguard] at h
        simp only [Bool.or_eq_true, Bool.not_eq_true', List.isEmpty_eq_false_iff, not_or, ne_eq,
          not_not, Bool.not_eq_false, List.all_cons, Bool.and_eq_true] at hguard
        have hphase : t.phase = .brokenDown := by
          cases hp : t.phase with
          | brokenDown => rfl
          | queued | attempting | resting _ _ | answered _ _ =>
              rw [hp] at hguard
              exact absurd hguard.2.1 Bool.false_ne_true
        -- It stands first, so it is the task that is found for its node.
        have htask : s.task? t.node = some t := by
          rw [task?, htasks, List.find?_cons_of_pos]
          exact decide_eq_true rfl
        cases hcancelled : s.cancelled with
        | true =>
            rw [hcancelled, if_pos rfl, Option.some.injEq] at h
            have hends : t.Ends setup s _ _ _ := .dropped hphase hcancelled
            have hmove := Move.close t _ _ _ htask hguard.1 hends
            rw [retire, Bool.or_true, List.append_nil] at hmove
            rw [← h]
            exact hmove
        | false =>
            rw [hcancelled, if_neg Bool.false_ne_true, Option.some.injEq] at h
            have hends : t.Ends setup s _ _ _ := .missed hphase hcancelled
            have hmove := Move.close t _ _ _ htask hguard.1 hends
            rw [retire_kept] at hmove
            rw [← h]
            exact hmove

theorem move_of_advance (setup : Setup) (s s' : RunState) (h : s.advance setup = some s') :
    s.Move setup s' := by
  rw [advance] at h
  -- The stage has to be over.
  by_cases hguard : (!s.entering.isEmpty || !s.tasks.isEmpty) = true
  · rw [if_pos hguard] at h
    exact absurd h (by simp only [reduceCtorEq, not_false_eq_true])
  · rw [if_neg hguard] at h
    simp only [Bool.or_eq_true, Bool.not_eq_true', List.isEmpty_eq_false_iff, not_or, ne_eq,
      not_not] at hguard
    split at h
    · rename_i hahead
      rw [← Option.some.inj h]
      exact .finish hguard.1 hguard.2 hahead
    · rename_i stage ahead hahead
      by_cases hcancelled : s.cancelled = true
      · rw [if_pos hcancelled, Option.some.injEq] at h
        -- No further stage is entered once the run is cancelled.
        rw [← h]
        refine .abandon hguard.1 hguard.2 ?_ hcancelled
        rw [hahead]
        exact List.cons_ne_nil stage ahead
      · rw [if_neg hcancelled, Option.some.injEq] at h
        rw [← h]
        exact .enter stage ahead hguard.1 hguard.2 hahead ((Bool.not_eq_true _).mp hcancelled)

/-- What a step does. A run that has ended makes none. -/
theorem does_of_step (setup : Setup) (s s' : RunState) (choice : Choice)
    (h : s.step setup choice = some s') : s.status = none ∧ s.Does setup choice s' := by
  rw [step.eq_def] at h
  -- A run that has ended makes no step.
  by_cases hover : s.status.isSome = true
  · rw [if_pos hover] at h
    exact absurd h (by simp only [reduceCtorEq, not_false_eq_true])
  · rw [if_neg hover] at h
    refine ⟨Option.not_isSome_iff_eq_none.mp hover, ?_⟩
    cases choice with
    | tick ms =>
        rw [← Option.some.inj h]
        exact .tick ms
    | cancel =>
        rw [← Option.some.inj h]
        exact .cancel
    | launch => exact .work _ s' rfl (move_of_launch setup s s' h)
    | grant id =>
        rcases goes_of_grant setup s s' id h with ⟨t, next, events, -, htask, -, hgoes, heq⟩
        exact .work _ s' rfl (heq ▸ .go t next events htask hgoes)
    | answer id outcome =>
        rcases goes_of_answer setup s s' id outcome h with
          ⟨t, next, events, -, htask, -, -, hgoes, heq⟩
        exact .work _ s' rfl (heq ▸ .go t next events htask hgoes)
    | crash id =>
        rcases goes_of_crash setup s s' id h with ⟨t, next, events, -, htask, -, -, hgoes, heq⟩
        exact .work _ s' rfl (heq ▸ .go t next events htask hgoes)
    | wake id =>
        rcases goes_of_wake setup s s' id h with ⟨t, next, events, htask, -, hgoes, heq⟩
        exact .work _ s' rfl (heq ▸ .go t next events htask hgoes)
    | interrupt id =>
        rcases goes_of_interrupt setup s s' id h with ⟨t, next, events, htask, -, hgoes, heq⟩
        exact .work _ s' rfl (heq ▸ .go t next events htask hgoes)
    | collect id => exact .work _ s' rfl (move_of_collect setup s s' id h)
    | sweep => exact .work _ s' rfl (move_of_sweep setup s s' h)
    | advance => exact .work _ s' rfl (move_of_advance setup s s' h)

theorem skip_skip (r : NodeRun) (now : Instant) (error : NodeError) :
    (r.skip now error).skip now error = r.skip now error := by
  cases hfinished : r.finishedAt with
  | none => simp only [NodeRun.skip, hfinished, Option.none_or, Option.some_or]
  | some at_ => simp only [NodeRun.skip, hfinished, Option.some_or]

/-- What is said of a node that was never launched. -/
def untouchedError : NodeError := ⟨.cancelled, "run cancelled before node started"⟩

/-- Nodes that were never launched have been skipped. -/
def skipAll (setup : Setup) (s : RunState) (ids : List NodeId) : RunState :=
  { s with
    records := s.records.map fun entry =>
      (entry.1, if entry.1 ∈ ids then entry.2.skip (s.instant setup) untouchedError else entry.2)
    events := s.events ++ ids.map fun id => .nodeSkipped id cancelReason
    interrupted := s.interrupted || !ids.isEmpty }

/-- Nodes that were never launched are skipped one after another. -/
theorem foldl_skipUntouched (setup : Setup) (ids : List NodeId) (s : RunState) :
    ids.foldl (skipUntouched setup) s = s.skipAll setup ids := by
  induction ids generalizing s with
  | nil =>
      simp only [skipAll, List.foldl_nil, List.not_mem_nil, if_false, List.map_id', List.map_nil,
        List.append_nil, List.isEmpty_nil, Bool.not_true, Bool.or_false]
  | cons id rest ih =>
      have hsame : (s.skipUntouched setup id).instant setup = s.instant setup := rfl
      rw [List.foldl_cons, ih, skipAll, skipAll, hsame]
      simp only [skipUntouched, emit, amend, List.map_map, List.map_cons, List.append_assoc,
        List.singleton_append, List.isEmpty_cons, Bool.not_false, Bool.or_true, Bool.true_or,
        RunState.mk.injEq, true_and, and_true]
      refine List.map_congr_left ?_
      intro entry _
      -- A node that stands twice in the list is skipped twice, which is skipping it once.
      by_cases hid : entry.1 = id
      · by_cases hrest : id ∈ rest
        · simp only [Function.comp, hid, hrest, List.mem_cons_self, if_true]
          rw [← untouchedError, skip_skip]
        · simp only [Function.comp, hid, hrest, List.mem_cons_self, if_true, if_false]
          rfl
      · simp only [Function.comp, hid, List.mem_cons, false_or, if_false]

/-- The end of a run: what was never launched is skipped, and the outcome is
    read off the records. -/
theorem finish_eq (setup : Setup) (s : RunState) :
    let last := s.skipAll setup s.untouched
    let status := outcome setup.graph last.records last.interrupted
    s.finish setup = { last.emit (.runCompleted status s.nowMs) with status := some status } := by
  rw [finish, foldl_skipUntouched]
  rfl

/-- What happens at the end of a run: what was never launched is skipped, and
    the outcome is announced. -/
theorem exists_status_finish (setup : Setup) (s : RunState) :
    ∃ status, (s.finish setup).status = some status ∧
      (s.finish setup).events = s.events ++
        (s.untouched.map fun id => .nodeSkipped id cancelReason) ++
          [.runCompleted status s.nowMs] := by
  rw [finish_eq]
  exact ⟨_, rfl, rfl⟩

/-- Nothing else happens at the end of a run. -/
theorem exists_events_finish (setup : Setup) (s : RunState) :
    ∃ events, (s.finish setup).events = s.events ++ events ∧
      ∀ e ∈ events, (∃ id, e = .nodeSkipped id cancelReason) ∨
        ∃ status, e = .runCompleted status s.nowMs := by
  rcases exists_status_finish setup s with ⟨status, _, hevents⟩
  rw [List.append_assoc] at hevents
  refine ⟨_, hevents, fun e he => ?_⟩
  rcases List.mem_append.mp he with hskipped | hlast
  · rcases List.mem_map.mp hskipped with ⟨id, _, heq⟩
    exact Or.inl ⟨id, heq.symm⟩
  · exact Or.inr ⟨status, List.mem_singleton.mp hlast⟩

theorem record?_finish (setup : Setup) (s : RunState) (id : NodeId) :
    (s.finish setup).record? id = (s.record? id).map fun r =>
      if id ∈ s.untouched then r.skip (s.instant setup) untouchedError else r := by
  rw [finish_eq]
  exact Entries.find?_mapValues (fun key r =>
    if key ∈ s.untouched then NodeRun.skip r (s.instant setup) untouchedError else r) id s.records

/-- The end of a run finds no task, and makes none. -/
theorem task?_finish (setup : Setup) (s : RunState) (id : NodeId) :
    (s.finish setup).task? id = s.task? id := by
  rw [finish_eq]
  rfl

theorem keys_finish (setup : Setup) (s : RunState) :
    (s.finish setup).records.map (·.1) = s.records.map (·.1) := by
  rw [finish_eq]
  exact List.map_map

theorem starts_finish (setup : Setup) (s : RunState) (id : NodeId) :
    (s.finish setup).starts id = s.starts id := by
  have hskipped : (s.untouched.map fun id => Happening.nodeSkipped id cancelReason).countP
      (Happening.begins id) = 0 := by
    rw [List.countP_map, List.countP_eq_zero]
    intro other _
    exact Bool.false_ne_true
  rcases exists_status_finish setup s with ⟨status, _, hevents⟩
  rw [starts, starts, hevents, List.countP_append, List.countP_append, hskipped]
  rfl

/-- The last of many steps. -/
theorem follow_concat_eq_some_iff (setup : Setup) (s s' : RunState) (choices : List Choice)
    (choice : Choice) : s.follow setup (choices ++ [choice]) = some s' ↔
      ∃ u, s.follow setup choices = some u ∧ u.step setup choice = some s' := by
  have hone : ∀ u : RunState, u.follow setup [choice] = u.step setup choice := by
    intro u
    rw [follow, List.foldlM_cons]
    cases u.step setup choice <;> rfl
  simp only [follow_append, Option.bind_eq_some_iff, hone]

/-- A run is not cancelled by what is done in it. -/
theorem Move.cancelled {setup : Setup} {s s' : RunState} (h : s.Move setup s') :
    s'.cancelled = s.cancelled := by
  cases h with
  | finish | abandon =>
      rw [finish_eq]
      rfl
  | pass | block | launch | go | close | enter => rfl

end RunState

/-- The choices lead a run of a planned graph from its beginning to a state. -/
structure Course (setup : Setup) (choices : List Choice) (s : RunState) : Prop where
  planned : setup.graph.plan = .ok setup.plan
  followed : (RunState.start setup).follow setup choices = some s

namespace Course

variable {setup : Setup}

theorem concat {choices : List Choice} {s : RunState} (h : Course setup choices s)
    (choice : Choice) (s' : RunState) (hstep : s.step setup choice = some s') :
    Course setup (choices ++ [choice]) s' where
  planned := h.planned
  followed := (RunState.follow_concat_eq_some_iff setup _ s' choices choice).mpr
    ⟨s, h.followed, hstep⟩

/-- What holds at the beginning and is kept by every step holds all along. -/
theorem induction {P : List Choice → RunState → Prop} (hstart : P [] (RunState.start setup))
    (hstep : ∀ choices choice s s', Course setup choices s → P choices s →
      s.step setup choice = some s' → P (choices ++ [choice]) s')
    (choices : List Choice) (s : RunState) (h : Course setup choices s) : P choices s := by
  -- The induction is on the choices from the last one backwards.
  induction choices using List.reverseRecOn generalizing s with
  | nil =>
      rw [← Option.some.inj h.followed]
      exact hstart
  | append_singleton choices choice ih =>
      rcases (RunState.follow_concat_eq_some_iff setup _ s choices choice).mp h.followed with
        ⟨u, hfollowed, hu⟩
      have hcourse : Course setup choices u := ⟨h.planned, hfollowed⟩
      exact hstep choices choice u s hcourse (ih u hcourse) hu

/-- A run is cancelled when that was one of the choices. -/
theorem cancelled_iff (choices : List Choice) (s : RunState) (h : Course setup choices s) :
    s.cancelled = true ↔ .cancel ∈ choices := by
  refine induction (P := fun choices s => s.cancelled = true ↔ .cancel ∈ choices) ?_ ?_ choices s h
  · exact iff_of_false Bool.false_ne_true List.not_mem_nil
  · intro choices choice u u' _ ih hu
    rw [List.mem_append, List.mem_singleton]
    -- Only one choice cancels the run.
    cases (RunState.does_of_step setup u u' choice hu).2 with
    | tick => exact ih.trans (or_iff_left nofun).symm
    | cancel => exact iff_of_true rfl (Or.inr rfl)
    | work _ _ hwork hmove =>
        rw [hmove.cancelled, ih, or_iff_left]
        intro heq
        rw [← heq] at hwork
        exact Bool.false_ne_true hwork

end Course

end Workflow
