import Mathlib.Data.List.Perm.Subperm
import Workflow.Proofs.Agreement
import Workflow.Proofs.Chronicle

/-!
# Sharing the Workers

How many nodes are under way at once, and how often a node gets a worker.

A run has a number of workers, and at least one. A task that gets a worker keeps
it from its first attempt to its answer, whatever lies in between: it is not
given back for a rest, so nobody else begins while a task rests. Only a grant
takes a worker, and it is refused when all of them are taken. Hence the tasks
that have one are never more than the workers (`Move.busy_le`).

Seen from outside, a node is under way from the first attempt that is announced
to the outcome that its task hands over, which is an answer, or that there will
be none (`underway`). An answer that still has to be collected holds no worker.
As all these nodes have a task with a worker, there are no more of them either
(`length_underway_le`). And an attempt that has begun has ended or is still being
made by such a task (`begun_eq`), so the handlers at work can be counted from
what is announced and from what was chosen.

A task waits for its worker once. What waits was given none so far, what was
given one does not wait again, and a node does not become a task twice
(`Course.grants_le_one`).

## Main definitions

* `underway`: A node has begun, and its outcome was not handed over.
* `begun`, `attempting`: Attempts that have begun, and those that are being made.
* `Waits`: A node may still get a worker.
* `Shares`: How a run shares its workers.

## Theorems

* `countP_put`, `countP_drop`: Counting tasks when one of them changes or goes.
* `Move.busy_le`, `Course.busy_le`: No more workers are taken than there are.
* `Course.begun_eq`: Attempts that have begun have ended or are being made.
* `Course.grants_le_one`: A node gets a worker once.
* `Course.workers_shared`: How a run shares its workers.
-/

namespace Workflow

/-- Whether an attempt of a task is being made in this phase. -/
def Phase.isAttempting : Phase → Bool
  | .attempting => true
  | _ => false

/-- Whether an attempt begins. -/
def Happening.isStart : Happening → Bool
  | .nodeStarted .. => true
  | _ => false

/-- Whether a choice gives a worker to a node. -/
def Choice.grants (id : NodeId) : Choice → Bool
  | .grant node => node = id
  | _ => false

theorem Phase.eq_attempting {phase : Phase} (h : phase.isAttempting = true) :
    phase = .attempting := by
  cases phase with
  | attempting => rfl
  | queued | resting | answered | brokenDown => exact absurd h Bool.false_ne_true

theorem Choice.grants_iff (choice : Choice) (id : NodeId) :
    choice.grants id = true ↔ choice = .grant id := by
  cases choice with
  | grant node => rw [grants, decide_eq_true_iff, Choice.grant.injEq]
  | tick | cancel | launch | answer | crash | wake | interrupt | collect | sweep | advance =>
      simp only [grants, Bool.false_eq_true, reduceCtorEq]

namespace RunState

/-- What comes of a node was handed over: its task has answered or will never do,
    or the node has no task. -/
def delivered (s : RunState) (id : NodeId) : Bool :=
  (s.task? id).all fun t => t.phase.isAnswered || t.phase.isBrokenDown

/-- An attempt of a node has begun, and what comes of the node was not handed
    over yet. -/
def underway (s : RunState) (id : NodeId) : Bool := decide (0 < s.starts id) && !s.delivered id

/-- How many attempts have begun. -/
def begun (s : RunState) : Nat := s.events.countP Happening.isStart

/-- How many attempts are being made. -/
def attempting (s : RunState) : Nat := s.tasks.countP fun t => t.phase.isAttempting

/-- A node may still get a worker: it is not launched yet, or its task waits. -/
def Waits (s : RunState) (id : NodeId) : Prop :=
  (∃ r, s.record? id = some r ∧ r.status = .pending) ∨
    ∃ t, s.task? id = some t ∧ t.phase = .queued

end RunState

/-- How a run shares so many workers. No more nodes are under way than there are
    workers. Of all attempts that have begun no more are still being made. And a
    node gets a worker once, if at all. -/
structure Shares (setup : Setup) (workers : Nat) (choices : List Choice) (s : RunState) :
    Prop where
  underway : (setup.graph.ids.filter s.underway).length ≤ workers
  inFlight : s.begun ≤ choices.countP (fun choice => choice.ended?.isSome) + workers
  once : ∀ id, choices.countP (Choice.grants id) ≤ 1

namespace RunState

variable {setup : Setup} {s s' : RunState} {t next : Task} {events : List Happening}

/-- Counting tasks when one of them is replaced. -/
theorem countP_put (hnodup : (s.tasks.map Task.node).Nodup) (htask : s.task? t.node = some t)
    (hnode : next.node = t.node) (p : Task → Bool) :
    (s.put next).tasks.countP p + (if p t then 1 else 0) =
      s.tasks.countP p + if p next then 1 else 0 := by
  rcases exists_tasks_around hnodup t (List.mem_of_find?_eq_some htask) with
    ⟨before, after, htasks, hput, _⟩
  rw [hput next hnode, htasks, List.countP_append, List.countP_append, List.countP_cons,
    List.countP_cons]
  omega

/-- Counting tasks when one of them goes. -/
theorem countP_drop (hnodup : (s.tasks.map Task.node).Nodup) (htask : s.task? t.node = some t)
    (p : Task → Bool) :
    (s.drop t.node).tasks.countP p + (if p t then 1 else 0) = s.tasks.countP p := by
  rcases exists_tasks_around hnodup t (List.mem_of_find?_eq_some htask) with
    ⟨before, after, htasks, _, hdrop⟩
  rw [hdrop, htasks, List.countP_append, List.countP_append, List.countP_cons]
  omega

theorem busy_eq (s : RunState) : s.busy = s.tasks.countP fun t => t.phase.isBusy :=
  List.countP_eq_length_filter.symm

end RunState

namespace Task

variable {setup : Setup} {s : RunState} {t next : Task} {events : List Happening}

/-- A task that has a worker had it before, or one was free. -/
theorem Goes.worker (h : t.Goes setup s next events) (hbusy : next.phase.isBusy = true) :
    t.phase.isBusy = true ∨ s.busy < max 1 setup.workers := by
  cases h with
  | begins _ hworker => exact Or.inr hworker
  | rests _ hphase | wakes _ _ hphase =>
      rw [hphase]
      exact Or.inl rfl
  | turnedAway | succeeds | fails | breaksDown | cutShort => exact absurd hbusy Bool.false_ne_true

/-- A task that goes on does not wait again. -/
theorem Goes.not_queued (h : t.Goes setup s next events) : next.phase ≠ .queued := by
  cases h <;> exact nofun

/-- An attempt begins when its task goes on to make it. -/
theorem Goes.countP_isStart (h : t.Goes setup s next events) :
    events.countP Happening.isStart = if next.phase.isAttempting then 1 else 0 := by
  cases h <;> rfl

end Task

namespace RunState

variable {setup : Setup} {s s' : RunState}

/-- No more workers are taken than there are. -/
theorem Move.busy_le (hmove : s.Move setup s') (hnodup : (s.tasks.map Task.node).Nodup)
    (hle : s.busy ≤ max 1 setup.workers) : s'.busy ≤ max 1 setup.workers := by
  cases hmove with
  | pass | block | enter => exact hle
  | finish | abandon =>
      rw [finish_eq]
      exact hle
  | launch id rest node =>
      -- A task that is new waits for its worker.
      rw [busy_eq] at hle ⊢
      rw [enlist, List.countP_append]
      exact hle
  | go t next events htask hgoes =>
      have hcount := countP_put hnodup htask hgoes.node fun t => t.phase.isBusy
      have hsame : (s.proceed next events).busy = (s.put next).busy := rfl
      rw [hsame]
      rw [busy_eq] at hle ⊢
      by_cases hbusy : next.phase.isBusy = true
      · rcases hgoes.worker hbusy with hbefore | hfree
        · rw [if_pos hbefore, if_pos hbusy] at hcount
          omega
        · rw [busy_eq] at hfree
          rw [if_pos hbusy] at hcount
          omega
      · rw [if_neg hbusy] at hcount
        omega
  | close t change events lost htask =>
      have hcount := countP_drop hnodup htask fun t => t.phase.isBusy
      have hsame : (s.retire t.node change events lost).busy = (s.drop t.node).busy := rfl
      rw [hsame]
      rw [busy_eq] at hle ⊢
      omega

/-- A node that is under way has a task with a worker. -/
theorem Sound.busy_of_underway (h : s.Sound setup) (id : NodeId) (hunder : s.underway id = true) :
    ∃ t ∈ s.tasks, t.phase.isBusy = true ∧ t.node = id := by
  rw [underway, Bool.and_eq_true, decide_eq_true_eq, Bool.not_eq_true', delivered] at hunder
  rcases hunder with ⟨hstarts, hnot⟩
  cases htask : s.task? id with
  | none =>
      rw [htask] at hnot
      exact absurd hnot Bool.true_eq_false.mp
  | some t =>
      have hid := s.node_of_task? id t htask
      rw [htask, Option.all_some] at hnot
      refine ⟨t, List.mem_of_find?_eq_some htask, ?_, hid⟩
      rw [← hid] at htask hstarts
      rcases h.exists_node_of_task? t htask with ⟨node, hnamed, hnode⟩
      rcases h.working_of_task? t htask node hnode hnamed with ⟨_, _, hphase, hbegun, _⟩
      cases hp : t.phase with
      | attempting | resting => rfl
      | queued =>
          -- A task that waits has not begun.
          rw [hp] at hphase
          rw [hbegun, hphase] at hstarts
          exact absurd hstarts (Nat.lt_irrefl 0)
      | answered | brokenDown =>
          rw [hp] at hnot
          exact absurd hnot Bool.true_eq_false.mp

/-- No more nodes are under way than tasks have a worker. -/
theorem Sound.length_underway_le (h : s.Sound setup) :
    (setup.graph.ids.filter s.underway).length ≤ s.busy := by
  have hsubset : setup.graph.ids.filter s.underway ⊆
      (s.tasks.filter fun t => t.phase.isBusy).map Task.node := by
    intro id hid
    rcases h.busy_of_underway id (List.mem_filter.mp hid).2 with ⟨t, ht, hbusy, hnode⟩
    exact List.mem_map.mpr ⟨t, List.mem_filter.mpr ⟨ht, hbusy⟩, hnode⟩
  have hnodup : (setup.graph.ids.filter s.underway).Nodup := setup.graph.nodup_ids.filter _
  have hle := (List.subperm_of_subset hnodup hsubset).length_le
  rw [List.length_map] at hle
  exact hle

theorem begun_append (events : List Happening) (h : s'.events = s.events ++ events)
    (hquiet : events.countP Happening.isStart = 0) : s'.begun = s.begun := by
  rw [begun, h, List.countP_append, hquiet]
  rfl

theorem begun_finish (setup : Setup) (s : RunState) : (s.finish setup).begun = s.begun := by
  rcases exists_events_finish setup s with ⟨events, hevents, hall⟩
  refine begun_append events hevents (List.countP_eq_zero.mpr fun e he => ?_)
  rcases hall e he with ⟨id, heq⟩ | ⟨status, heq⟩ <;>
  · rw [heq]
    exact Bool.false_ne_true

/-- The attempt of a task is ended by a choice exactly when it was being made
    and the task goes on. -/
theorem ended?_of_go (choice : Choice) (t next : Task) (events : List Happening)
    (hstep : s.step setup choice = some (s.proceed next events)) (htask : s.task? t.node = some t)
    (hgoes : t.Goes setup s next events) :
    choice.ended?.isSome = t.phase.isAttempting := by
  -- A task goes on from an attempt just when the attempt is ended.
  have hput := s.task?_proceed next events
  rw [hgoes.node] at hput
  by_cases hattempting : t.phase = .attempting
  · rw [hattempting]
    rcases task?_of_step setup s _ choice hstep t.node t htask hattempting with
      hsame | ⟨outcome, _, hchoice, _⟩ | ⟨hchoice, _⟩
    · rw [hput, if_pos rfl, htask, Option.map_some, Option.some.injEq] at hsame
      exact absurd (hsame ▸ hattempting) (hgoes.phase_ne hattempting)
    · rw [hchoice]
      rfl
    · rw [hchoice]
      rfl
  · have hnone : choice.ended? = none := by
      refine Option.eq_none_iff_forall_ne_some.mpr fun id =>
        -- Another node is not at an attempt either, as the step has left it alone.
        ended?_ne setup s _ choice hstep id fun u hu hphase => (hput id).trans ?_
      rw [if_neg]
      · exact hu
      · intro heq
        rw [heq, htask, Option.some.injEq] at hu
        exact hattempting (hu ▸ hphase)
    rw [hnone]
    cases hphase : t.phase with
    | attempting => exact absurd hphase hattempting
    | queued | resting | answered | brokenDown => rfl

/-- Attempts that have begun have ended or are being made, and a step keeps the
    books on that. -/
theorem Move.begun_eq (hmove : s.Move setup s') (h : s.Sound setup) (hopen : s.status = none)
    (hnodup : (s.tasks.map Task.node).Nodup) (choice : Choice)
    (hstep : s.step setup choice = some s') (ended : Nat)
    (hbooks : s.begun = ended + s.attempting) :
    s'.begun = ended + (if choice.ended?.isSome then 1 else 0) + s'.attempting := by
  -- What leaves all attempts as they are, adds nothing to either side.
  have hquiet : (∀ id t, s.task? id = some t → t.phase = .attempting → s'.task? id = some t) →
      s'.begun = s.begun → s'.attempting = s.attempting →
      s'.begun = ended + (if choice.ended?.isSome then 1 else 0) + s'.attempting := by
    intro hstays hbegun hattempting
    have hnone : choice.ended? = none := Option.eq_none_iff_forall_ne_some.mpr fun id =>
      ended?_ne setup s s' choice hstep id (hstays id)
    rw [hnone, hbegun, hattempting]
    exact hbooks
  cases hmove with
  | pass => exact hquiet (fun _ _ ht _ => ht) rfl rfl
  | block | enter => exact hquiet (fun _ _ ht _ => ht) (begun_append _ rfl rfl) rfl
  | finish | abandon =>
      refine hquiet (fun id _ ht _ => (task?_finish setup _ id).trans ht) (begun_finish setup _) ?_
      rw [finish_eq]
      rfl
  | launch key rest node hentering hnode =>
      have hkey := (setup.graph.mem_of_node? key node hnode).2
      rw [← hkey] at hentering hnode hquiet ⊢
      have hnone := (h.upcoming_of_entering node rest hentering hopen hnode).2.1
      -- What is launched has no task yet.
      exact hquiet (fun _ _ ht _ => (s.leave rest).task?_enlist_of_some rfl hnone ht) rfl
        List.countP_append
  | go t next events htask hgoes =>
      have hcount := countP_put hnodup htask hgoes.node fun t => t.phase.isAttempting
      have hbegun : (s.proceed next events).begun = s.begun + events.countP Happening.isStart :=
        List.countP_append
      rw [hgoes.countP_isStart] at hbegun
      have hafter : (s.proceed next events).attempting =
          (s.put next).tasks.countP fun t => t.phase.isAttempting := rfl
      have hended := ended?_of_go choice t next events hstep htask hgoes
      rw [hbegun, hbooks, hafter, hended, attempting]
      omega
  | close t change events lost htask _ hends =>
      refine hquiet (fun _ _ hu hphase => task?_retire_of_attempting htask hends hu hphase)
        (begun_append events rfl ?_) ?_
      · cases hends <;> rfl
      · have hcount := countP_drop hnodup htask fun t => t.phase.isAttempting
        rw [if_neg] at hcount
        · exact hcount
        · intro hattempting
          exact hends.phase_ne (Phase.eq_attempting hattempting)

/-- A node does not begin to wait for a worker in the middle of a run. -/
theorem Move.waits (hmove : s.Move setup s') (h : s.Sound setup) (hopen : s.status = none)
    (id : NodeId) (hwaits : s'.Waits id) : s.Waits id := by
  cases hmove with
  | pass | enter => exact hwaits
  | block key rest node predecessor status =>
      rcases hwaits with ⟨r, hr, hpending⟩ | hqueued
      -- A node that is skipped does not wait any longer. Any other one is as it was.
      · have hrecord := (s.leave rest).record?_amend key id (s.blockedRun setup predecessor status)
        have hr' := hrecord.symm.trans hr
        split at hr'
        · rcases Option.map_eq_some_iff.mp hr' with ⟨before, _, heq⟩
          rw [← heq] at hpending
          exact absurd hpending nofun
        · exact Or.inl ⟨r, hr', hpending⟩
      · exact Or.inr hqueued
  | launch key rest node hentering hnode =>
      have hkey := (setup.graph.mem_of_node? key node hnode).2
      rw [← hkey] at hentering hnode hwaits
      rcases h.upcoming_of_entering node rest hentering hopen hnode with ⟨hfresh, hnone, _, _⟩
      by_cases hid : id = node.id
      -- A node that is launched was to be launched.
      · rw [hid]
        exact Or.inl ⟨_, hfresh, rfl⟩
      · have hrecord := ((s.leave rest).record?_amend node.id id NodeRun.launched).trans
          (if_neg hid)
        have htask := ((s.leave rest).task?_enlist node.id id (s.newTask setup node node.id) rfl
          hnone).trans (if_neg hid)
        rcases hwaits with ⟨r, hr, hpending⟩ | ⟨t, ht, hqueued⟩
        · exact Or.inl ⟨r, hrecord.symm.trans hr, hpending⟩
        · exact Or.inr ⟨t, htask.symm.trans ht, hqueued⟩
  | go t next events htask hgoes =>
      rcases hwaits with hpending | ⟨u, hu, hqueued⟩
      · exact Or.inl hpending
      -- A task that goes on has a worker, so it is not queued.
      · have hput := s.task?_proceed next events id
        rw [hgoes.node] at hput
        have hu' := hput.symm.trans hu
        split at hu'
        · rcases Option.map_eq_some_iff.mp hu' with ⟨_, _, heq⟩
          rw [← heq] at hqueued
          exact absurd hqueued hgoes.not_queued
        · exact Or.inr ⟨u, hu', hqueued⟩
  | close t change events lost htask _ hends =>
      rcases hwaits with ⟨r, hr, hpending⟩ | ⟨u, hu, hqueued⟩
      -- The record is closed, so it is not pending.
      · have hrecord := (s.drop t.node).record?_amend t.node id change
        have hr' := hrecord.symm.trans hr
        split at hr'
        · rcases Option.map_eq_some_iff.mp hr' with ⟨before, _, heq⟩
          have hterminal := hends.isTerminal before
          rw [heq, hpending] at hterminal
          exact absurd hterminal Bool.false_ne_true
        · exact Or.inl ⟨r, hr', hpending⟩
      -- The task is gone. Those that are left are as they were.
      · have hu' := (s.task?_drop t.node id).symm.trans hu
        split at hu'
        · exact absurd hu' nofun
        · exact Or.inr ⟨u, hu', hqueued⟩
  | finish | abandon =>
      -- In the end no record is pending.
      rcases hwaits with ⟨r, hr, hpending⟩ | ⟨u, hu, hqueued⟩
      · rw [record?_finish] at hr
        rcases Option.map_eq_some_iff.mp hr with ⟨before, hbefore, heq⟩
        split at heq
        · rw [← heq] at hpending
          exact absurd hpending nofun
        · exact Or.inl ⟨r, heq ▸ hbefore, hpending⟩
      · rw [task?_finish] at hu
        exact Or.inr ⟨u, hu, hqueued⟩

/-- A node gets a worker when it waits for one, and does not wait afterwards. -/
theorem Sound.waits_of_grant (h : s.Sound setup) (id : NodeId)
    (hstep : s.step setup (.grant id) = some s') : s.Waits id ∧ ¬ s'.Waits id := by
  have hopen := (does_of_step setup s s' _ hstep).1
  rw [step.eq_def, hopen, Option.isSome_none, if_neg Bool.false_ne_true] at hstep
  rcases goes_of_grant setup s s' id hstep with
    ⟨t, next, events, hid, htask, hqueued, hgoes, heq⟩
  rcases h.exists_node_of_task? t htask with ⟨node, hnamed, hnode⟩
  have hrecord := (h.working_of_task? t htask node hnode hnamed).1
  have hput := s.task?_proceed next events t.node
  rw [hgoes.node, if_pos rfl, htask, Option.map_some] at hput
  rw [← hid, heq]
  refine ⟨Or.inr ⟨t, htask, hqueued⟩, ?_⟩
  rintro (⟨r, hr, hpending⟩ | ⟨u, hu, hwaiting⟩)
  -- It was launched, and its record says so.
  · have hsame := Option.some.inj (hrecord.symm.trans hr)
    rw [← hsame] at hpending
    exact absurd hpending (by simp only [NodeRun.launched, reduceCtorEq, not_false_eq_true])
  · rw [← Option.some.inj (hput.symm.trans hu)] at hwaiting
    exact hgoes.not_queued hwaiting

end RunState

namespace Course

variable {setup : Setup}

/-- No more workers are taken than there are. -/
theorem busy_le (choices : List Choice) (s : RunState) (h : Course setup choices s) :
    s.busy ≤ max 1 setup.workers := by
  refine induction (P := fun _ s => s.busy ≤ max 1 setup.workers) (Nat.zero_le _) ?_ choices s h
  intro choices choice u u' hu ih hstep
  rcases RunState.does_of_step setup u u' choice hstep with ⟨_, hdoes⟩
  cases hdoes with
  | tick | cancel => exact ih
  | work _ _ _ hmove => exact hmove.busy_le (hu.nodup_tasks choices u) ih

/-- Attempts that have begun have ended or are being made. -/
theorem begun_eq (choices : List Choice) (s : RunState) (h : Course setup choices s) :
    s.begun = choices.countP (fun choice => choice.ended?.isSome) + s.attempting := by
  refine induction (P := fun choices s =>
    s.begun = choices.countP (fun choice => choice.ended?.isSome) + s.attempting) rfl ?_ choices s h
  intro choices choice u u' hu ih hstep
  rw [List.countP_append, List.countP_singleton]
  rcases RunState.does_of_step setup u u' choice hstep with ⟨hopen, hdoes⟩
  cases hdoes with
  | tick | cancel => exact ih
  | work _ _ _ hmove =>
      exact hmove.begun_eq hu.sound hopen (hu.nodup_tasks choices u) choice hstep _ ih

/-- A node that waits for a worker got none, and a node gets one once. -/
theorem grants_le_one (choices : List Choice) (s : RunState) (h : Course setup choices s)
    (id : NodeId) : choices.countP (Choice.grants id) ≤ 1 ∧
      (s.Waits id → choices.countP (Choice.grants id) = 0) := by
  refine induction (P := fun choices s => choices.countP (Choice.grants id) ≤ 1 ∧
    (s.Waits id → choices.countP (Choice.grants id) = 0)) ⟨Nat.zero_le _, fun _ => rfl⟩ ?_
    choices s h
  intro choices choice u u' hu ih hstep
  rw [List.countP_append, List.countP_singleton]
  -- What gets a worker has waited for it, so it has got none before. Nobody begins to wait once
  -- he has ceased to.
  by_cases hgrants : choice.grants id = true
  · rw [(choice.grants_iff id).mp hgrants] at hstep
    rcases hu.sound.waits_of_grant id hstep with ⟨hbefore, hafter⟩
    rw [if_pos hgrants, ih.2 hbefore]
    exact ⟨Nat.le_refl 1, fun hwaits => absurd hwaits hafter⟩
  · rw [if_neg hgrants, Nat.add_zero]
    refine ⟨ih.1, fun hwaits => ih.2 ?_⟩
    rcases RunState.does_of_step setup u u' choice hstep with ⟨hopen, hdoes⟩
    cases hdoes with
    | tick | cancel => exact hwaits
    | work _ _ _ hmove => exact hmove.waits hu.sound hopen id hwaits

/-- How a run shares its workers, at any moment of it. -/
theorem workers_shared (settings : EngineSettings) (available : Nat)
    (hworkers : setup.workers = settings.workers available) (choices : List Choice) (s : RunState)
    (h : Course setup choices s) :
    Shares setup (max 1 (settings.workers available)) choices s := by
  rw [← hworkers]
  have hbusy := h.busy_le choices s
  refine {
    underway := h.sound.length_underway_le.trans hbusy
    -- An attempt is something that takes a worker.
    inFlight := ?_
    once := fun id => (h.grants_le_one choices s id).1 }
  have hattempting : s.attempting ≤ s.busy := by
    rw [RunState.busy_eq]
    refine List.countP_mono_left fun t _ hattempting => ?_
    rw [Phase.eq_attempting hattempting]
    rfl
  rw [h.begun_eq choices s]
  omega

end Course

/-- The first page is not there in time, and its task rests. The other one waits
    for the only worker. -/
def leftRests : List Choice :=
  [.advance, .launch, .launch, .grant "left", .answer "left" (.error (.timedOut 60000))]

/-- The only worker is not free for the other page while the first one is about
    to be asked for again. -/
theorem workers_shared_leftRests : ∃ s, Course digest leftRests s ∧
    digest.graph.ids.filter s.underway = ["left"] ∧ s.attempting = 0 ∧
    s.step digest (.grant "right") = none ∧ Shares digest 1 leftRests s := by
  rcases Course.exists_of_observed digest leftRests
    (fun s => (digest.graph.ids.filter s.underway, s.attempting,
      (s.step digest (.grant "right")).isNone)) (["left"], 0, true) rfl rfl with
    ⟨s, hcourse, hseen⟩
  simp only [Prod.mk.injEq, Option.isNone_iff_eq_none] at hseen
  have hworkers : digest.workers = EngineSettings.workers { maxConcurrency := 1 } 4 := rfl
  exact ⟨s, hcourse, hseen.1, hseen.2.1, hseen.2.2,
    Course.workers_shared { maxConcurrency := 1 } 4 hworkers leftRests s hcourse⟩

end Workflow
