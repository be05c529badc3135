import Mathlib.Algebra.GroupWithZero.Nat
import Workflow.Proofs.Progress

/-!
# Runs Come to an End

No run goes on for ever, and none gets stuck.

What may still be done in a run can be counted beforehand. A task may begin as
many attempts as its kind has, it rests between them, and it ends. A node that
is still to be launched may do all that, and a stage that is still to be
entered takes one step more than its nodes. Whatever is done takes something
away from that count (`Move.remaining_lt`), and neither time nor cancelling
adds to it, so a run does no more than was left at its beginning
(`work_le`).

There is also always something that can be done while a run is open, though
time may have to pass before it (`exists_ready`). A task that has an answer is
collected, a handler that is at work may answer, a rest ends at its time, and
when nobody has a worker, anybody who waits for one gets it. So every run can
be brought to its end, and it does not have to be cancelled for that
(`exists_over`).

## Main definitions

* `Task.remaining`: What a task may still do.
* `Setup.workOf`, `Setup.workOfStage`: What a node or a stage may do.
* `RunState.remaining`: What may still be done in a run.

## Theorems

* `Move.remaining_lt`: What is done takes something away from what remains.
* `exists_ready`: Something can be done while a run is open.
* `nodup_tasks`: A node has one task.
* `work_le`: How much is done in a run.
* `exists_over`: Every run can be brought to its end.
-/

namespace Workflow

/-- What a task may still do. An attempt may be followed by a rest and a rest
    by an attempt, as long as there are attempts left. -/
def Task.remaining (setup : Setup) (t : Task) : Nat :=
  match t.phase with
  | .queued => 2 * (setup.budget t.kind - t.attempts) + 3
  | .attempting => 2 * (setup.budget t.kind + 1 - t.attempts) + 2
  | .resting .. => 2 * (setup.budget t.kind - t.attempts) + 3
  | .answered .. => 1
  | .brokenDown => 1

namespace Setup

/-- What a node may do after it was entered. -/
def workOf (setup : Setup) (id : NodeId) : Nat :=
  match setup.graph.node? id with
  | some node => 2 * setup.budget node.kind + 4
  | none => 1

/-- What a stage may do before the next one is entered. -/
def workOfStage (setup : Setup) (stage : List NodeId) : Nat :=
  (stage.map setup.workOf).sum + 1

end Setup

variable {setup : Setup}

theorem Task.remaining_pos (setup : Setup) (t : Task) : 0 < t.remaining setup := by
  cases hphase : t.phase <;> simp only [Task.remaining, hphase] <;> omega

/-- A task that goes on has less to do. -/
theorem Task.Goes.remaining_lt {s : RunState} {t next : Task} {events : List Happening}
    (h : t.Goes setup s next events) : next.remaining setup < t.remaining setup := by
  cases h with
  | turnedAway hphase | succeeds _ hphase | fails _ hphase | breaksDown hphase
  | cutShort _ _ hphase =>
      simp only [remaining, Task.enter, hphase]
      omega
  | begins hphase | wakes _ _ hphase =>
      simp only [remaining, Task.attemptAgain, hphase]
      omega
  | rests _ hphase _ hbudget =>
      -- The attempt that failed was not the last one, so one is left for the rest to lead to.
      simp only [remaining, Task.enter, hphase]
      omega

namespace RunState

/-- What may still be done in a run, its end included. -/
def remaining (setup : Setup) (s : RunState) : Nat :=
  (s.ahead.map setup.workOfStage).sum + (s.entering.map setup.workOf).sum +
    (s.tasks.map (Task.remaining setup)).sum + if s.status = none then 1 else 0

variable {s s' : RunState}

theorem task?_of_mem (hnodup : (s.tasks.map Task.node).Nodup) (t : Task) (ht : t ∈ s.tasks) :
    s.task? t.node = some t := by
  cases hfound : s.task? t.node with
  | none => exact absurd (decide_eq_true rfl) (List.find?_eq_none.mp hfound t ht)
  | some u =>
      have hnode := s.node_of_task? t.node u hfound
      rw [List.inj_on_of_nodup_map hnodup (List.mem_of_find?_eq_some hfound) ht hnode]

/-- The tasks before and after a task stay when it is replaced or removed. -/
theorem exists_tasks_around (hnodup : (s.tasks.map Task.node).Nodup) (t : Task)
    (ht : t ∈ s.tasks) :
    ∃ before after, s.tasks = before ++ t :: after ∧
      (∀ next : Task, next.node = t.node → (s.put next).tasks = before ++ next :: after) ∧
      (s.drop t.node).tasks = before ++ after := by
  rcases List.append_of_mem ht with ⟨before, after, htasks⟩
  -- No other task is of the same node.
  have hother : ∀ u ∈ before ++ after, u.node ≠ t.node := by
    have hperm : (before ++ t :: after).Perm (t :: (before ++ after)) := List.perm_middle
    have hkeys := hperm.map Task.node
    rw [← htasks, List.map_cons] at hkeys
    have hfresh := (List.nodup_cons.mp (hkeys.nodup_iff.mp hnodup)).1
    exact fun u hu heq => hfresh (List.mem_map.mpr ⟨u, hu, heq⟩)
  have hbefore := fun u hu => hother u (List.mem_append_left after hu)
  have hafter := fun u hu => hother u (List.mem_append_right before hu)
  refine ⟨before, after, htasks, ?_, ?_⟩
  · intro next hnext
    have hkeep : ∀ l : List Task, (∀ u ∈ l, u.node ≠ t.node) →
        l.map (fun u => if u.node = next.node then next else u) = l := by
      intro l hl
      rw [hnext]
      exact (List.map_congr_left fun u hu => if_neg (hl u hu)).trans (List.map_id l)
    rw [put, htasks, List.map_append, List.map_cons, hkeep before hbefore, hkeep after hafter,
      if_pos hnext.symm]
  · rw [drop, htasks, List.filter_append, List.filter_cons_of_neg,
      List.filter_eq_self.mpr fun u hu => decide_eq_true (hbefore u hu),
      List.filter_eq_self.mpr fun u hu => decide_eq_true (hafter u hu)]
    exact fun h => of_decide_eq_true h rfl

/-- What is done takes something away from what remains. -/
theorem Move.remaining_lt (hmove : s.Move setup s') (hopen : s.status = none)
    (hnodup : (s.tasks.map Task.node).Nodup) : s'.remaining setup < s.remaining setup := by
  cases hmove with
  | pass id rest hentering hnode =>
      simp only [remaining, leave, hentering, List.map_cons, List.sum_cons, Setup.workOf, hnode,
        hopen, if_true]
      omega
  | block id rest node predecessor status hentering hnode =>
      simp only [remaining, emit, amend, leave, hentering, List.map_cons, List.sum_cons,
        Setup.workOf, hnode, hopen, if_true]
      omega
  | launch id rest node hentering hnode =>
      simp only [remaining, enlist, amend, leave, hentering, List.map_cons, List.sum_cons,
        List.map_append, List.sum_append, List.map_nil, List.sum_nil, Setup.workOf, hnode,
        Task.remaining, newTask, hopen, if_true]
      omega
  | go t next events htask hgoes =>
      -- The task is replaced by one with less to do, and all others stay.
      have hlt := hgoes.remaining_lt
      rcases exists_tasks_around hnodup t (List.mem_of_find?_eq_some htask) with
        ⟨before, after, htasks, hput, _⟩
      have hafter : (s.proceed next events).tasks = before ++ next :: after := hput next hgoes.node
      simp only [remaining, hafter, htasks, List.map_append, List.map_cons, List.sum_append,
        List.sum_cons]
      simp only [proceed, put, hopen, if_true]
      omega
  | close t change events lost htask =>
      have hpos := t.remaining_pos setup
      rcases exists_tasks_around hnodup t (List.mem_of_find?_eq_some htask) with
        ⟨before, after, htasks, _, hdrop⟩
      have hafter : (s.retire t.node change events lost).tasks = before ++ after := hdrop
      simp only [remaining, hafter, htasks, List.map_append, List.map_cons, List.sum_append,
        List.sum_cons]
      simp only [retire, amend, drop, hopen, if_true]
      omega
  | enter stage ahead hentering htasks hahead =>
      simp only [remaining, emit, hentering, hahead, List.map_cons, List.sum_cons, List.map_nil,
        List.sum_nil, Setup.workOfStage, hopen, if_true]
      omega
  | finish | abandon =>
      -- The end itself was counted as long as the run was open.
      rw [finish_eq]
      simp only [remaining, skipAll, emit, hopen, if_true, reduceCtorEq, if_false]
      omega

theorem remaining_lt_of_step (choice : Choice) (hwork : choice.isWork = true)
    (hnodup : (s.tasks.map Task.node).Nodup) (h : s.step setup choice = some s') :
    s'.remaining setup < s.remaining setup := by
  rcases does_of_step setup s s' choice h with ⟨hopen, hdoes⟩
  cases hdoes with
  | tick | cancel => exact absurd hwork Bool.false_ne_true
  | work _ _ _ hmove => exact hmove.remaining_lt hopen hnodup

/-- No node gets a second task. -/
theorem Move.nodup_tasks (hmove : s.Move setup s') (h : s.Sound setup) (hopen : s.status = none)
    (hnodup : (s.tasks.map Task.node).Nodup) : (s'.tasks.map Task.node).Nodup := by
  cases hmove with
  | pass | block | enter => exact hnodup
  | launch id rest node hentering hnode =>
      have hid := (setup.graph.mem_of_node? id node hnode).2
      rw [← hid] at hentering hnode ⊢
      -- A node that is upcoming has no task.
      have hnone := (h.upcoming_of_entering node rest hentering hopen hnode).2.1
      have htasks : ((s.leave rest).enlist node.id
          (s.newTask setup node node.id)).tasks.map Task.node =
            s.tasks.map Task.node ++ [node.id] := List.map_append
      rw [htasks]
      refine List.nodup_append.mpr ⟨hnodup, List.nodup_singleton _, ?_⟩
      intro other hother last hlast heq
      rw [List.mem_singleton.mp hlast] at heq
      rcases List.mem_map.mp hother with ⟨t, ht, hnamed⟩
      exact List.find?_eq_none.mp hnone t ht (decide_eq_true (hnamed.trans heq))
  | go t next events =>
      have hsame : (s.proceed next events).tasks.map Task.node = s.tasks.map Task.node := by
        rw [proceed, put, List.map_map]
        refine List.map_congr_left fun u _ => ?_
        by_cases hu : u.node = next.node
        · simp only [Function.comp, hu, if_true]
        · simp only [Function.comp, hu, if_false]
      rw [hsame]
      exact hnodup
  | close => exact hnodup.sublist (List.filter_sublist.map Task.node)
  | finish | abandon =>
      rw [finish_eq]
      exact hnodup

/-- A choice is possible. -/
def Can (setup : Setup) (s : RunState) (choice : Choice) : Prop :=
  (s.step setup choice).isSome = true

/-- A state some time later. -/
def later (s : RunState) (ms : Nat) : RunState := { s with nowMs := s.nowMs + ms }

theorem can_launch (hopen : s.status = none) (hentering : s.entering ≠ []) :
    s.Can setup .launch := by
  rcases List.exists_cons_of_ne_nil hentering with ⟨id, rest, hcons⟩
  simp only [Can, step, hopen, Option.isSome_none, Bool.false_eq_true, if_false, launch, hcons]
  cases setup.graph.node? id <;> rfl

theorem can_grant (hopen : s.status = none) (t : Task) (htask : s.task? t.node = some t)
    (hphase : t.phase = .queued) (hworker : s.busy < max 1 setup.workers) :
    s.Can setup (.grant t.node) := by
  simp only [Can, step, hopen, Option.isSome_none, Bool.false_eq_true, if_false, grant, htask,
    hphase, Option.bind_eq_bind, Option.bind_some, if_neg (Nat.not_le_of_lt hworker)]
  cases s.cancelled <;> rfl

theorem can_answer (hopen : s.status = none) (t : Task) (htask : s.task? t.node = some t)
    (hphase : t.phase = .attempting) (output : Json) :
    s.Can setup (.answer t.node (.ok output)) := by
  simp only [Can, step, hopen, Option.isSome_none, Bool.false_eq_true, if_false, answer, htask,
    hphase, Option.bind_eq_bind, Option.bind_some, Option.isSome_some]

theorem can_wake (hopen : s.status = none) (t : Task) (htask : s.task? t.node = some t)
    (untilMs : Nat) (error : NodeError) (hphase : t.phase = .resting untilMs error)
    (hdue : untilMs ≤ s.nowMs) : s.Can setup (.wake t.node) := by
  simp only [Can, step, hopen, Option.isSome_none, Bool.false_eq_true, if_false, wake, htask,
    hphase, Option.bind_eq_bind, Option.bind_some, if_pos hdue, Option.isSome_some]

theorem can_collect (hopen : s.status = none) (t : Task) (htask : s.task? t.node = some t)
    (atMs : Nat) (result : Except NodeError Json) (hphase : t.phase = .answered atMs result)
    (hentering : s.entering = []) : s.Can setup (.collect t.node) := by
  simp only [Can, step, hopen, Option.isSome_none, Bool.false_eq_true, if_false, collect, htask,
    hphase, hentering, List.isEmpty_nil, Bool.not_true, Option.bind_eq_bind, Option.bind_some]
  cases s.cancelled <;> rfl

theorem can_sweep (hopen : s.status = none) (hentering : s.entering = []) (hne : s.tasks ≠ [])
    (hbroken : ∀ t ∈ s.tasks, t.phase = .brokenDown) : s.Can setup .sweep := by
  rcases List.exists_cons_of_ne_nil hne with ⟨t, rest, hcons⟩
  have hall : (t :: rest).all (fun t => t.phase.isBrokenDown) = true := by
    rw [← hcons, List.all_eq_true]
    intro u hu
    rw [hbroken u hu]
    rfl
  simp only [Can, step, hopen, Option.isSome_none, Bool.false_eq_true, if_false, sweep, hcons,
    hentering, hall, List.isEmpty_nil, Bool.not_true, Bool.or_false]
  cases s.cancelled <;> rfl

theorem can_advance (hopen : s.status = none) (hentering : s.entering = [])
    (htasks : s.tasks = []) : s.Can setup .advance := by
  simp only [Can, step, hopen, Option.isSome_none, Bool.false_eq_true, if_false, advance,
    hentering, htasks, List.isEmpty_nil, Bool.not_true, Bool.or_false]
  cases s.ahead with
  | nil => rfl
  | cons => cases s.cancelled <;> rfl

/-- While a run is open, something can be done, if need be after some time. -/
theorem exists_ready (setup : Setup) (hopen : s.status = none)
    (hnodup : (s.tasks.map Task.node).Nodup) :
    ∃ ms choice, choice.isWork = true ∧ (s.later ms).Can setup choice := by
  by_cases hentering : s.entering = []
  swap
  · exact ⟨0, .launch, rfl, can_launch hopen hentering⟩
  by_cases hidle : ∀ t ∈ s.tasks, t.phase.isBusy = false
  · by_cases hbroken : ∀ t ∈ s.tasks, t.phase = .brokenDown
    · by_cases htasks : s.tasks = []
      · exact ⟨0, .advance, rfl, can_advance hopen hentering htasks⟩
      · exact ⟨0, .sweep, rfl, can_sweep hopen hentering htasks hbroken⟩
    · simp only [not_forall] at hbroken
      rcases hbroken with ⟨t, ht, hphase⟩
      have htask := task?_of_mem hnodup t ht
      cases hcase : t.phase with
      | brokenDown => exact absurd hcase hphase
      | attempting | resting _ _ =>
          have hbusy := hidle t ht
          rw [hcase] at hbusy
          exact absurd hbusy.symm Bool.false_ne_true
      | answered atMs result =>
          exact ⟨0, .collect t.node, rfl, can_collect hopen t htask atMs result hcase hentering⟩
      | queued =>
          -- Nobody has a worker, so whoever waits for one gets it.
          have hworker : s.busy < max 1 setup.workers := by
            have hnone : s.tasks.filter (fun t => t.phase.isBusy) = [] := by
              rw [List.filter_eq_nil_iff]
              exact fun u hu => Bool.eq_false_iff.mp (hidle u hu)
            rw [busy, hnone, List.length_nil]
            omega
          exact ⟨0, .grant t.node, rfl, can_grant hopen t htask hcase hworker⟩
  · simp only [not_forall, Bool.not_eq_false] at hidle
    rcases hidle with ⟨t, ht, hbusy⟩
    have htask := task?_of_mem hnodup t ht
    cases hcase : t.phase with
    | attempting => exact ⟨0, .answer t.node (.ok .null), rfl, can_answer hopen t htask hcase .null⟩
    | resting untilMs error =>
        have hdue : untilMs ≤ (s.later untilMs).nowMs := Nat.le_add_left untilMs s.nowMs
        have hwake : (s.later untilMs).Can setup (.wake t.node) :=
          can_wake (s := s.later untilMs) hopen t htask untilMs error hcase hdue
        exact ⟨untilMs, .wake t.node, rfl, hwake⟩
    | queued | answered _ _ | brokenDown =>
        rw [hcase] at hbusy
        exact absurd hbusy Bool.false_ne_true

end RunState

namespace Course

theorem nodup_tasks (choices : List Choice) (s : RunState) (h : Course setup choices s) :
    (s.tasks.map Task.node).Nodup := by
  refine induction (P := fun _ s => (s.tasks.map Task.node).Nodup) List.nodup_nil ?_ choices s h
  intro _ choice u u' hu ih hstep
  rcases RunState.does_of_step setup u u' choice hstep with ⟨hopen, hdoes⟩
  cases hdoes with
  | tick | cancel => exact ih
  | work _ _ _ hmove => exact hmove.nodup_tasks hu.sound hopen ih

/-- What was done in a run and what may still be done are no more than what
    there was to do at its beginning. -/
theorem work_le (choices : List Choice) (s : RunState) (h : Course setup choices s) :
    choices.countP Choice.isWork + s.remaining setup ≤ (RunState.start setup).remaining setup := by
  refine induction (P := fun choices s => choices.countP Choice.isWork + s.remaining setup ≤
    (RunState.start setup).remaining setup) ?_ ?_ choices s h
  · rw [List.countP_nil, Nat.zero_add]
  · intro choices choice u u' hu ih hstep
    rcases RunState.does_of_step setup u u' choice hstep with ⟨hopen, hdoes⟩
    rw [List.countP_append, List.countP_singleton]
    cases hdoes with
    | tick | cancel => exact ih
    | work _ _ hwork hmove =>
        have hlt := hmove.remaining_lt hopen hu.nodup_tasks
        rw [if_pos hwork]
        omega

/-- Every run can be brought to its end, and does not have to be cancelled for
    that. -/
theorem exists_over (choices : List Choice) (s : RunState) (h : Course setup choices s) :
    ∃ rest u, Course setup (choices ++ rest) u ∧ u.status ≠ none ∧ .cancel ∉ rest := by
  induction hleft : s.remaining setup using Nat.strong_induction_on generalizing choices s with
  | h left ih =>
      by_cases hopen : s.status = none
      -- One thing is done, after some time; the rest of the run has less to do.
      · rcases RunState.exists_ready setup hopen h.nodup_tasks with
          ⟨ms, choice, hwork, hcan⟩
        rcases Option.isSome_iff_exists.mp hcan with ⟨u, hu⟩
        have htick : s.step setup (.tick ms) = some (s.later ms) := by
          simp only [RunState.step, hopen, Option.isSome_none, Bool.false_eq_true, if_false,
            RunState.later]
        have hlater := h.concat (.tick ms) _ htick
        have hcourse := hlater.concat choice u hu
        have hlt := RunState.remaining_lt_of_step choice hwork hlater.nodup_tasks hu
        have hsame : (s.later ms).remaining setup = s.remaining setup := rfl
        rw [hsame, hleft] at hlt
        rcases ih _ hlt _ u hcourse rfl with ⟨rest, last, hlast, hover, hcalm⟩
        refine ⟨.tick ms :: choice :: rest, last, ?_, hover, ?_⟩
        · rw [List.append_assoc, List.append_assoc] at hlast
          exact hlast
        · simp only [List.mem_cons, reduceCtorEq, false_or, not_or]
          refine ⟨?_, hcalm⟩
          intro heq
          rw [← heq] at hwork
          exact Bool.false_ne_true hwork
      · exact ⟨[], s, by rwa [List.append_nil], hopen, List.not_mem_nil⟩

end Course

end Workflow
