import Workflow.Proofs.Conduct

/-!
# Where Outputs Come From

No output is made up in a run.

The output in the record of a node is what its handler has answered, and so is
the output that a task waits with to be collected (`RunState.Heard`). It is so
at the beginning, where there are no outputs, and every step keeps it: a task
gets an output only from an answer, a record gets one only from its task, and
whoever is skipped or held back has none.

## Main definitions

* `RunState.Heard`: Every output that is known was answered.

## Theorems

* `answer_of_output`: A task has the output that was answered last.
* `Move.heard`: No step makes an output up.
* `Course.answered_of_output`: The outputs of a run were answered by the handlers
  of their nodes.
-/

namespace Workflow

namespace RunState

/-- Every output that is known was the answer of a handler. -/
structure Heard (choices : List Choice) (s : RunState) : Prop where
  recorded : ∀ id r v, s.record? id = some r → r.output = some v → .answer id (.ok v) ∈ choices
  pending : ∀ id t atMs v, s.task? id = some t → t.phase = .answered atMs (.ok v) →
    .answer id (.ok v) ∈ choices

variable {setup : Setup} {s s' : RunState} {choices : List Choice} {choice : Choice}

/-- Further choices change nothing about it. -/
theorem Heard.mono (h : s.Heard choices) (hrecords : s'.records = s.records)
    (htasks : s'.tasks = s.tasks) : s'.Heard (choices ++ [choice]) where
  recorded := by
    intro id r v hr hv
    rw [record?, hrecords] at hr
    exact List.mem_append_left _ (h.recorded id r v hr hv)
  pending := by
    intro id t atMs v ht hphase
    rw [task?, htasks] at ht
    exact List.mem_append_left _ (h.pending id t atMs v ht hphase)

/-- A record that is changed gets its output from where it had it, or from the
    answer of its task. -/
theorem Heard.amend (h : s.Heard choices) (key : NodeId) (change : NodeRun → NodeRun)
    (hrecord : ∀ id, s'.record? id =
      if id = key then (s.record? id).map change else s.record? id)
    (houtput : ∀ r v, (change r).output = some v → r.output = some v ∨
      .answer key (.ok v) ∈ choices)
    (htask : ∀ id t, s'.task? id = some t → s.task? id = some t ∨ t.phase = .queued) :
    s'.Heard (choices ++ [choice]) where
  recorded := by
    intro id r v hr hv
    rw [hrecord] at hr
    refine List.mem_append_left _ ?_
    -- The record of one node has changed, and what is new in it was an answer.
    by_cases hid : id = key
    · rw [if_pos hid] at hr
      rcases Option.map_eq_some_iff.mp hr with ⟨before, hbefore, heq⟩
      rw [hid] at hbefore ⊢
      rw [← heq] at hv
      rcases houtput before v hv with hold | hanswer
      · exact h.recorded key before v hbefore hold
      · exact hanswer
    · rw [if_neg hid] at hr
      exact h.recorded id r v hr hv
  pending := by
    intro id t atMs v ht hphase
    -- A task that is new has no answer.
    rcases htask id t ht with hold | hqueued
    · exact List.mem_append_left _ (h.pending id t atMs v hold hphase)
    · rw [hqueued] at hphase
      exact nomatch hphase

/-- What is added to the records at the end of a run has no output. -/
theorem Heard.finish (h : s.Heard choices) : (s.finish setup).Heard (choices ++ [choice]) where
  recorded := by
    intro id r v hr hv
    rw [record?_finish] at hr
    rcases Option.map_eq_some_iff.mp hr with ⟨before, hbefore, heq⟩
    refine List.mem_append_left _ (h.recorded id before v hbefore ?_)
    -- A node that was never launched is skipped, and a skipped node has no output.
    by_cases huntouched : id ∈ s.untouched
    · rw [if_pos huntouched] at heq
      rw [← heq] at hv
      exact nomatch hv
    · rw [if_neg huntouched] at heq
      rw [heq]
      exact hv
  pending := by
    intro id t atMs v ht hphase
    have htasks : (s.finish setup).tasks = s.tasks := by
      rw [finish_eq]
      rfl
    rw [task?, htasks] at ht
    exact List.mem_append_left _ (h.pending id t atMs v ht hphase)

/-- A task has an output when it was at an attempt before. -/
theorem attempting_of_output {t next : Task} {events : List Happening}
    (h : t.Goes setup s next events) (atMs : Nat) (v : Json)
    (hphase : next.phase = .answered atMs (.ok v)) : t.phase = .attempting := by
  cases h with
  | succeeds output hattempting => exact hattempting
  | turnedAway | begins | rests | fails | breaksDown | wakes | cutShort => exact nomatch hphase

/-- The output of a task is what its handler has answered. -/
theorem answer_of_output {t next : Task} {events : List Happening}
    (hstep : s.step setup choice = some s') (htask : s.task? t.node = some t)
    (hgoes : t.Goes setup s next events) (hnext : s'.task? t.node = some next) (atMs : Nat)
    (v : Json) (hphase : next.phase = .answered atMs (.ok v)) :
    choice = .answer t.node (.ok v) := by
  have hattempting := attempting_of_output hgoes atMs v hphase
  rcases task?_of_step setup s s' choice hstep t.node t htask hattempting with
    hsame | ⟨outcome, heard, hchoice, hhears, hheard⟩ | ⟨-, hbroken⟩
  -- The task has gone on, so it is not the one it was.
  · rw [hnext, Option.some.injEq] at hsame
    exact absurd (hsame ▸ hattempting) (hgoes.phase_ne hattempting)
  · rw [hnext, Option.some.injEq] at hheard
    rw [hheard] at hphase
    cases hhears with
    | output output =>
        rw [hchoice, (Except.ok.inj (Phase.answered.inj hphase).2)]
    | again | last => exact nomatch hphase
  · rw [hnext, Option.some.injEq] at hbroken
    rw [hbroken] at hphase
    exact nomatch hphase

/-- A task that goes on has an output only when its handler has just answered. -/
theorem Heard.go (h : s.Heard choices) (t next : Task) (events : List Happening)
    (htask : s.task? t.node = some t) (hgoes : t.Goes setup s next events)
    (hstep : s.step setup choice = some (s.proceed next events)) :
    (s.proceed next events).Heard (choices ++ [choice]) where
  recorded := fun id r v hr hv => List.mem_append_left _ (h.recorded id r v hr hv)
  pending := by
    intro id found atMs v hfound hphase
    have hput := s.task?_proceed next events
    rw [hgoes.node] at hput
    have hnext : (s.proceed next events).task? t.node = some next := by
      rw [hput, if_pos rfl, htask, Option.map_some]
    by_cases hid : id = t.node
    -- The task that goes on has the output that is answered in this very step.
    · rw [hid, hnext, Option.some.injEq] at hfound
      rw [hid, ← answer_of_output hstep htask hgoes hnext atMs v (hfound ▸ hphase)]
      exact List.mem_append_right _ List.mem_cons_self
    · rw [hput, if_neg hid] at hfound
      exact List.mem_append_left _ (h.pending id found atMs v hfound hphase)

/-- What is noted at the end of a task is its answer. -/
theorem Heard.output_of_ends (h : s.Heard choices) {t : Task} {change : NodeRun → NodeRun}
    {events : List Happening} {lost : Bool} (htask : s.task? t.node = some t)
    (hends : t.Ends setup s change events lost) (r : NodeRun) (v : Json)
    (hv : (change r).output = some v) :
    r.output = some v ∨ .answer t.node (.ok v) ∈ choices := by
  cases hends with
  | settled atMs result hphase hcalm =>
      cases result with
      | ok output =>
          have heq : output = v := Option.some.inj hv
          exact Or.inr (h.pending t.node t atMs v htask (heq ▸ hphase))
      | error error => exact Or.inl hv
  | missed hphase hcalm => exact Or.inl hv
  | discarded | dropped => exact nomatch hv

/-- What is done in a run brings no output that was not an answer. -/
theorem Move.heard (hmove : s.Move setup s') (h : s.Heard choices) (hsound : s.Sound setup)
    (hstep : s.step setup choice = some s') : s'.Heard (choices ++ [choice]) := by
  have hopen := (does_of_step setup s s' _ hstep).1
  cases hmove with
  | pass id rest hentering hnone => exact h.mono rfl rfl
  | block id rest node predecessor status hentering hnode hkind hblocker =>
      exact h.amend id _ (fun other => (s.leave rest).record?_amend id other _)
        (fun r v hv => nomatch hv) (fun other t ht => Or.inl ht)
  | launch id rest node hentering hnode hfree =>
      have hid := (setup.graph.mem_of_node? id node hnode).2
      rw [← hid] at hentering hnode
      rcases hsound.upcoming_of_entering node rest hentering hopen hnode with ⟨-, htask, -⟩
      rw [← hid]
      refine h.amend node.id NodeRun.launched
        (fun other => (s.leave rest).record?_amend node.id other _) (fun r v hv => Or.inl hv) ?_
      -- The new task waits for a worker, and all others are as they were.
      intro other t ht
      rw [task?_enlist (s.leave rest) node.id other _ rfl htask] at ht
      by_cases hother : other = node.id
      · rw [if_pos hother, Option.some.injEq] at ht
        exact Or.inr (ht ▸ rfl)
      · rw [if_neg hother] at ht
        exact Or.inl ht
  | go t next events htask hgoes => exact h.go t next events htask hgoes hstep
  | close t change events lost htask hentering hends =>
      refine h.amend t.node change (fun other => (s.drop t.node).record?_amend t.node other change)
        (h.output_of_ends htask hends) ?_
      intro other found hfound
      have hdrop : (s.retire t.node change events lost).task? other =
          if other = t.node then none else s.task? other := s.task?_drop t.node other
      rw [hdrop] at hfound
      by_cases hother : other = t.node
      · rw [if_pos hother] at hfound
        exact nomatch hfound
      · rw [if_neg hother] at hfound
        exact Or.inl hfound
  | enter stage ahead hentering htasks hahead hcalm => exact h.mono rfl rfl
  | finish hentering htasks hahead => exact h.finish
  | abandon hentering htasks hahead hcancelled =>
      have hsame : Heard choices { s with interrupted := true } := ⟨h.recorded, h.pending⟩
      exact hsame.finish

theorem start_heard (setup : Setup) (hplan : setup.graph.plan = .ok setup.plan) :
    (start setup).Heard [] where
  recorded := by
    intro id r v hr hv
    rcases start_fresh setup hplan id r hr with ⟨node, hnew⟩
    rw [hnew] at hv
    exact nomatch hv
  pending := by
    intro id t atMs v ht _
    exact nomatch ht

end RunState

namespace Course

variable {setup : Setup}

theorem heard (choices : List Choice) (s : RunState) (h : Course setup choices s) :
    s.Heard choices := by
  refine induction (P := fun choices s => s.Heard choices) (RunState.start_heard setup h.planned) ?_
    choices s h
  intro past choice u u' hcourse hheard hstep
  rcases RunState.does_of_step setup u u' choice hstep with ⟨-, hdoes⟩
  cases hdoes with
  | tick ms => exact hheard.mono rfl rfl
  | cancel => exact hheard.mono rfl rfl
  | work _ _ _ hmove => exact hmove.heard hheard hcourse.sound hstep

/-- The output of a node was answered by its handler. -/
theorem answered_of_output (choices : List Choice) (s : RunState) (h : Course setup choices s)
    (id : NodeId) (r : NodeRun) (v : Json) (hr : s.record? id = some r) (hv : r.output = some v) :
    .answer id (.ok v) ∈ choices :=
  (h.heard choices s).recorded id r v hr hv

end Course

end Workflow
