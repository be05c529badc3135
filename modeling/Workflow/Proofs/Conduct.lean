import Workflow.Proofs.Persistence

/-!
# Handlers That Go by Their Calls

What is known of a run whose handlers do always the same when they are given
the same.

A handler is given the configuration of its node, the outputs of the nodes
before it, who asks, what the run was started with, and which attempt it is.
When the end of an attempt depends on nothing else, it is a function of the
call (`Conduct`), and a list of choices obeys it when every attempt ends as the
function says (`Obeys`). All other choices are free: who gets a worker, how
long anything takes, in which order answers are collected, and when the run is
cancelled.

Then a record says what the function says. An attempt that is followed by
another one has failed in a way that may pass, so the first attempt of which
this is not true is the last one, and there is only one such number (`Lasts`).
The record of a node that was not lost to cancelling is the `Fate` that the
last attempt brings, or a predecessor is to blame for it (`Explained`). What
its attempts are given are the outputs that are known of its predecessors, none
of which was lost either (`Grounded`), because a stage is not entered once the
run is cancelled.

## Main definitions

* `Conduct`: What handlers make of their calls.
* `Obeys`: Every attempt ends as the handlers would have it.
* `Fate`: What is recorded of a node.
* `Lasts`: An attempt is the last one.
* `RunState.Faithful`: What is known of tasks and records.

## Theorems

* `task?_of_step`: An attempt goes on until its handler answers.
* `attempting_of_ended`: Only an attempt that is under way can be ended.
* `Move.faithful`: What is done in a run keeps it faithful.
* `Course.faithful`: A run whose handlers go by their calls is faithful.
-/

namespace Workflow

/-- What handlers make of their calls: an output or an error, or nothing when
    they break down. They are not told which run it is. -/
abbrev Conduct := Kind → Call → Option (Except AttemptError Json)

/-- The node of which an attempt is ended by a choice. -/
def Choice.ended? : Choice → Option NodeId
  | .answer node _ => some node
  | .crash node => some node
  | _ => none

/-- What a handler goes by in the current attempt of a task. -/
def Task.question (setup : Setup) (t : Task) : Call := { t.call setup with run := "" }

theorem Phase.ne_attempting_of_isResting (phase : Phase) (h : phase.isResting = true) :
    phase ≠ .attempting := by
  intro heq
  rw [heq] at h
  exact Bool.false_ne_true h

namespace RunState

/-- A choice ends an attempt as its handler would have it. -/
def heeds (conduct : Conduct) (setup : Setup) (s : RunState) : Choice → Bool
  | .answer id outcome =>
      (s.task? id).all fun t => decide (conduct t.kind (t.question setup) = some outcome)
  | .crash id => (s.task? id).all fun t => decide (conduct t.kind (t.question setup) = none)
  | _ => true

/-- Every attempt ends as its handler would have it. -/
def obeys (conduct : Conduct) (setup : Setup) (s : RunState) : List Choice → Bool
  | [] => true
  | choice :: rest =>
      s.heeds conduct setup choice &&
        (s.step setup choice).all fun s' => s'.obeys conduct setup rest

theorem obeys_concat (conduct : Conduct) (setup : Setup) (s u : RunState) (choices : List Choice)
    (choice : Choice) (hfollow : s.follow setup choices = some u)
    (h : s.obeys conduct setup (choices ++ [choice]) = true) :
    s.obeys conduct setup choices = true ∧ u.heeds conduct setup choice = true := by
  induction choices generalizing s with
  | nil =>
      rw [follow, List.foldlM_nil] at hfollow
      rw [List.nil_append, obeys, Bool.and_eq_true] at h
      exact ⟨rfl, Option.some.inj hfollow ▸ h.1⟩
  | cons first rest ih =>
      rw [List.cons_append, obeys, Bool.and_eq_true] at h
      rcases Option.bind_eq_some_iff.mp hfollow with ⟨s', hstep, hrest⟩
      rw [hstep, Option.all_some] at h
      rcases ih s' hrest h.2 with ⟨hbefore, hlast⟩
      refine ⟨?_, hlast⟩
      rw [obeys, Bool.and_eq_true, hstep, Option.all_some]
      exact ⟨h.1, hbefore⟩

theorem task?_proceed (s : RunState) (next : Task) (events : List Happening) (id : NodeId) :
    (s.proceed next events).task? id =
      if id = next.node then (s.task? id).map fun _ => next else s.task? id :=
  s.task?_put next id

/-- A task that is not at an attempt is that of another node than one that is,
    so what it does is not seen there. -/
theorem task?_proceed_of_attempting (setup : Setup) (s : RunState) (id : NodeId)
    (t other next : Task) (events : List Happening) (htask : s.task? id = some t)
    (hphase : t.phase = .attempting) (hother : s.task? other.node = some other)
    (hne : other.phase ≠ .attempting) (hgoes : other.Goes setup s next events) :
    (s.proceed next events).task? id = some t := by
  have hid : id ≠ next.node := by
    rw [hgoes.node]
    intro heq
    rw [← heq, htask, Option.some.injEq] at hother
    exact hne (hother ▸ hphase)
  rw [task?_proceed, if_neg hid, htask]

theorem task?_launch (setup : Setup) (s s' : RunState) (h : s.launch setup = some s')
    (id : NodeId) (t : Task) (htask : s.task? id = some t) : s'.task? id = some t := by
  rw [launch] at h
  cases hentering : s.entering with
  | nil =>
      rw [hentering] at h
      exact absurd h (by simp only [reduceCtorEq, not_false_eq_true])
  | cons key rest =>
      rw [hentering] at h
      simp only at h
      cases hnode : setup.graph.node? key with
      | none =>
          rw [hnode, Option.some.injEq] at h
          rw [← h]
          exact htask
      | some node =>
          rw [hnode, Option.some.injEq, launchNode] at h
          rw [← h]
          -- A new task stands last, and the one that was there is found first.
          split
          · exact htask
          · rw [task?, List.find?_append]
            rw [task?] at htask
            exact (congrArg (Option.or · _) htask).trans Option.some_or

theorem task?_collect (setup : Setup) (s s' : RunState) (key : NodeId)
    (h : s.collect setup key = some s') (id : NodeId) (t : Task) (htask : s.task? id = some t)
    (hphase : t.phase = .attempting) : s'.task? id = some t := by
  rcases Option.bind_eq_some_iff.mp h with ⟨other, hother, hs'⟩
  cases hanswer : other.phase with
  | answered atMs result =>
      -- The one that is collected has answered, so it is another one.
      have hne : id ≠ key := by
        intro heq
        rw [← heq, htask, Option.some.injEq] at hother
        rw [← hother, hphase] at hanswer
        exact absurd hanswer (by simp only [reduceCtorEq, not_false_eq_true])
      have hdrop : (s.drop key).task? id = some t := by
        rw [task?_drop, if_neg hne, htask]
      simp only [hanswer] at hs'
      split at hs'
      · exact absurd hs' (by simp only [reduceCtorEq, not_false_eq_true])
      · split at hs' <;>
        · rw [← Option.some.inj hs']
          exact hdrop
  | queued | attempting | resting _ _ | brokenDown =>
      simp only [hanswer, reduceCtorEq] at hs'

/-- What is left of a stage cannot be swept, nor the next one entered, while an
    attempt is under way. -/
theorem not_idle_of_attempting (setup : Setup) (s : RunState) (id : NodeId) (t : Task)
    (htask : s.task? id = some t) (hphase : t.phase = .attempting) :
    s.sweep setup = none ∧ s.advance setup = none := by
  -- The task is there, and it has not broken down.
  have hmem : t ∈ s.tasks := List.mem_of_find?_eq_some htask
  have hall : (s.tasks.all fun t => t.phase.isBrokenDown) = false := by
    rw [List.all_eq_false]
    refine ⟨t, hmem, ?_⟩
    rw [hphase]
    exact Bool.false_ne_true
  have hsome : s.tasks.isEmpty = false := List.isEmpty_eq_false_iff.mpr (List.ne_nil_of_mem hmem)
  constructor
  · rw [sweep]
    split
    · rfl
    · rw [if_pos]
      rw [hall, Bool.not_false, Bool.or_true]
  · rw [advance, if_pos]
    rw [hsome, Bool.not_false, Bool.or_true]

/-- An attempt that is under way goes on until its handler answers or breaks
    down. -/
theorem task?_of_step (setup : Setup) (s s' : RunState) (choice : Choice)
    (h : s.step setup choice = some s') (id : NodeId) (t : Task) (htask : s.task? id = some t)
    (hphase : t.phase = .attempting) :
    s'.task? id = some t ∨
      (∃ outcome next, choice = .answer id outcome ∧ t.Hears setup s outcome next ∧
        s'.task? id = some next) ∨
      choice = .crash id ∧ s'.task? id = some (t.enter .brokenDown) := by
  have hopen := (does_of_step setup s s' choice h).1
  rw [step.eq_def, hopen, Option.isSome_none, if_neg Bool.false_ne_true] at h
  cases choice with
  | tick ms | cancel =>
      rw [← Option.some.inj h]
      exact Or.inl htask
  | launch => exact Or.inl (task?_launch setup s s' h id t htask)
  | grant key =>
      rcases goes_of_grant setup s s' key h with
        -- What gets a worker was waiting for one, so it is another task.
        ⟨other, next, events, -, hother, hqueued, hgoes, heq⟩
      have hne : other.phase ≠ .attempting := by
        intro hsame
        rw [hqueued] at hsame
        contradiction
      rw [heq]
      exact Or.inl (task?_proceed_of_attempting setup s id t other next events htask hphase hother
        hne hgoes)
  | answer key outcome =>
      rcases goes_of_answer setup s s' key outcome h with
        ⟨other, next, events, hkey, hother, -, hhears, hgoes, heq⟩
      -- Either this very task is answered, or another one.
      rw [heq, task?_proceed, hgoes.node, hkey]
      by_cases hid : id = key
      · rw [hkey, ← hid, htask, Option.some.injEq] at hother
        rw [← hother] at hhears
        rw [if_pos hid, htask, Option.map_some]
        exact Or.inr (Or.inl ⟨outcome, next, by rw [hid], hhears, rfl⟩)
      · rw [if_neg hid]
        exact Or.inl htask
  | crash key =>
      rcases goes_of_crash setup s s' key h with
        ⟨other, next, events, hkey, hother, -, hnext, hgoes, heq⟩
      rw [heq, task?_proceed, hgoes.node, hkey]
      by_cases hid : id = key
      · rw [hkey, ← hid, htask, Option.some.injEq] at hother
        rw [if_pos hid, htask, Option.map_some, hnext, ← hother]
        exact Or.inr (Or.inr ⟨by rw [hid], rfl⟩)
      · rw [if_neg hid]
        exact Or.inl htask
  | wake key =>
      rcases goes_of_wake setup s s' key h with ⟨other, next, events, hother, hrests, hgoes, heq⟩
      -- What rests is not at an attempt.
      have hne := other.phase.ne_attempting_of_isResting hrests
      rw [heq]
      exact Or.inl (task?_proceed_of_attempting setup s id t other next events htask hphase hother
        hne hgoes)
  | interrupt key =>
      rcases goes_of_interrupt setup s s' key h with
        ⟨other, next, events, hother, hrests, hgoes, heq⟩
      have hne := other.phase.ne_attempting_of_isResting hrests
      rw [heq]
      exact Or.inl (task?_proceed_of_attempting setup s id t other next events htask hphase hother
        hne hgoes)
  | collect key => exact Or.inl (task?_collect setup s s' key h id t htask hphase)
  | sweep =>
      -- The stage is not over while the attempt lasts.
      rw [(not_idle_of_attempting setup s id t htask hphase).1] at h
      exact absurd h (by simp only [reduceCtorEq, not_false_eq_true])
  | advance =>
      rw [(not_idle_of_attempting setup s id t htask hphase).2] at h
      exact absurd h (by simp only [reduceCtorEq, not_false_eq_true])

end RunState

/-- What becomes of a node. -/
structure Fate where
  status : NodeStatus
  output : Option Json
  error : Option NodeError
  attempts : Nat
deriving DecidableEq, Repr

namespace Fate

/-- What the last attempt of a node brings. The attempts of a node whose
    handler broke down are not noted. -/
def ofLast : Option (Except AttemptError Json) → Nat → Fate
  | some (.ok output), n => ⟨.succeeded, some output, none, n⟩
  | some (.error e), n => ⟨.failed, none, some (.ofAttempt e), n⟩
  | none, _ => ⟨.failed, none, some ⟨.permanent, "handler panicked"⟩, 0⟩

/-- What a predecessor brings to a node that it blocks. -/
def blocked (predecessor : NodeId) (status : NodeStatus) : Fate :=
  ⟨.skipped, none, some ⟨.predecessor, RunState.blockedReason predecessor status⟩, 0⟩

end Fate

namespace NodeRun

/-- What became of a node. -/
def fate (r : NodeRun) : Fate := ⟨r.status, r.output, r.error, r.attempts⟩

end NodeRun

/-- An attempt is followed by another one. -/
def Again (budget n : Nat) : Option (Except AttemptError Json) → Prop
  | some (.error e) => (NodeError.ofAttempt e).cause.isRetryable = true ∧ n ≤ budget
  | _ => False

/-- An attempt is the last one. -/
structure Lasts (replies : Nat → Option (Except AttemptError Json)) (budget n : Nat) : Prop where
  pos : 0 < n
  before : ∀ i, 0 < i → i < n → Again budget i (replies i)
  last : ¬ Again budget n (replies n)

/-- Only one attempt is the last one. -/
theorem Lasts.unique {replies : Nat → Option (Except AttemptError Json)} {budget m n : Nat}
    (hm : Lasts replies budget m) (hn : Lasts replies budget n) : m = n := by
  rcases Nat.lt_trichotomy m n with hlt | heq | hgt
  · exact absurd (hn.before m hm.pos hlt) hm.last
  · exact heq
  · exact absurd (hm.before n hn.pos hgt) hn.last

/-- What is true of a task in a phase when its handler says something definite
    in every attempt. An answer that no attempt gave is one of a cancelled run. -/
def Phase.Heeds (replies : Nat → Option (Except AttemptError Json)) (budget : Nat)
    (cancelled : Bool) (attempts : Nat) : Phase → Prop
  | .queued => attempts = 0
  | .attempting => 0 < attempts ∧ ∀ i, 0 < i → i < attempts → Again budget i (replies i)
  | .resting _ _ => 0 < attempts ∧ ∀ i, 0 < i → i ≤ attempts → Again budget i (replies i)
  | .answered _ result => cancelled = true ∨ Lasts replies budget attempts ∧
      ∃ outcome, replies attempts = some outcome ∧ result = outcome.mapError NodeError.ofAttempt
  | .brokenDown => Lasts replies budget attempts ∧ replies attempts = none

theorem Phase.Heeds.mono {replies : Nat → Option (Except AttemptError Json)} {budget : Nat}
    {before after : Bool} {attempts : Nat} {phase : Phase}
    (h : phase.Heeds replies budget before attempts) (hcancelled : before = true → after = true) :
    phase.Heeds replies budget after attempts := by
  cases phase with
  | answered atMs result => exact h.imp_left hcancelled
  | queued | attempting | resting _ _ | brokenDown => exact h

namespace Task

variable {setup : Setup} {s : RunState} {t next : Task} {events : List Happening}
variable {replies : Nat → Option (Except AttemptError Json)}

/-- An attempt that is under way is over when its task goes on. -/
theorem Goes.phase_ne (h : t.Goes setup s next events) (hphase : t.phase = .attempting) :
    next.phase ≠ .attempting := by
  cases h with
  | turnedAway hother | begins hother =>
      rw [hphase] at hother
      exact absurd hother nofun
  | succeeds | rests | fails | breaksDown | cutShort => exact nofun
  | wakes untilMs error hother =>
      rw [hphase] at hother
      exact absurd hother nofun

/-- A task that ends makes no attempt. -/
theorem Ends.phase_ne {change : NodeRun → NodeRun} {lost : Bool}
    (h : t.Ends setup s change events lost) : t.phase ≠ .attempting := by
  intro hphase
  cases h with
  | settled _ _ hnow | discarded _ _ hnow | missed hnow | dropped hnow =>
      exact absurd (hnow.symm.trans hphase) nofun

/-- The end of an attempt tells whether it was the last one. -/
theorem Hears.heeds {outcome : Except AttemptError Json} (h : t.Hears setup s outcome next)
    (hpos : 0 < t.attempts)
    (hbefore : ∀ i, 0 < i → i < t.attempts → Again (setup.budget t.kind) i (replies i))
    (hreply : replies t.attempts = some outcome) :
    next.phase.Heeds replies (setup.budget t.kind) s.cancelled next.attempts := by
  cases h with
  | output output =>
      -- After an output there is no other attempt.
      refine Or.inr ⟨⟨hpos, hbefore, ?_⟩, .ok output, hreply, rfl⟩
      change ¬ Again (setup.budget t.kind) t.attempts (replies t.attempts)
      rw [hreply]
      exact not_false
  | again e hretry hbudget =>
      -- All attempts up to this one call for another, and this one does.
      refine ⟨hpos, fun i hi hle => ?_⟩
      rcases Nat.lt_or_eq_of_le hle with hlt | heq
      · exact hbefore i hi hlt
      · rw [heq]
        change Again (setup.budget t.kind) t.attempts (replies t.attempts)
        rw [hreply]
        exact ⟨hretry, hbudget⟩
  | last e hlast =>
      -- Either the error does not pass, or the budget is spent.
      refine Or.inr ⟨⟨hpos, hbefore, ?_⟩, .error e, hreply, rfl⟩
      change ¬ Again (setup.budget t.kind) t.attempts (replies t.attempts)
      rw [hreply]
      rintro ⟨hretry, hbudget⟩
      rcases hlast with hnot | hspent
      · exact absurd (hretry.symm.trans hnot) Bool.true_eq_false.mp
      · omega

/-- A task that goes on does so as its handler would have it. -/
theorem Goes.heeds (h : t.Goes setup s next events)
    (hheeds : t.phase.Heeds replies (setup.budget t.kind) s.cancelled t.attempts)
    (hhears : t.phase = .attempting →
      (∃ outcome, replies t.attempts = some outcome ∧ t.Hears setup s outcome next) ∨
      replies t.attempts = none ∧ next = t.enter .brokenDown) :
    next.phase.Heeds replies (setup.budget t.kind) s.cancelled next.attempts := by
  -- Only the end of an attempt brings something new.
  by_cases hattempting : t.phase = .attempting
  · rw [hattempting] at hheeds
    rcases hheeds with ⟨hpos, hbefore⟩
    rcases hhears hattempting with ⟨outcome, hreply, hnext⟩ | ⟨hreply, hnext⟩
    · exact hnext.heeds hpos hbefore hreply
    · rw [hnext]
      refine ⟨⟨hpos, hbefore, ?_⟩, hreply⟩
      change ¬ Again (setup.budget t.kind) t.attempts (replies t.attempts)
      rw [hreply]
      exact not_false
  · cases h with
    | turnedAway hphase hworker hcancelled => exact Or.inl hcancelled
    | begins hphase hworker hcalm =>
        rw [hphase] at hheeds
        have hzero : t.attempts = 0 := hheeds
        -- There was no attempt before the first one.
        refine ⟨Nat.succ_pos _, fun i hi hlt => ?_⟩
        simp only [attemptAgain] at hlt
        omega
    | wakes untilMs error hphase hdue =>
        rw [hphase] at hheeds
        exact ⟨Nat.succ_pos _, fun i hi hlt => hheeds.2 i hi (Nat.le_of_lt_succ hlt)⟩
    | cutShort untilMs error hphase hcancelled => exact Or.inl hcancelled
    | succeeds output hphase => exact absurd hphase hattempting
    | rests e hphase => exact absurd hphase hattempting
    | fails e hphase => exact absurd hphase hattempting
    | breaksDown hphase => exact absurd hphase hattempting

end Task

namespace RunState

/-- Only an attempt that is under way can be ended, and its task goes on from
    there. -/
theorem attempting_of_ended (setup : Setup) (s s' : RunState) (choice : Choice)
    (h : s.step setup choice = some s') (id : NodeId) (hended : choice.ended? = some id) :
    ∃ t next, s.task? id = some t ∧ t.phase = .attempting ∧ s'.task? id = some next ∧
      next.phase ≠ .attempting := by
  have hopen := (does_of_step setup s s' choice h).1
  rw [step.eq_def, hopen, Option.isSome_none, if_neg Bool.false_ne_true] at h
  -- What is answered goes on to another phase.
  have hgone : ∀ t next events, t.node = id → s.task? t.node = some t → t.phase = .attempting →
      t.Goes setup s next events → s' = s.proceed next events →
      ∃ t next, s.task? id = some t ∧ t.phase = .attempting ∧ s'.task? id = some next ∧
        next.phase ≠ .attempting := by
    intro t next events hnode htask hphase hgoes heq
    rw [hnode] at htask
    refine ⟨t, next, htask, hphase, ?_, hgoes.phase_ne hphase⟩
    rw [heq, task?_proceed, hgoes.node, hnode, if_pos rfl, htask, Option.map_some]
  cases choice with
  | answer key outcome =>
      rcases goes_of_answer setup s s' key outcome h with
        ⟨t, next, events, hnode, htask, hphase, -, hgoes, heq⟩
      exact hgone t next events (hnode.trans (Option.some.inj hended)) htask hphase hgoes heq
  | crash key =>
      rcases goes_of_crash setup s s' key h with
        ⟨t, next, events, hnode, htask, hphase, -, hgoes, heq⟩
      exact hgone t next events (hnode.trans (Option.some.inj hended)) htask hphase hgoes heq
  | tick | cancel | launch | grant | wake | interrupt | collect | sweep | advance =>
      exact absurd hended.symm (Option.some_ne_none id)

/-- What leaves an attempt as it is, does not end it. -/
theorem ended?_ne (setup : Setup) (s s' : RunState) (choice : Choice)
    (h : s.step setup choice = some s') (id : NodeId)
    (hstays : ∀ t, s.task? id = some t → t.phase = .attempting → s'.task? id = some t) :
    choice.ended? ≠ some id := by
  intro hended
  rcases attempting_of_ended setup s s' choice h id hended with
    ⟨t, next, htask, hphase, hnext, hgone⟩
  rw [hstays t htask hphase, Option.some.injEq] at hnext
  exact hgone (hnext ▸ hphase)

/-- An attempt that is under way goes on when another task ends. -/
theorem task?_retire_of_attempting {setup : Setup} {s : RunState} {t u : Task}
    {change : NodeRun → NodeRun} {events : List Happening} {lost : Bool}
    (htask : s.task? t.node = some t) (hends : t.Ends setup s change events lost) {id : NodeId}
    (hu : s.task? id = some u) (hphase : u.phase = .attempting) :
    (s.retire t.node change events lost).task? id = some u := by
  refine (s.task?_drop t.node id).trans ?_
  rw [if_neg]
  · exact hu
  · intro heq
    rw [heq, htask, Option.some.injEq] at hu
    rw [← hu] at hphase
    exact hends.phase_ne hphase

/-- What the handler of a node goes by in an attempt. -/
def asked (setup : Setup) (s : RunState) (node : Node) (attempt : Nat) : Call where
  run := ""
  node := node.id
  attempt := attempt
  identity := setup.identity
  runInput := setup.input
  config := node.config
  inputs := s.inputsOf setup node.id

/-- What the handler of a node says in its attempts. -/
def replies (conduct : Conduct) (setup : Setup) (s : RunState) (node : Node) (attempt : Nat) :
    Option (Except AttemptError Json) :=
  conduct node.kind (s.asked setup node attempt)

/-- What is known of a task. -/
structure Works (conduct : Conduct) (setup : Setup) (s : RunState) (node : Node) (t : Task) :
    Prop where
  grounded : s.Grounded setup node.id
  free : node.kind.tolerant = true ∨ s.blocker? setup node.id = none
  named : t.node = node.id
  kind : t.kind = node.kind
  config : t.config = node.config
  inputs : t.inputs = s.inputsOf setup node.id
  phase : t.phase.Heeds (s.replies conduct setup node) (setup.budget node.kind) s.cancelled
    t.attempts

/-- What a record that was not lost says. -/
inductive Explained (conduct : Conduct) (setup : Setup) (s : RunState) (node : Node)
    (r : NodeRun) : Prop
  /-- It is what the last attempt brings. -/
  | tried (n : Nat) (hgrounded : s.Grounded setup node.id)
      (hfree : node.kind.tolerant = true ∨ s.blocker? setup node.id = none)
      (hlasts : Lasts (s.replies conduct setup node) (setup.budget node.kind) n)
      (hfate : r.fate = .ofLast (s.replies conduct setup node n) n)
  /-- It is what a predecessor brings. -/
  | blocked (predecessor : NodeId) (status : NodeStatus) (hgrounded : s.Grounded setup node.id)
      (hkind : node.kind.tolerant = false)
      (hblocker : s.blocker? setup node.id = some (predecessor, status))
      (hfate : r.fate = .blocked predecessor status)

/-- What is known of tasks and records. The nodes of the stages that are over
    have ended, and none of them by cancelling. -/
structure Faithful (conduct : Conduct) (setup : Setup) (s : RunState) : Prop where
  past : ∀ id i, setup.graph.Depth id i → i + 1 < s.stage → ∃ r, s.record? id = some r ∧ r.Kept
  working : ∀ node t, setup.graph.node? node.id = some node → s.task? node.id = some t →
    s.Works conduct setup node t
  ended : ∀ node r, setup.graph.node? node.id = some node → s.record? node.id = some r →
    r.Kept → s.Explained conduct setup node r

variable {conduct : Conduct} {setup : Setup} {s s' : RunState} {node : Node}

theorem replies_eq {setup' : Setup} (hidentity : setup'.identity = setup.identity)
    (hinput : setup'.input = setup.input)
    (hinputs : s'.inputsOf setup' node.id = s.inputsOf setup node.id) :
    s'.replies conduct setup' node = s.replies conduct setup node := by
  funext n
  rw [replies, replies, asked, asked, hidentity, hinput, hinputs]

theorem Works.mono {t : Task} (h : s.Works conduct setup node t) (hext : s.Extends s') :
    s'.Works conduct setup node t := by
  rcases h.grounded.sources_eq hext with ⟨hblocker, hinputs⟩
  refine ⟨h.grounded.mono hext, ?_, h.named, h.kind, h.config, ?_, ?_⟩
  · rw [hblocker]
    exact h.free
  · rw [hinputs]
    exact h.inputs
  · rw [replies_eq rfl rfl hinputs]
    exact h.phase.mono hext.cancelled

theorem Explained.mono {r : NodeRun} (h : s.Explained conduct setup node r)
    (hext : s.Extends s') : s'.Explained conduct setup node r := by
  cases h with
  | tried n hgrounded hfree hlasts hfate =>
      rcases hgrounded.sources_eq hext with ⟨hblocker, hinputs⟩
      rw [← hblocker] at hfree
      have hsame : s'.replies conduct setup node = s.replies conduct setup node :=
        replies_eq rfl rfl hinputs
      rw [← hsame] at hlasts hfate
      exact .tried n (hgrounded.mono hext) hfree hlasts hfate
  | blocked predecessor status hgrounded hkind hblocker hfate =>
      rw [← (hgrounded.sources_eq hext).1] at hblocker
      exact .blocked predecessor status (hgrounded.mono hext) hkind hblocker hfate

/-- Only the node that is touched has to be looked at. -/
theorem Faithful.touch (h : s.Faithful conduct setup) (hext : s.Extends s')
    (hstage : s'.stage = s.stage) (id : NodeId)
    (hothers : ∀ other, other ≠ id →
      s'.record? other = s.record? other ∧ s'.task? other = s.task? other)
    (hworking : ∀ node t, setup.graph.node? node.id = some node → node.id = id →
      s'.task? id = some t → s'.Works conduct setup node t)
    (hended : ∀ node r, setup.graph.node? node.id = some node → node.id = id →
      s'.record? id = some r → r.Kept → s'.Explained conduct setup node r) :
    s'.Faithful conduct setup where
  past := by
    -- The stage is the same, and what was kept is still there.
    intro other i hdepth hlt
    rw [hstage] at hlt
    rcases h.past other i hdepth hlt with ⟨r, hr, hkept⟩
    exact ⟨r, hext.record other r hr hkept.1, hkept⟩
  working := by
    intro node t hnode htask
    -- Only one node has changed.
    by_cases hid : node.id = id
    · rw [hid] at htask
      exact hworking node t hnode hid htask
    · rw [(hothers node.id hid).2] at htask
      exact (h.working node t hnode htask).mono hext
  ended := by
    intro node r hnode hr hkept
    by_cases hid : node.id = id
    · rw [hid] at hr
      exact hended node r hnode hid hr hkept
    · rw [(hothers node.id hid).1] at hr
      exact (h.ended node r hnode hr hkept).mono hext

/-- A step that touches no node keeps a run faithful. -/
theorem Faithful.of_same (h : s.Faithful conduct setup) (hrecords : s'.records = s.records)
    (htasks : s'.tasks = s.tasks) (hstage : s'.stage = s.stage)
    (hcancelled : s.cancelled = true → s'.cancelled = true) : s'.Faithful conduct setup := by
  have hrecord : ∀ id, s'.record? id = s.record? id := fun id => by
    rw [record?, record?, hrecords]
  have htask : ∀ id, s'.task? id = s.task? id := fun id => by rw [task?, task?, htasks]
  have hext : s.Extends s' := ⟨fun id r hr _ => (hrecord id).trans hr, hcancelled⟩
  refine ⟨fun id i hdepth hlt => ?_, fun node t hnode ht => ?_, fun node r hnode hr hkept => ?_⟩
  · rw [hstage] at hlt
    rcases h.past id i hdepth hlt with ⟨r, hr, hkept⟩
    exact ⟨r, (hrecord id).trans hr, hkept⟩
  · rw [htask] at ht
    exact (h.working node t hnode ht).mono hext
  · rw [hrecord] at hr
    exact (h.ended node r hnode hr hkept).mono hext

/-- A node that is launched stands on what its predecessors put out. -/
theorem Faithful.grounded_of_entering (h : s.Faithful conduct setup) (hsound : s.Sound setup)
    (id : NodeId) (hentering : id ∈ s.entering) : s.Grounded setup id := by
  intro p hp
  rcases hsound.current id (Or.inl hentering) with ⟨i, hi, hdepth⟩
  have hdep := (setup.graph.mem_predecessorsOf setup.plan hsound.planned id p).mp hp
  rcases setup.graph.exists_depth_of_plan setup.plan hsound.planned p hdep.left with ⟨j, hdepthj⟩
  have hlt := setup.graph.depth_lt_of_depends p id j i hdep hdepthj hdepth
  exact h.past p j hdepthj (by omega)

theorem not_kept_launched (node : Node) : ¬ (NodeRun.ofNode node).launched.Kept :=
  fun h => Bool.false_ne_true h.1

theorem Faithful.block (h : s.Faithful conduct setup) (hsound : s.Sound setup)
    (hopen : s.status = none) (node : Node) (rest : List NodeId) (predecessor : NodeId)
    (status : NodeStatus) (hentering : s.entering = node.id :: rest)
    (hnode : setup.graph.node? node.id = some node) (hkind : node.kind.tolerant = false)
    (hblocker : s.blocker? setup node.id = some (predecessor, status)) :
    Faithful conduct setup
      (((s.leave rest).amend node.id (s.blockedRun setup predecessor status)).emit
        (.nodeSkipped node.id (blockedReason predecessor status))) := by
  rcases hsound.upcoming_of_entering node rest hentering hopen hnode with ⟨hrecord, htask, -, -⟩
  have hrecords := (s.leave rest).record?_amend node.id
  have hext := (Move.block node.id rest node predecessor status hentering hnode hkind
    hblocker).extend hsound hopen
  refine h.touch hext rfl node.id (fun other hother => ⟨(hrecords other _).trans (if_neg hother),
    rfl⟩) ?_ ?_
  -- A node that is skipped has no task.
  · intro other t _ _ ht
    exact absurd (htask.symm.trans ht).symm (Option.some_ne_none t)
  -- Its record is new, and tells who is to blame.
  · intro other r hother hid hr _
    have heq : other = node := by
      rw [hid, hnode] at hother
      exact (Option.some.inj hother).symm
    have hnew := record?_amend_self (s.leave rest) node.id
      (s.blockedRun setup predecessor status) _ hrecord
    have hr' : s.blockedRun setup predecessor status (.ofNode node) = r :=
      Option.some.inj (hnew.symm.trans hr)
    have hgrounded := h.grounded_of_entering hsound node.id (by
      rw [hentering]
      exact List.mem_cons_self)
    have hexplained : s.Explained conduct setup node r :=
      .blocked predecessor status hgrounded hkind hblocker (by rw [← hr']; rfl)
    rw [heq]
    exact hexplained.mono hext

theorem Faithful.launch (h : s.Faithful conduct setup) (hsound : s.Sound setup)
    (hopen : s.status = none) (node : Node) (rest : List NodeId)
    (hentering : s.entering = node.id :: rest)
    (hnode : setup.graph.node? node.id = some node)
    (hfree : node.kind.tolerant = true ∨ s.blocker? setup node.id = none) :
    Faithful conduct setup ((s.leave rest).enlist node.id (s.newTask setup node node.id)) := by
  rcases hsound.upcoming_of_entering node rest hentering hopen hnode with ⟨hrecord, htask, -, -⟩
  have hrecords := (s.leave rest).record?_amend node.id
  have htasks := fun other =>
    task?_enlist (s.leave rest) node.id other (s.newTask setup node node.id) rfl htask
  have hext := (Move.launch node.id rest node hentering hnode hfree).extend hsound hopen
  refine h.touch hext rfl node.id (fun other hother => ⟨(hrecords other _).trans (if_neg hother),
    (htasks other).trans (if_neg hother)⟩) ?_ ?_
  · intro other t hother hid ht
    have heq : other = node := by
      rw [hid, hnode] at hother
      exact (Option.some.inj hother).symm
    rw [htasks, if_pos rfl, Option.some.injEq] at ht
    have hgrounded := h.grounded_of_entering hsound node.id (by
      rw [hentering]
      exact List.mem_cons_self)
    -- Nothing was attempted yet, so nothing is asked of the handler.
    have hworks : s.Works conduct setup node t := by
      rw [← ht]
      exact ⟨hgrounded, hfree, rfl, rfl, rfl, rfl, rfl⟩
    rw [heq]
    exact hworks.mono hext
  · intro other r _ _ hr hkept
    have hnew := record?_amend_self (s.leave rest) node.id NodeRun.launched _ hrecord
    have hr' : (NodeRun.ofNode node).launched = r := Option.some.inj (hnew.symm.trans hr)
    rw [← hr'] at hkept
    exact absurd hkept (not_kept_launched node)

/-- What a handler answers in a step that it heeds is what it says to the call
    of its task. -/
theorem Works.hears {t next : Task} {events : List Happening} {choice : Choice}
    (h : s.Works conduct setup node t) (hstep : s.step setup choice = some s')
    (hheeds : s.heeds conduct setup choice = true) (htask : s.task? t.node = some t)
    (hgoes : t.Goes setup s next events) (hnext : s'.task? t.node = some next)
    (hphase : t.phase = .attempting) :
    (∃ outcome, s.replies conduct setup node t.attempts = some outcome ∧
      t.Hears setup s outcome next) ∨
    s.replies conduct setup node t.attempts = none ∧ next = t.enter .brokenDown := by
  have hasked : conduct t.kind (t.question setup) = s.replies conduct setup node t.attempts := by
    rw [replies, asked, ← h.kind, ← h.config, ← h.inputs, ← h.named]
    rfl
  rcases task?_of_step setup s s' choice hstep t.node t htask hphase with
    hsame | ⟨outcome, heard, hchoice, hhears, htask'⟩ | ⟨hchoice, htask'⟩
  -- The task has gone on, so it is not the one it was.
  · rw [hnext, Option.some.injEq] at hsame
    exact absurd (hsame ▸ hphase) (hgoes.phase_ne hphase)
  · rw [hnext, Option.some.injEq] at htask'
    rw [hchoice, heeds, htask, Option.all_some, decide_eq_true_eq, hasked] at hheeds
    exact Or.inl ⟨outcome, hheeds, htask' ▸ hhears⟩
  · rw [hnext, Option.some.injEq] at htask'
    rw [hchoice, heeds, htask, Option.all_some, decide_eq_true_eq, hasked] at hheeds
    exact Or.inr ⟨hheeds, htask'⟩

theorem Faithful.go (h : s.Faithful conduct setup) (choice : Choice) (t next : Task)
    (events : List Happening) (htask : s.task? t.node = some t)
    (hgoes : t.Goes setup s next events)
    (hstep : s.step setup choice = some (s.proceed next events))
    (hheeds : s.heeds conduct setup choice = true) :
    (s.proceed next events).Faithful conduct setup := by
  rcases hgoes.keeps with ⟨hnode, hkind, hconfig, hinputs⟩
  have hext : s.Extends (s.proceed next events) := ⟨fun _ _ hr _ => hr, fun hc => hc⟩
  have hput := s.task?_proceed next events
  rw [hnode] at hput
  have hnext : (s.proceed next events).task? t.node = some next := by
    rw [hput, if_pos rfl, htask, Option.map_some]
  refine h.touch hext rfl t.node (fun other hother => ⟨rfl, (hput other).trans (if_neg hother)⟩)
    ?_ ?_
  -- The task goes on as its handler would have it.
  · intro node found hfound hid hnow
    rw [hnext, Option.some.injEq] at hnow
    rw [← hnow]
    have hworks := h.working node t hfound (by rw [hid]; exact htask)
    have hphase := hworks.phase
    rw [← hworks.kind] at hphase
    have hgone := hgoes.heeds hphase
      (hworks.hears hstep hheeds htask hgoes hnext)
    rw [hworks.kind] at hgone
    have hworks' : s.Works conduct setup node next :=
      ⟨hworks.grounded, hworks.free, hnode.trans hworks.named, hkind.trans hworks.kind,
        hconfig.trans hworks.config, hinputs.trans hworks.inputs, hgone⟩
    exact hworks'.mono hext
  · intro node r hfound hid hr hkept
    rw [← hid] at hr
    exact (h.ended node r hfound hr hkept).mono hext

/-- What is noted at the end of a task is lost, or is what its last attempt
    brings. -/
theorem Works.explained {t : Task} {change : NodeRun → NodeRun} {events : List Happening}
    {lost : Bool} (h : s.Works conduct setup node t) (hends : t.Ends setup s change events lost)
    (hkept : (change (NodeRun.ofNode node).launched).Kept) :
    s.Explained conduct setup node (change (NodeRun.ofNode node).launched) := by
  have hphase := h.phase
  cases hends with
  | settled atMs result hnow hcalm =>
      rw [hnow] at hphase
      rcases hphase with hcancelled | ⟨hlasts, outcome, hreply, hresult⟩
      -- Nothing was cancelled, so the answer is what the last attempt brought.
      · exact absurd (hcancelled.symm.trans hcalm) Bool.true_eq_false.mp
      · refine .tried t.attempts h.grounded h.free hlasts ?_
        rw [hreply, hresult]
        cases outcome <;> rfl
  | missed hnow hcalm =>
      rw [hnow] at hphase
      -- The last attempt brought nothing.
      refine .tried t.attempts h.grounded h.free hphase.1 ?_
      rw [hphase.2]
      rfl
  | discarded atMs result hnow hcancelled => exact absurd ⟨_, rfl, rfl⟩ hkept.2
  | dropped hnow hcancelled => exact absurd ⟨_, rfl, rfl⟩ hkept.2

theorem Faithful.close (h : s.Faithful conduct setup) (hsound : s.Sound setup)
    (hopen : s.status = none) (t : Task) (change : NodeRun → NodeRun) (events : List Happening)
    (lost : Bool) (htask : s.task? t.node = some t) (hentering : s.entering = [])
    (hends : t.Ends setup s change events lost) :
    (s.retire t.node change events lost).Faithful conduct setup := by
  -- The task is gone and its record is closed. Nothing else has changed.
  have hdrop : ∀ id, (s.retire t.node change events lost).task? id =
      if id = t.node then none else s.task? id := s.task?_drop t.node
  have hrecords : ∀ id, (s.retire t.node change events lost).record? id =
      if id = t.node then (s.record? id).map change else s.record? id :=
    fun id => (s.drop t.node).record?_amend t.node id change
  rcases hsound.exists_node_of_task? t htask with ⟨node, hid, hnode⟩
  have hrecord := (hsound.working_of_task? t htask node hnode hid).1
  have hext := (Move.close t change events lost htask hentering hends).extend hsound hopen
  refine h.touch hext rfl t.node (fun other hother => ⟨(hrecords other).trans (if_neg hother),
    (hdrop other).trans (if_neg hother)⟩) ?_ ?_
  · intro other found _ _ hfound
    rw [hdrop, if_pos rfl] at hfound
    exact absurd hfound.symm (Option.some_ne_none found)
  -- The record is what the attempts of the task come to.
  · intro other r hother hsame hr hkept
    have heq : other = node := by
      rw [hsame, ← hid, hnode] at hother
      exact (Option.some.inj hother).symm
    rw [hrecords, if_pos rfl, hrecord, Option.map_some, Option.some.injEq] at hr
    rw [← hr] at hkept ⊢
    have hworks := h.working node t hnode (by rw [hid]; exact htask)
    rw [heq]
    exact (hworks.explained hends hkept).mono hext

/-- The stages before the one that is entered are over. -/
theorem Faithful.enter (h : s.Faithful conduct setup) (hsound : s.Sound setup)
    (hopen : s.status = none) (stage : List NodeId) (ahead : List (List NodeId))
    (hentering : s.entering = []) (htasks : s.tasks = []) (hahead : s.ahead = stage :: ahead)
    (hcalm : s.cancelled = false) :
    Faithful conduct setup
      ({ s with stage := s.stage + 1, ahead := ahead, entering := stage }.emit
        (.stageStarted s.stage stage)) where
  past := by
    intro id i hdepth hlt
    -- When a stage is entered, all nodes of the stages before have their records.
    have hentered := hsound.enter hopen stage ahead hentering htasks hahead
    rcases hentered.ended_of_depth_lt id i hdepth hlt with ⟨r, hr, hterminal⟩
    exact ⟨r, hr, hsound.kept_of_isTerminal hcalm id r hr hterminal⟩
  working := by
    intro node t _ htask
    exact absurd ((s.task?_eq_none_of_nil node.id htasks).symm.trans htask).symm
      (Option.some_ne_none t)
  ended := by
    intro node r hnode hr hkept
    exact (h.ended node r hnode hr hkept).mono ⟨fun _ _ hr _ => hr, fun hc => hc⟩

/-- What the end of a run adds to its records is lost. -/
theorem Faithful.finish (h : s.Faithful conduct setup) (hdrained : s.Drained setup) :
    (s.finish setup).Faithful conduct setup where
  past := by
    intro id i hdepth hlt
    have hstage : (s.finish setup).stage = s.stage := by
      rw [finish_eq]
      rfl
    rw [hstage] at hlt
    rcases h.past id i hdepth hlt with ⟨r, hr, hkept⟩
    exact ⟨r, hdrained.extend.record id r hr hkept.1, hkept⟩
  working := by
    intro node t _ htask
    have hnil : (s.finish setup).tasks = [] := by
      rw [finish_eq]
      exact hdrained.tasks
    rw [task?_eq_none_of_nil _ node.id hnil] at htask
    exact absurd htask.symm (Option.some_ne_none t)
  ended := by
    intro node r hnode hr hkept
    rw [record?_finish] at hr
    rcases Option.map_eq_some_iff.mp hr with ⟨before, hbefore, heq⟩
    -- A node that was not touched is skipped, and such a record is not kept.
    by_cases huntouched : node.id ∈ s.untouched
    · rw [if_pos huntouched] at heq
      rw [← heq] at hkept
      exact absurd ⟨untouchedError, rfl, rfl⟩ hkept.2
    · rw [if_neg huntouched] at heq
      rw [heq] at hbefore
      exact (h.ended node r hnode hbefore hkept).mono hdrained.extend

/-- What is done in a run keeps it faithful. -/
theorem Move.faithful (hmove : s.Move setup s') (h : s.Faithful conduct setup)
    (hsound : s.Sound setup) (choice : Choice) (hstep : s.step setup choice = some s')
    (hheeds : s.heeds conduct setup choice = true) : s'.Faithful conduct setup := by
  have hopen := (does_of_step setup s s' choice hstep).1
  cases hmove with
  | pass id rest hentering hnone => exact h.of_same rfl rfl rfl fun hcancelled => hcancelled
  | block id rest node predecessor status hentering hnode hkind hblocker =>
      have hid := (setup.graph.mem_of_node? id node hnode).2
      rw [← hid] at hentering hnode hblocker ⊢
      exact h.block hsound hopen node rest predecessor status hentering hnode hkind hblocker
  | launch id rest node hentering hnode hfree =>
      have hid := (setup.graph.mem_of_node? id node hnode).2
      rw [← hid] at hentering hnode hfree ⊢
      exact h.launch hsound hopen node rest hentering hnode hfree
  | go t next events htask hgoes =>
      exact h.go choice t next events htask hgoes hstep hheeds
  | close t change events lost htask hentering hends =>
      exact h.close hsound hopen t change events lost htask hentering hends
  | enter stage ahead hentering htasks hahead hcalm =>
      exact h.enter hsound hopen stage ahead hentering htasks hahead hcalm
  | finish hentering htasks hahead => exact h.finish (hsound.drained hentering htasks hahead)
  | abandon _ htasks _ hcancelled =>
      have hsame : Faithful conduct setup { s with interrupted := true } :=
        h.of_same rfl rfl rfl fun hc => hc
      exact hsame.finish (hsound.drained_of_cancelled hopen htasks hcancelled)

theorem start_faithful (conduct : Conduct) (setup : Setup)
    (hplan : setup.graph.plan = .ok setup.plan) : (start setup).Faithful conduct setup where
  past := by
    intro id i _ hlt
    exact absurd hlt (Nat.not_lt_zero (i + 1))
  working := by
    intro node t _ htask
    exact absurd htask.symm (Option.some_ne_none t)
  ended := by
    intro node r hnode hr hkept
    rw [start_record? setup hplan node hnode, Option.some.injEq] at hr
    rw [← hr] at hkept
    exact absurd hkept.1 Bool.false_ne_true

end RunState

/-- A run whose handlers go by their calls is faithful. -/
theorem Course.faithful {conduct : Conduct} {setup : Setup} (choices : List Choice) (s : RunState)
    (h : Course setup choices s)
    (hobeys : (RunState.start setup).obeys conduct setup choices = true) :
    s.Faithful conduct setup := by
  refine Course.induction (P := fun choices s =>
    (RunState.start setup).obeys conduct setup choices = true → s.Faithful conduct setup)
    (fun _ => RunState.start_faithful conduct setup h.planned) ?_ choices s h hobeys
  intro past choice u u' hcourse ih hstep hall
  -- The choices before the last one were obeyed as well.
  rcases RunState.obeys_concat conduct setup _ u past choice hcourse.followed hall with
    ⟨hbefore, hheeds⟩
  have hfaithful := ih hbefore
  rcases RunState.does_of_step setup u u' choice hstep with ⟨-, hdoes⟩
  cases hdoes with
  | tick ms => exact hfaithful.of_same rfl rfl rfl fun hcancelled => hcancelled
  | cancel => exact hfaithful.of_same rfl rfl rfl fun _ => rfl
  | work _ _ _ hmove => exact hmove.faithful hfaithful hcourse.sound choice hstep hheeds

end Workflow
