import Workflow.Proofs.Layers
import Workflow.Proofs.Stepping
import Workflow.Proofs.WellFormed

/-!
# Where a Node Stands

What is known of a node at any moment of a run, and what stays true of it.

A node is upcoming, worked on, or settled. What a run knows of it says which:
an upcoming node has a fresh record and no task, a node that is worked on has
a task, and a settled node has a record that says how it ended. There are four
ways to end, and each leaves its mark in the record: a node may succeed or
fail after attempts of its own, it may be blocked by a predecessor, and it may
be kept from its end when the run is cancelled. `Settled` and `Standing` say
all that.

None of it is ever taken back. A state that knows more (`Extends`) keeps what
was settled, and a node that a step does not touch (`Agrees`) stands where it
stood. Most steps touch one node, and `Touches` lists what has to be seen to
for such a step.

## Main definitions

* `Phase.Sound`: What is true of a task in a phase.
* `Fed`, `Blocked`: What became of the predecessors of a node.
* `Settled`: How a node ended.
* `Standing`: Where a node stands.
* `Extends`, `Agrees`: How one state is related to a later one.

## Theorems

* `Task.Goes.sound`: A task that goes on keeps what is true of it.
* `fed_of_blocker?_eq_none`, `blocked_of_blocker?_eq_some`: What is found when
  a node is launched.
* `Standing.mono`: A node that is not touched stands where it stood.
-/

namespace Workflow

/-- The causes that an attempt without output may have. -/
def Cause.ofAttempts : List Cause := [.transient, .permanent, .timeout, .handlerMissing]

theorem NodeError.cause_ofAttempt (e : AttemptError) :
    (NodeError.ofAttempt e).cause ∈ Cause.ofAttempts := by
  rw [Cause.ofAttempts]
  cases e with
  | missing kind | timedOut limitMs => simp only [ofAttempt, List.mem_cons, true_or, or_true]
  | failed f => cases f <;> simp only [ofAttempt, List.mem_cons, true_or, or_true]

/-- What is true of a task in a phase. No attempt was made while it was
    queued. Afterwards there was one, unless its only answer is that the run was
    cancelled, and the last attempt without output is kept as an error. -/
def Phase.Sound (cancelled : Bool) (attempts : Nat) : Phase → Prop
  | .queued => attempts = 0
  | .attempting => 0 < attempts
  | .resting _ error => 0 < attempts ∧ error.cause ∈ Cause.ofAttempts
  | .answered _ (.ok _) => 0 < attempts
  | .answered _ (.error error) =>
      0 < attempts ∧ error.cause ∈ Cause.ofAttempts ∨ cancelled = true
  | .brokenDown => 0 < attempts

/-- What is true of a task stays true when the run is cancelled. -/
theorem Phase.Sound.mono {before after : Bool} {attempts : Nat} {phase : Phase}
    (h : phase.Sound before attempts) (hcancelled : before = true → after = true) :
    phase.Sound after attempts := by
  cases phase with
  | answered atMs result =>
      cases result with
      | ok output => exact h
      | error error => exact h.imp_right hcancelled
  | queued | attempting | resting _ _ | brokenDown => exact h

namespace Task

variable {setup : Setup} {s : RunState} {t next : Task} {events : List Happening}

theorem Goes.node (h : t.Goes setup s next events) : next.node = t.node := by
  cases h <;> rfl

/-- A task that goes on keeps what is true of it. -/
theorem Goes.sound (h : t.Goes setup s next events)
    (hsound : t.phase.Sound s.cancelled t.attempts) :
    next.phase.Sound s.cancelled next.attempts := by
  cases h with
  -- An answer that no attempt gave is an answer of a cancelled run.
  | turnedAway hphase hworker hcancelled => exact Or.inr hcancelled
  | begins | wakes => exact Nat.succ_pos _
  | succeeds output hphase =>
      rw [hphase] at hsound
      exact hsound
  | rests e hphase =>
      rw [hphase] at hsound
      exact ⟨hsound, NodeError.cause_ofAttempt e⟩
  | fails e hphase =>
      rw [hphase] at hsound
      exact Or.inl ⟨hsound, NodeError.cause_ofAttempt e⟩
  | breaksDown hphase =>
      rw [hphase] at hsound
      exact hsound
  | cutShort untilMs error hphase hcancelled => exact Or.inr hcancelled

theorem Goes.attempts (h : t.Goes setup s next events) :
    next.attempts = t.attempts + events.countP (Happening.begins t.node) := by
  cases h with
  | begins | wakes =>
      simp only [attemptAgain, List.countP_singleton, Happening.begins, decide_true, if_true]
  | turnedAway | succeeds | fails | breaksDown | cutShort => rfl
  | rests =>
      simp only [enter, List.countP_singleton, Happening.begins, Bool.false_eq_true, if_false,
        Nat.add_zero]

theorem Goes.countP_begins (h : t.Goes setup s next events) (id : NodeId) (hid : id ≠ t.node) :
    events.countP (Happening.begins id) = 0 := by
  rw [List.countP_eq_zero]
  -- Only an attempt that begins is counted, and it is that of the task.
  cases h with
  | begins | wakes =>
      intro e he
      rw [List.mem_singleton.mp he, Happening.begins, decide_eq_true_eq]
      exact hid.symm
  | turnedAway | succeeds | fails | breaksDown | cutShort =>
      intro e he
      exact absurd he List.not_mem_nil
  | rests =>
      intro e he
      rw [List.mem_singleton.mp he]
      exact Bool.false_ne_true

theorem Ends.countP_begins {change : NodeRun → NodeRun} {lost : Bool}
    (h : t.Ends setup s change events lost) (id : NodeId) :
    events.countP (Happening.begins id) = 0 := by
  cases h <;> rfl

/-- Only cancelling takes a result away. -/
theorem Ends.cancelled_of_lost {change : NodeRun → NodeRun} {lost : Bool}
    (h : t.Ends setup s change events lost) (hlost : lost = true) : s.cancelled = true := by
  cases h with
  | settled | missed => exact absurd hlost Bool.false_ne_true
  | discarded _ _ _ hcancelled | dropped _ hcancelled => exact hcancelled

/-- The end of a task leaves alone whose record it is noted in. -/
theorem Ends.keeps_identity {change : NodeRun → NodeRun} {lost : Bool}
    (h : t.Ends setup s change events lost) (r : NodeRun) :
    (change r).node = r.node ∧ (change r).kind = r.kind := by
  cases h with
  | settled _ result => cases result <;> exact ⟨rfl, rfl⟩
  | discarded | missed | dropped => exact ⟨rfl, rfl⟩

end Task

/-- What is known of a node before it is launched. -/
def NodeRun.ofNode (node : Node) : NodeRun := { node := node.id, kind := node.kind }

namespace RunState

/-- All predecessors of a node succeeded. -/
def Fed (setup : Setup) (s : RunState) (id : NodeId) : Prop :=
  ∀ p ∈ setup.plan.predecessorsOf id, ∃ r, s.record? p = some r ∧ r.status = .succeeded

/-- The first predecessor of a node that did not succeed. -/
structure Blocked (setup : Setup) (s : RunState) (id predecessor : NodeId)
    (status : NodeStatus) : Prop where
  mem : predecessor ∈ setup.plan.predecessorsOf id
  ended : status = .failed ∨ status = .skipped
  known : ∃ r, s.record? predecessor = some r ∧ r.status = status
  first : ∀ p ∈ setup.plan.predecessorsOf id, p < predecessor →
    ∃ r, s.record? p = some r ∧ r.status = .succeeded

/-- How a node ended. -/
inductive Settled (setup : Setup) (s : RunState) (node : Node) (r : NodeRun) : Prop
  /-- It has an output. -/
  | succeeded (output : Json) (hstatus : r.status = .succeeded) (houtput : r.output = some output)
      (herror : r.error = none) (hattempts : r.attempts = s.starts node.id)
      (hstarts : 0 < s.starts node.id) (hfree : node.kind.tolerant = true ∨ s.Fed setup node.id)
  /-- It has none after its last attempt. The attempts of a node whose handler
      broke down are not noted. -/
  | failed (error : NodeError) (hstatus : r.status = .failed) (houtput : r.output = none)
      (herror : r.error = some error) (hcause : error.cause ∈ Cause.ofAttempts)
      (hattempts : r.attempts = s.starts node.id ∨
        r.attempts = 0 ∧ error = ⟨.permanent, "handler panicked"⟩)
      (hstarts : 0 < s.starts node.id) (hfree : node.kind.tolerant = true ∨ s.Fed setup node.id)
  /-- It was not launched because of a predecessor. -/
  | blocked (predecessor : NodeId) (status : NodeStatus) (hstatus : r.status = .skipped)
      (houtput : r.output = none)
      (herror : r.error = some ⟨.predecessor, blockedReason predecessor status⟩)
      (hattempts : r.attempts = 0) (hstarts : s.starts node.id = 0)
      (hkind : node.kind.tolerant = false)
      (hblocked : s.Blocked setup node.id predecessor status)
  /-- It was kept from its end. -/
  | cancelled (error : NodeError) (hstatus : r.status = .skipped) (houtput : r.output = none)
      (herror : r.error = some error) (hcause : error.cause = .cancelled)
      (hcancelled : s.cancelled = true)

/-- Where a node stands. -/
inductive Standing (setup : Setup) (s : RunState) (node : Node) : Prop
  /-- It is still to be launched. -/
  | upcoming (hopen : s.status = none) (hrecord : s.record? node.id = some (.ofNode node))
      (htask : s.task? node.id = none) (hahead : node.id ∈ s.upcoming)
      (hstarts : s.starts node.id = 0)
  /-- It is worked on. -/
  | working (t : Task) (hopen : s.status = none)
      (hrecord : s.record? node.id = some (NodeRun.ofNode node).launched)
      (htask : s.task? node.id = some t) (hahead : node.id ∉ s.upcoming)
      (hphase : t.phase.Sound s.cancelled t.attempts) (hstarts : s.starts node.id = t.attempts)
      (hfree : node.kind.tolerant = true ∨ s.Fed setup node.id)
  /-- It has ended. -/
  | settled (r : NodeRun) (hrecord : s.record? node.id = some r) (hnode : r.node = node.id)
      (hkind : r.kind = node.kind) (htask : s.task? node.id = none)
      (hahead : s.status = none → node.id ∉ s.upcoming) (hsettled : s.Settled setup node r)

/-- A later state knows what an earlier one knew. -/
structure Extends (s s' : RunState) : Prop where
  record : ∀ id r, s.record? id = some r → r.status.isTerminal = true → s'.record? id = some r
  cancelled : s.cancelled = true → s'.cancelled = true

/-- Two states say the same of a node. -/
structure Agrees (s s' : RunState) (id : NodeId) : Prop where
  record : s'.record? id = s.record? id
  task : s'.task? id = s.task? id
  starts : s'.starts id = s.starts id
  upcoming : id ∈ s'.upcoming ↔ id ∈ s.upcoming

variable {setup : Setup} {s s' : RunState} {node : Node}

theorem Settled.isTerminal {r : NodeRun} (h : s.Settled setup node r) :
    r.status.isTerminal = true := by
  cases h with
  | succeeded _ hstatus | failed _ hstatus | blocked _ _ hstatus | cancelled _ hstatus =>
      rw [hstatus]
      rfl

theorem Extends.status (hext : s.Extends s') (id : NodeId) (status : NodeStatus)
    (hterminal : status.isTerminal = true)
    (h : ∃ r, s.record? id = some r ∧ r.status = status) :
    ∃ r, s'.record? id = some r ∧ r.status = status := by
  rcases h with ⟨r, hr, hstatus⟩
  exact ⟨r, hext.record id r hr (hstatus ▸ hterminal), hstatus⟩

theorem Fed.mono {id : NodeId} (h : s.Fed setup id) (hext : s.Extends s') : s'.Fed setup id :=
  fun p hp => hext.status p _ rfl (h p hp)

theorem Blocked.mono {id predecessor : NodeId} {status : NodeStatus}
    (h : s.Blocked setup id predecessor status) (hext : s.Extends s') :
    s'.Blocked setup id predecessor status where
  mem := h.mem
  ended := h.ended
  known := by
    -- The predecessor has ended, so its record is there to stay.
    have hterminal : status.isTerminal = true := by
      rcases h.ended with heq | heq <;> rw [heq] <;> rfl
    exact hext.status predecessor status hterminal h.known
  first := fun p hp hlt => hext.status p _ rfl (h.first p hp hlt)

theorem Settled.mono {r : NodeRun} (h : s.Settled setup node r) (hext : s.Extends s')
    (hsame : s'.starts node.id = s.starts node.id) : s'.Settled setup node r := by
  cases h with
  | succeeded output hstatus houtput herror hattempts hstarts hfree =>
      rw [← hsame] at hattempts hstarts
      exact .succeeded output hstatus houtput herror hattempts hstarts
        (hfree.imp_right fun hfed => hfed.mono hext)
  | failed error hstatus houtput herror hcause hattempts hstarts hfree =>
      rw [← hsame] at hattempts hstarts
      exact .failed error hstatus houtput herror hcause hattempts hstarts
        (hfree.imp_right fun hfed => hfed.mono hext)
  | blocked predecessor status hstatus houtput herror hattempts hstarts hkind hblocked =>
      rw [← hsame] at hstarts
      exact .blocked predecessor status hstatus houtput herror hattempts hstarts hkind
        (hblocked.mono hext)
  | cancelled error hstatus houtput herror hcause hcancelled =>
      exact .cancelled error hstatus houtput herror hcause (hext.cancelled hcancelled)

/-- A node that is not touched stands where it stood. -/
theorem Standing.mono (h : s.Standing setup node) (hext : s.Extends s')
    (hagrees : s.Agrees s' node.id) (hstatus : s'.status = s.status) :
    s'.Standing setup node := by
  cases h with
  | upcoming hopen hrecord htask hahead hstarts =>
      exact .upcoming (hstatus.trans hopen) (hagrees.record.trans hrecord)
        (hagrees.task.trans htask) (hagrees.upcoming.mpr hahead) (hagrees.starts.trans hstarts)
  | working t hopen hrecord htask hahead hphase hstarts hfree =>
      exact .working t (hstatus.trans hopen) (hagrees.record.trans hrecord)
        (hagrees.task.trans htask) (fun h => hahead (hagrees.upcoming.mp h))
        (hphase.mono hext.cancelled) (hagrees.starts.trans hstarts)
        (hfree.imp_right fun hfed => hfed.mono hext)
  | settled r hrecord hnode hkind htask hahead hsettled =>
      exact .settled r (hagrees.record.trans hrecord) hnode hkind (hagrees.task.trans htask)
        (fun hopen h => hahead (hstatus.symm.trans hopen) (hagrees.upcoming.mp h))
        (hsettled.mono hext hagrees.starts)

/-- What a predecessor has to say against launching a node. -/
def objection? (s : RunState) (p : NodeId) : Option (NodeId × NodeStatus) :=
  match s.record? p with
  | some r => if r.status = .failed || r.status = .skipped then some (p, r.status) else none
  | none => none

theorem blocker?_eq (setup : Setup) (s : RunState) (id : NodeId) :
    s.blocker? setup id = (setup.plan.predecessorsOf id).findSome? s.objection? := rfl

/-- A predecessor that has ended and does not object has succeeded. -/
theorem succeeded_of_objection?_eq_none (p : NodeId)
    (hended : ∃ r, s.record? p = some r ∧ r.status.isTerminal = true)
    (h : s.objection? p = none) : ∃ r, s.record? p = some r ∧ r.status = .succeeded := by
  rcases hended with ⟨r, hr, hterminal⟩
  refine ⟨r, hr, ?_⟩
  rw [objection?, hr] at h
  -- Of the five statuses two object, and two are not ends.
  cases hstatus : r.status with
  | succeeded => rfl
  | pending | running =>
      rw [hstatus] at hterminal
      exact absurd hterminal Bool.false_ne_true
  | failed | skipped =>
      simp only [hstatus, decide_true, Bool.true_or, Bool.or_true, if_true, reduceCtorEq] at h

/-- A predecessor that objects has failed or was skipped. -/
theorem ended_of_objection?_eq_some (p predecessor : NodeId) (status : NodeStatus)
    (h : s.objection? p = some (predecessor, status)) :
    p = predecessor ∧ (status = .failed ∨ status = .skipped) ∧
      ∃ r, s.record? p = some r ∧ r.status = status := by
  rw [objection?] at h
  -- There is an objection only to a node with a record.
  cases hr : s.record? p with
  | none =>
      rw [hr] at h
      exact absurd h (by simp only [reduceCtorEq, not_false_eq_true])
  | some r =>
      rw [hr] at h
      simp only [Bool.or_eq_true, decide_eq_true_eq, Option.ite_none_right_eq_some,
        Option.some.injEq, Prod.mk.injEq] at h
      rcases h with ⟨hended, hp, hstatus⟩
      rw [hstatus] at hended
      exact ⟨hp, hended, r, rfl, hstatus⟩

/-- When all predecessors of a node have ended and none of them blocks it, all
    of them succeeded. -/
theorem fed_of_blocker?_eq_none (id : NodeId)
    (hended : ∀ p ∈ setup.plan.predecessorsOf id,
      ∃ r, s.record? p = some r ∧ r.status.isTerminal = true)
    (h : s.blocker? setup id = none) : s.Fed setup id := by
  rw [blocker?_eq, List.findSome?_eq_none_iff] at h
  exact fun p hp => succeeded_of_objection?_eq_none p (hended p hp) (h p hp)

/-- What blocks a node is the first of its predecessors that did not
    succeed. -/
theorem blocked_of_blocker?_eq_some (id predecessor : NodeId) (status : NodeStatus)
    (hended : ∀ p ∈ setup.plan.predecessorsOf id,
      ∃ r, s.record? p = some r ∧ r.status.isTerminal = true)
    (hascending : (setup.plan.predecessorsOf id).Pairwise (· < ·))
    (h : s.blocker? setup id = some (predecessor, status)) :
    s.Blocked setup id predecessor status := by
  rw [blocker?_eq, List.findSome?_eq_some_iff] at h
  rcases h with ⟨before, p, after, hlist, hobjection, hbefore⟩
  rcases ended_of_objection?_eq_some p predecessor status hobjection with ⟨hp, hstatus, hknown⟩
  rw [hp] at hlist hknown
  rw [hlist] at hended hascending
  refine ⟨?_, hstatus, hknown, ?_⟩
  · rw [hlist]
    exact List.mem_append_right before List.mem_cons_self
  · intro q hq hlt
    rw [hlist] at hq
    refine succeeded_of_objection?_eq_none q (hended q hq) (hbefore q ?_)
    -- The list ascends, so what is smaller stands before.
    rcases List.mem_append.mp hq with hq | hq
    · exact hq
    · rcases List.mem_cons.mp hq with heq | hq
      · exact absurd hlt (heq ▸ String.lt_irrefl q)
      · have hcons := (List.pairwise_append.mp hascending).2.1
        have hgt := (List.pairwise_cons.mp hcons).1 q hq
        exact absurd (String.lt_trans hlt hgt) (String.lt_irrefl q)

end RunState

end Workflow
