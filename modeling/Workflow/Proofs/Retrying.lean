import Mathlib.Order.Bounds.Defs
import Workflow.Proofs.Chronicle
import Workflow.Proofs.Conduct

/-!
# Trying Again

How often a node is tried, and what is known of it afterwards, from what its
attempts come to.

A node may be tried again as often as the least of what the policy, its kind and
its handler allow (`isLeast_budget`). The attempts are counted from one, and the
retries that are left are counted from zero, so the attempt after the last retry
bears the number of the budget and one. An attempt is the last one when it has
an output, when it failed in a way that does not pass, or when it bears that
number (`Stops`).

A run is told how the attempts of a node end by the choices that end them
(`outcomesOf`). All of them but the last one failed and were repeated, and each
of these was announced with its number, the rest after it and what its error
says (`Repeated`). That is an invariant of the task of the node, together with
the number of the attempts so far (`Phase.Tallies`, `Tally`): an answer either
adds one error to the list, or it is the last outcome, and then the record is
made from it.

Nothing else enters into it. Which worker a node has, what the others do and how
long anything takes make no difference. Cancelling does, and so does a handler
that breaks down, and both are left out here.

## Main definitions

* `outcomesOf`: How the attempts of a node ended.
* `retries`: What is announced of the attempts of a node that are repeated.
* `Stops`: An attempt is not followed by another one.
* `Repeated`: The attempts that were repeated.
* `Tally`: What is known of a node, from how its attempts ended.
* `PassedOver`, `TriedUntil`: What becomes of a node.

## Theorems

* `isLeast_budget`: How often a node may be tried again.
* `outcome?_eq_none`: What leaves an attempt as it is, is no end of it.
* `Goes.tallies`: A task that goes on counts its attempts.
* `Move.tally`, `Course.tally`: The tally is kept.
* `Course.attempts_decided`: What the outcomes of its attempts make of a node.
-/

namespace Workflow

/-- How an attempt of a node ends, if that is what is chosen. -/
def Choice.outcome? (id : NodeId) : Choice → Option (Except AttemptError Json)
  | .answer node outcome => if node = id then some outcome else none
  | _ => none

/-- How the attempts of a node ended, in the order in which they did. -/
def outcomesOf (id : NodeId) (choices : List Choice) : List (Except AttemptError Json) :=
  choices.filterMap (Choice.outcome? id)

/-- Whether it is announced that an attempt of a node will be repeated. -/
def Happening.repeats (id : NodeId) : Happening → Bool
  | .nodeRetrying node _ _ _ => node = id
  | _ => false

/-- What is announced when an attempt of a node will be repeated. Those before it
    are counted. -/
def Setup.retrying (setup : Setup) (id : NodeId) (before : Nat) (e : AttemptError) : Happening :=
  .nodeRetrying id (before + 1) (setup.restMs id before) e.message

/-- What is announced when a task enters a phase: that its attempt will be
    repeated, if it rests. -/
def Task.notice (setup : Setup) (t : Task) : Phase → List Happening
  | .resting _ error =>
      [.nodeRetrying t.node t.attempts (setup.restMs t.node (t.attempts - 1)) error.message]
  | _ => []

/-- The attempt with this number is not followed by another one. -/
inductive Stops (budget n : Nat) : Except AttemptError Json → Prop
  /-- It has an output. -/
  | output (output : Json) : Stops budget n (.ok output)
  /-- It failed in a way that does not pass. -/
  | lasting (e : AttemptError) (htransient : (NodeError.ofAttempt e).cause ≠ .transient)
      (htimeout : (NodeError.ofAttempt e).cause ≠ .timeout) : Stops budget n (.error e)
  /-- It comes after the last retry. -/
  | spent (outcome : Except AttemptError Json) (hspent : n = budget + 1) : Stops budget n outcome

/-- The attempts of a node that were repeated: each of them failed in a way that
    may pass while retries were left, and that is what was announced. -/
structure Repeated (setup : Setup) (node : Node) (errors : List AttemptError)
    (announced : List Happening) : Prop where
  again : ∀ i e, errors[i]? = some e →
    Again (setup.budget node.kind) (i + 1) (some (.error e))
  told : announced = errors.mapIdx (setup.retrying node.id)

/-- What is true of a task in a phase, from the errors of the attempts that were
    repeated and from how all of them ended. -/
def Phase.Tallies (budget : Nat) (errors : List AttemptError)
    (outcomes : List (Except AttemptError Json)) (attempts : Nat) : Phase → Prop
  | .queued => attempts = 0 ∧ errors = [] ∧ outcomes = []
  | .attempting => attempts = errors.length + 1 ∧ outcomes = errors.map .error
  | .resting _ _ => attempts = errors.length ∧ outcomes = errors.map .error
  | .answered _ result => ∃ last, attempts = errors.length + 1 ∧
      outcomes = errors.map .error ++ [last] ∧ ¬ Again budget attempts (some last) ∧
        result = last.mapError NodeError.ofAttempt
  | .brokenDown => False

namespace RunState

/-- What is announced of the attempts of a node that are repeated. -/
def retries (s : RunState) (id : NodeId) : List Happening := s.events.filter (Happening.repeats id)

/-- What is known of a node, from how its attempts ended. -/
inductive Tally (setup : Setup) (s : RunState) (node : Node)
    (outcomes : List (Except AttemptError Json)) : Prop
  /-- There was no attempt, and none is being prepared. -/
  | untried (r : NodeRun) (hrecord : s.record? node.id = some r)
      (hfresh : r = .ofNode node ∨ r.status = .skipped) (htask : s.task? node.id = none)
      (houtcomes : outcomes = []) (hretries : s.retries node.id = [])
  /-- It is worked on. -/
  | working (t : Task) (errors : List AttemptError) (htask : s.task? node.id = some t)
      (hkind : t.kind = node.kind) (hrepeated : Repeated setup node errors (s.retries node.id))
      (hphase : t.phase.Tallies (setup.budget node.kind) errors outcomes t.attempts)
  /-- The last attempt was made, and the record says what it came to. -/
  | tried (r : NodeRun) (errors : List AttemptError) (last : Except AttemptError Json)
      (hrecord : s.record? node.id = some r) (htask : s.task? node.id = none)
      (hrepeated : Repeated setup node errors (s.retries node.id))
      (houtcomes : outcomes = errors.map .error ++ [last])
      (hlast : ¬ Again (setup.budget node.kind) (errors.length + 1) (some last))
      (hfate : r.fate = .ofLast (some last) (errors.length + 1))

end RunState

/-- A node was not tried because of the nodes before it. -/
structure PassedOver (setup : Setup) (choices : List Choice) (s : RunState) (node : Node) :
    Prop where
  blocked : ∃ predecessor status, s.Blocked setup node.id predecessor status
  bound : node.kind.tolerant = false
  skipped : ∃ run, (s.result setup).node? node.id = some run ∧ run.status = .skipped
  begun : s.starts node.id = 0
  ended : outcomesOf node.id choices = []
  announced : s.retries node.id = []

/-- A node was tried so many times, where its attempts would come to these
    outcomes. The last attempt is the first one that stops, and the record says
    what it came to. All before it failed, and it was announced of each of them
    that it will be repeated. -/
structure TriedUntil (setup : Setup) (choices : List Choice) (s : RunState) (node : Node)
    (replies : Nat → Except AttemptError Json) (k : Nat) : Prop where
  least : IsLeast {i | 0 < i ∧ Stops (setup.budget node.kind) i (replies i)} k
  begun : s.starts node.id = k
  ended : outcomesOf node.id choices = (List.range' 1 k).map replies
  recorded : ∃ run, (s.result setup).node? node.id = some run ∧
    run.fate = .ofLast (some (replies k)) k
  announced : ∃ errors : List AttemptError, errors.length + 1 = k ∧
    (∀ i e, errors[i]? = some e → replies (i + 1) = .error e) ∧
      s.retries node.id = errors.mapIdx (setup.retrying node.id)

theorem isLeast_foldl_min (limits : List Nat) (m : Nat) :
    IsLeast {n | n = m ∨ n ∈ limits} (limits.foldl min m) := by
  induction limits generalizing m with
  | nil => exact ⟨Or.inl rfl, fun n hn => (hn.resolve_right List.not_mem_nil).ge⟩
  | cons limit rest ih =>
      rw [List.foldl_cons]
      -- What the first limit leaves is taken on to the others.
      rcases ih (min m limit) with ⟨hmem, hle⟩
      constructor
      · rcases hmem with heq | hrest
        · rcases Nat.le_total m limit with hm | hlimit
          · exact Or.inl (heq.trans (Nat.min_eq_left hm))
          · exact Or.inr (List.mem_cons.mpr (Or.inl (heq.trans (Nat.min_eq_right hlimit))))
        · exact Or.inr (List.mem_cons_of_mem limit hrest)
      · have hfirst := hle (Or.inl rfl)
        rintro n (heq | hn)
        · rw [heq]
          exact hfirst.trans (Nat.min_le_left m limit)
        · rcases List.mem_cons.mp hn with heq | hrest
          · rw [heq]
            exact hfirst.trans (Nat.min_le_right m limit)
          · exact hle (Or.inr hrest)

/-- How often a node may be tried again is the least of what is said about it by
    the policy, by its kind and by its handler. -/
theorem RetryPolicy.isLeast_budget (p : RetryPolicy) (kind : Kind) (handlerLimit : Option Nat) :
    IsLeast {n | n = p.maxRetries ∨ kind.capability.maxRetries = some n ∨ handlerLimit = some n}
      (p.budget kind handlerLimit) := by
  have hleast := isLeast_foldl_min ([kind.capability.maxRetries, handlerLimit].filterMap id)
    p.maxRetries
  simp only [List.mem_filterMap, List.mem_cons, List.not_mem_nil, or_false, id_eq,
    exists_eq_or_imp, exists_eq_left] at hleast
  exact hleast

theorem Cause.isRetryable_iff (cause : Cause) :
    cause.isRetryable = true ↔ cause = .transient ∨ cause = .timeout := by
  cases cause <;> decide

theorem Happening.node?_of_repeats {e : Happening} {id : NodeId} (h : e.repeats id = true) :
    e.node? = some id := by
  cases e with
  | nodeRetrying node => exact congrArg some (of_decide_eq_true h)
  | runStarted | stageStarted | nodeStarted | nodeFinished | nodeSkipped | runCompleted =>
      exact absurd h Bool.false_ne_true

theorem outcomesOf_concat (id : NodeId) (choices : List Choice) (choice : Choice) :
    outcomesOf id (choices ++ [choice]) = outcomesOf id choices ++ (choice.outcome? id).toList := by
  rw [outcomesOf, List.filterMap_append, outcomesOf]
  cases houtcome : choice.outcome? id with
  | none => rw [List.filterMap_cons_none houtcome, List.filterMap_nil, Option.toList_none]
  | some outcome =>
      rw [List.filterMap_cons_some houtcome, List.filterMap_nil, Option.toList_some]

/-- A list says what a sequence says that is counted from one. -/
theorem eq_map_range'_iff {α : Type} (f : Nat → α) (l : List α) :
    l = (List.range' 1 l.length).map f ↔ ∀ i a, l[i]? = some a → a = f (i + 1) := by
  -- The entry at each place is what the function gives for its number.
  have hentry : ∀ i (hi : i < ((List.range' 1 l.length).map f).length),
      ((List.range' 1 l.length).map f)[i] = f (i + 1) := by
    intro i _
    rw [List.getElem_map, List.getElem_range', Nat.one_mul, Nat.add_comm]
  have hlength : l.length = ((List.range' 1 l.length).map f).length := by
    rw [List.length_map, List.length_range']
  constructor
  · intro heq i a ha
    rcases List.getElem?_eq_some_iff.mp ha with ⟨hi, hget⟩
    have hi' : i < ((List.range' 1 l.length).map f).length := hlength ▸ hi
    rw [← hget, ← hentry i hi']
    exact List.getElem_of_eq heq hi
  · intro h
    refine List.ext_getElem hlength fun i hi hi' => ?_
    rw [hentry i hi']
    exact h i l[i] (List.getElem?_eq_getElem hi)

section Attempts

variable {budget n : Nat} {outcome : Except AttemptError Json}

/-- An attempt that is not followed by another one stops, unless it comes too
    late for that. -/
theorem stops_of_not_again (h : ¬ Again budget n (some outcome)) (hle : n ≤ budget + 1) :
    Stops budget n outcome := by
  cases outcome with
  | ok output => exact .output output
  | error e =>
      by_cases hspent : n = budget + 1
      · exact .spent _ hspent
      · have hnot : ¬ (NodeError.ofAttempt e).cause.isRetryable = true :=
          fun hretry => h ⟨hretry, by omega⟩
        rw [Cause.isRetryable_iff, not_or] at hnot
        exact .lasting e hnot.1 hnot.2

theorem not_stops_of_again (h : Again budget n (some outcome)) : ¬ Stops budget n outcome := by
  intro hstops
  cases hstops with
  | output => exact h
  | lasting e htransient htimeout =>
      rcases (Cause.isRetryable_iff _).mp h.1 with hcause | hcause
      · exact htransient hcause
      · exact htimeout hcause
  | spent _ hspent =>
      cases outcome with
      | ok output => exact h
      | error e =>
          have hle := h.2
          omega

end Attempts

namespace Repeated

variable {setup : Setup} {node : Node} {errors : List AttemptError} {announced : List Happening}

/-- No attempt was repeated yet. -/
theorem nothing (setup : Setup) (node : Node) : Repeated setup node [] [] := ⟨nofun, rfl⟩

/-- One more attempt is repeated. -/
theorem concat (h : Repeated setup node errors announced) (e : AttemptError)
    (hagain : Again (setup.budget node.kind) (errors.length + 1) (some (.error e))) :
    Repeated setup node (errors ++ [e]) (announced ++ [setup.retrying node.id errors.length e])
    where
  again := by
    intro i e' he'
    -- Every error but the last one was there before.
    rcases Nat.lt_or_ge i errors.length with hlt | hge
    · rw [List.getElem?_append_left hlt] at he'
      exact h.again i e' he'
    · rw [List.getElem?_append_right hge, List.getElem?_singleton] at he'
      split at he'
      · rename_i hzero
        have hi : i = errors.length := by omega
        rw [hi, ← Option.some.inj he']
        exact hagain
      · exact absurd he' nofun
  told := by rw [List.mapIdx_concat, h.told]

/-- Attempts are repeated only while retries are left. -/
theorem length_le (h : Repeated setup node errors announced) :
    errors.length ≤ setup.budget node.kind := by
  rcases List.eq_nil_or_concat errors with hnil | ⟨before, e, hconcat⟩
  · rw [hnil]
    exact Nat.zero_le _
  · have hlast := h.again before.length e (by
      rw [hconcat, List.concat_eq_append, List.getElem?_concat_length])
    rw [hconcat, List.length_concat]
    exact hlast.2

/-- The attempt after those that were repeated is the first one that stops. -/
theorem isLeast_stops (h : Repeated setup node errors announced)
    (replies : Nat → Except AttemptError Json)
    (hbefore : ∀ i e, errors[i]? = some e → replies (i + 1) = .error e)
    (hlast : ¬ Again (setup.budget node.kind) (errors.length + 1)
      (some (replies (errors.length + 1)))) :
    IsLeast {i | 0 < i ∧ Stops (setup.budget node.kind) i (replies i)} (errors.length + 1) := by
  constructor
  · exact ⟨Nat.succ_pos _, stops_of_not_again hlast (Nat.succ_le_succ h.length_le)⟩
  · rintro i ⟨hpos, hstops⟩
    by_contra hlt
    obtain ⟨j, rfl⟩ := Nat.exists_eq_succ_of_ne_zero (Nat.pos_iff_ne_zero.mp hpos)
    have hj : errors[j]? = some errors[j] := List.getElem?_eq_getElem (by omega)
    rw [hbefore j _ hj] at hstops
    exact not_stops_of_again (h.again j _ hj) hstops

end Repeated

namespace Task

variable {setup : Setup} {s : RunState} {t next : Task} {events : List Happening}

/-- A task that goes on announces that its attempt will be repeated when it
    rests, and nothing of that kind otherwise. -/
theorem Goes.filter_repeats (h : t.Goes setup s next events) :
    events.filter (Happening.repeats t.node) = t.notice setup next.phase := by
  cases h with
  | rests =>
      simp only [Happening.repeats, decide_true, List.filter_cons_of_pos, List.filter_nil, notice,
        enter]
  | turnedAway | begins | succeeds | fails | breaksDown | wakes | cutShort => rfl

/-- The attempt after so many others is announced to be repeated. -/
theorem notice_resting (setup : Setup) (t : Task) (before : Nat) (h : t.attempts = before + 1)
    (untilMs : Nat) (e : AttemptError) :
    t.notice setup (.resting untilMs (.ofAttempt e)) = [setup.retrying t.node before e] := by
  rw [notice, Setup.retrying, h, Nat.add_sub_cancel]
  rfl

/-- A task that goes on counts its attempts. -/
theorem Goes.tallies (h : t.Goes setup s next events) (hcalm : s.cancelled = false) (node : Node)
    (hnamed : t.node = node.id) (hkind : t.kind = node.kind) (errors : List AttemptError)
    (announced : List Happening) (outcomes more : List (Except AttemptError Json))
    (hrepeated : Repeated setup node errors announced)
    (hphase : t.phase.Tallies (setup.budget node.kind) errors outcomes t.attempts)
    (hhears : t.phase = .attempting →
      ∃ outcome, more = [outcome] ∧ t.Hears setup s outcome next)
    (hquiet : t.phase ≠ .attempting → more = []) :
    ∃ errors', Repeated setup node errors' (announced ++ t.notice setup next.phase) ∧
      next.phase.Tallies (setup.budget node.kind) errors' (outcomes ++ more) next.attempts := by
  -- Where nothing is announced, the failures are the same as before.
  have hnothing : Repeated setup node errors (announced ++ []) := by
    rw [List.append_nil]
    exact hrepeated
  -- Only the end of an attempt adds an outcome.
  by_cases hattempting : t.phase = .attempting
  · rw [hattempting] at hphase
    rcases hphase with ⟨hattempts, houtcomes⟩
    rcases hhears hattempting with ⟨outcome, hmore, hheard⟩
    rw [hmore, houtcomes]
    cases hheard with
    | output output =>
        exact ⟨errors, hnothing, .ok output, hattempts, rfl, not_false, rfl⟩
    | again e hretry hbudget =>
        rw [hkind, hattempts] at hbudget
        refine ⟨errors ++ [e], ?_, ?_, ?_⟩
        · have hconcat := hrepeated.concat e ⟨hretry, hbudget⟩
          rw [← hnamed, ← notice_resting setup t _ hattempts
            (s.nowMs + setup.restMs t.node (t.attempts - 1))] at hconcat
          exact hconcat
        · rw [List.length_append]
          exact hattempts
        · rw [List.map_append]
          rfl
    | last e hlast =>
        refine ⟨errors, hnothing, .error e, hattempts, rfl, ?_, rfl⟩
        -- There is no other attempt, for the error does not pass or the budget is spent.
        rintro ⟨hretry, hbudget⟩
        rw [← hkind] at hbudget
        rcases hlast with hnot | hspent
        · exact absurd (hretry.symm.trans hnot) Bool.true_eq_false.mp
        · exact absurd hbudget (Nat.not_le_of_lt hspent)
  · rw [hquiet hattempting, List.append_nil]
    cases h with
    | turnedAway _ _ hcancelled | cutShort _ _ _ hcancelled =>
        exact absurd (hcancelled.symm.trans hcalm) Bool.true_eq_false.mp
    | begins hqueued =>
        -- At the first attempt there has been no failure.
        rw [hqueued] at hphase
        rcases hphase with ⟨hattempts, herrors, houtcomes⟩
        refine ⟨errors, hnothing, ?_, ?_⟩
        · rw [herrors]
          exact congrArg Nat.succ hattempts
        · rw [houtcomes, herrors]
          rfl
    | wakes untilMs error hresting =>
        -- The failures stay, and one more attempt is made.
        rw [hresting] at hphase
        exact ⟨errors, hnothing, congrArg Nat.succ hphase.1, hphase.2⟩
    | succeeds _ hphase' | rests _ hphase' | fails _ hphase' | breaksDown hphase' =>
        exact absurd hphase' hattempting

end Task

namespace RunState

variable {setup : Setup} {s s' : RunState} {node : Node}
variable {outcomes : List (Except AttemptError Json)}

theorem retries_append (id : NodeId) (events : List Happening)
    (h : s'.events = s.events ++ events) :
    s'.retries id = s.retries id ++ events.filter (Happening.repeats id) := by
  rw [retries, h, List.filter_append]
  rfl

/-- A step that announces nothing of the kind leaves what was announced. -/
theorem retries_of_quiet (id : NodeId) (events : List Happening)
    (h : s'.events = s.events ++ events) (hquiet : ∀ e ∈ events, ¬ e.repeats id = true) :
    s'.retries id = s.retries id := by
  rw [retries_append id events h, List.filter_eq_nil_iff.mpr hquiet, List.append_nil]

/-- What leaves an attempt as it is, is no end of it. -/
theorem outcome?_eq_none (choice : Choice) (hstep : s.step setup choice = some s') (id : NodeId)
    (hstays : ∀ t, s.task? id = some t → t.phase = .attempting → s'.task? id = some t) :
    choice.outcome? id = none := by
  have hnot := ended?_ne setup s s' choice hstep id hstays
  cases choice with
  | answer key outcome => exact if_neg fun hkey => hnot (congrArg some hkey)
  | tick | cancel | launch | grant | crash | wake | interrupt | collect | sweep | advance => rfl

theorem Tally.of_same (h : s.Tally setup node outcomes)
    (hrecord : s'.record? node.id = s.record? node.id)
    (htask : s'.task? node.id = s.task? node.id)
    (hretries : s'.retries node.id = s.retries node.id) : s'.Tally setup node outcomes := by
  cases h with
  | untried r hr hfresh hnone houtcomes hnothing =>
      exact .untried r (hrecord.trans hr) hfresh (htask.trans hnone) houtcomes
        (hretries.trans hnothing)
  | working t errors ht hkind hrepeated hphase =>
      rw [← hretries] at hrepeated
      exact .working t errors (htask.trans ht) hkind hrepeated hphase
  | tried r errors last hr hnone hrepeated houtcomes hlast hfate =>
      rw [← hretries] at hrepeated
      exact .tried r errors last (hrecord.trans hr) (htask.trans hnone) hrepeated houtcomes hlast
        hfate

/-- Of a node that is not launched yet there was no attempt. -/
theorem Tally.of_fresh (h : s.Tally setup node outcomes)
    (hfresh : s.record? node.id = some (.ofNode node)) (hnone : s.task? node.id = none) :
    outcomes = [] ∧ s.retries node.id = [] := by
  cases h with
  | untried _ _ _ _ houtcomes hretries => exact ⟨houtcomes, hretries⟩
  | working t _ htask => exact absurd (hnone.symm.trans htask) nofun
  | tried r _ last hr _ _ _ _ hfate =>
      -- Its record would say how the last attempt ended.
      rw [hfresh, Option.some.injEq] at hr
      rw [← hr] at hfate
      cases last <;> exact absurd (congrArg Fate.status hfate) nofun

theorem Tally.of_task? (h : s.Tally setup node outcomes) (t : Task)
    (htask : s.task? node.id = some t) :
    ∃ errors, t.kind = node.kind ∧ Repeated setup node errors (s.retries node.id) ∧
      t.phase.Tallies (setup.budget node.kind) errors outcomes t.attempts := by
  cases h with
  | untried _ _ _ hnone | tried _ _ _ _ hnone => exact absurd (hnone.symm.trans htask) nofun
  | working t' errors htask' hkind hrepeated hphase =>
      rw [htask, Option.some.injEq] at htask'
      rw [htask']
      exact ⟨errors, hkind, hrepeated, hphase⟩

/-- A task that goes on keeps the tally of its node. -/
theorem Tally.go (h : s.Tally setup node outcomes) (choice : Choice) (t next : Task)
    (events : List Happening) (htask : s.task? t.node = some t) (hnamed : t.node = node.id)
    (hgoes : t.Goes setup s next events)
    (hstep : s.step setup choice = some (s.proceed next events)) (hcalm : s.cancelled = false)
    (hcrash : choice ≠ .crash node.id) :
    (s.proceed next events).Tally setup node (outcomes ++ (choice.outcome? node.id).toList) := by
  rw [hnamed] at htask
  have hnext : (s.proceed next events).task? node.id = some next := by
    rw [task?_proceed, hgoes.node, if_pos hnamed.symm, htask, Option.map_some]
  have hretries : (s.proceed next events).retries node.id =
      s.retries node.id ++ t.notice setup next.phase := by
    rw [retries_append node.id events rfl, ← hnamed, hgoes.filter_repeats]
  rcases h.of_task? t htask with ⟨errors, hkind, hrepeated, hphase⟩
  have hgone := hgoes.tallies hcalm node hnamed hkind errors _ outcomes
    (choice.outcome? node.id).toList hrepeated hphase ?_ ?_
  · rcases hgone with ⟨errors', hrepeated', hphase'⟩
    rw [← hretries] at hrepeated'
    exact .working next errors' hnext (hgoes.keeps.2.1.trans hkind) hrepeated' hphase'
  -- An attempt ends as its handler says.
  · intro hattempting
    rcases task?_of_step setup s _ choice hstep node.id t htask hattempting with
      hsame | ⟨outcome, next', hchoice, hhears, hnext'⟩ | ⟨hchoice, _⟩
    · rw [hnext, Option.some.injEq] at hsame
      exact absurd (hsame ▸ hattempting) (hgoes.phase_ne hattempting)
    · rw [hnext, Option.some.injEq] at hnext'
      refine ⟨outcome, ?_, hnext' ▸ hhears⟩
      rw [hchoice, Choice.outcome?, if_pos rfl, Option.toList_some]
    · exact absurd hchoice hcrash
  · intro hother
    rw [outcome?_eq_none choice hstep node.id, Option.toList_none]
    intro t' htask' hattempting
    rw [htask, Option.some.injEq] at htask'
    exact absurd (htask' ▸ hattempting) hother

/-- What the last attempt came to is what is noted at the end of a task. -/
theorem Tally.close (h : s.Tally setup node outcomes) (hsound : s.Sound setup)
    (hnode : setup.graph.node? node.id = some node) (t : Task) (change : NodeRun → NodeRun)
    (events : List Happening) (lost : Bool) (htask : s.task? t.node = some t)
    (hnamed : t.node = node.id) (hends : t.Ends setup s change events lost)
    (hcalm : s.cancelled = false) :
    (s.retire t.node change events lost).Tally setup node outcomes := by
  have hworking := (hsound.working_of_task? t htask node hnode hnamed.symm).1
  have hrecord := record?_amend_self (s.drop t.node) t.node change _ hworking
  have hdrop := s.task?_drop t.node t.node
  rw [if_pos rfl] at hdrop
  -- The end of a task is not an announcement of another attempt.
  have hretries : (s.retire t.node change events lost).retries node.id = s.retries node.id := by
    refine retries_of_quiet node.id events rfl fun e he => ?_
    cases hends with
    | settled | discarded | missed =>
        rw [List.mem_singleton.mp he]
        exact Bool.false_ne_true
    | dropped => exact absurd he List.not_mem_nil
  rw [hnamed] at htask hrecord hdrop hretries ⊢
  rcases h.of_task? t htask with ⟨errors, hkind, hrepeated, hphase⟩
  rw [← hretries] at hrepeated
  cases hends with
  | settled atMs result hnow =>
      rw [hnow] at hphase
      rcases hphase with ⟨last, hattempts, houtcomes, hlast, hresult⟩
      rw [hattempts] at hlast
      -- What the task ends with is what its last attempt came to.
      refine .tried _ errors last hrecord hdrop hrepeated houtcomes hlast ?_
      rw [← hattempts, hresult]
      cases last <;> rfl
  | missed hnow =>
      rw [hnow] at hphase
      exact hphase.elim
  | discarded _ _ _ hcancelled | dropped _ hcancelled =>
      exact absurd (hcancelled.symm.trans hcalm) Bool.true_eq_false.mp

/-- The end of a run that is not cancelled finds no node that was never
    launched, so it leaves all tallies. -/
theorem Tally.finish (h : s.Tally setup node outcomes) (hdrained : s.Drained setup)
    (hcalm : s.cancelled = false) : (s.finish setup).Tally setup node outcomes := by
  refine h.of_same ?_ ?_ ?_
  · have hnot : node.id ∉ s.untouched := fun hmem =>
      absurd ((hdrained.cancelled_of_untouched node.id hmem).symm.trans hcalm)
        Bool.true_eq_false.mp
    rw [record?_finish]
    simp only [if_neg hnot, Option.map_id']
  · exact task?_finish setup s node.id
  · rcases exists_events_finish setup s with ⟨events, hevents, hall⟩
    refine retries_of_quiet node.id events hevents fun e he => ?_
    rcases hall e he with ⟨id, heq⟩ | ⟨status, heq⟩ <;>
    · rw [heq]
      exact Bool.false_ne_true

/-- A node that is launched is prepared for its first attempt, and the others
    are left alone. -/
theorem Tally.launch (h : s.Tally setup node outcomes) (hsound : s.Sound setup)
    (hopen : s.status = none) (hnode : setup.graph.node? node.id = some node) (other : Node)
    (rest : List NodeId) (hentering : s.entering = other.id :: rest)
    (hother : setup.graph.node? other.id = some other) :
    ((s.leave rest).enlist other.id (s.newTask setup other other.id)).Tally setup node
      outcomes := by
  rcases hsound.upcoming_of_entering other rest hentering hopen hother with ⟨hfresh, hnone, _, _⟩
  have htask := (s.leave rest).task?_enlist other.id node.id (s.newTask setup other other.id) rfl
    hnone
  by_cases hid : node.id = other.id
  -- Nothing has been tried of a node that is launched just now.
  · have heq : other = node := by
      rw [hid, hother] at hnode
      exact Option.some.inj hnode
    rw [heq] at hfresh hnone htask ⊢
    rcases h.of_fresh hfresh hnone with ⟨houtcomes, hretries⟩
    refine .working _ [] (htask.trans (if_pos rfl)) rfl ?_ ⟨rfl, rfl, houtcomes⟩
    have hnothing : retries ((s.leave rest).enlist node.id (s.newTask setup node node.id))
        node.id = [] := hretries
    rw [hnothing]
    exact .nothing setup node
  · exact h.of_same (((s.leave rest).record?_amend other.id node.id _).trans (if_neg hid))
      (htask.trans (if_neg hid)) rfl

/-- A node that a predecessor blocks is not tried. -/
theorem Tally.block (h : s.Tally setup node outcomes) (hsound : s.Sound setup)
    (hopen : s.status = none) (hnode : setup.graph.node? node.id = some node) (other : NodeId)
    (rest : List NodeId) (predecessor : NodeId) (status : NodeStatus)
    (hentering : s.entering = other :: rest) :
    Tally setup (((s.leave rest).amend other (s.blockedRun setup predecessor status)).emit
      (.nodeSkipped other (blockedReason predecessor status))) node outcomes := by
  -- Skipping a node is no announcement of an attempt either.
  have hretries : retries (((s.leave rest).amend other
      (s.blockedRun setup predecessor status)).emit
        (.nodeSkipped other (blockedReason predecessor status))) node.id = s.retries node.id := by
    refine retries_of_quiet node.id _ rfl fun e he => ?_
    rw [List.mem_singleton.mp he]
    exact Bool.false_ne_true
  by_cases hid : node.id = other
  -- A node that is skipped was not tried.
  · rw [← hid] at hentering hretries ⊢
    rcases hsound.upcoming_of_entering node rest hentering hopen hnode with ⟨hfresh, hnone, _, _⟩
    rcases h.of_fresh hfresh hnone with ⟨houtcomes, hnothing⟩
    exact .untried _ (record?_amend_self (s.leave rest) node.id _ _ hfresh) (Or.inr rfl) hnone
      houtcomes (hretries.trans hnothing)
  · exact h.of_same (((s.leave rest).record?_amend other node.id _).trans (if_neg hid)) rfl
      hretries

/-- What is done in a run that is not cancelled keeps the tally of a node whose
    handler does not break down. -/
theorem Move.tally (hmove : s.Move setup s') (h : s.Sound setup) (hopen : s.status = none)
    (hnode : setup.graph.node? node.id = some node) (choice : Choice)
    (hstep : s.step setup choice = some s') (hcalm : s.cancelled = false)
    (hcrash : choice ≠ .crash node.id) (htally : s.Tally setup node outcomes) :
    s'.Tally setup node (outcomes ++ (choice.outcome? node.id).toList) := by
  -- What leaves an attempt of the node as it is, is no end of it.
  have hquiet : (∀ t, s.task? node.id = some t → t.phase = .attempting →
      s'.task? node.id = some t) → s'.Tally setup node outcomes →
      s'.Tally setup node (outcomes ++ (choice.outcome? node.id).toList) := by
    intro hstays hafter
    rw [outcome?_eq_none choice hstep node.id hstays, Option.toList_none, List.append_nil]
    exact hafter
  cases hmove with
  | pass => exact hquiet (fun _ ht _ => ht) (htally.of_same rfl rfl rfl)
  | enter =>
      refine hquiet (fun _ ht _ => ht) (htally.of_same rfl rfl (retries_of_quiet node.id _ rfl ?_))
      intro e he
      rw [List.mem_singleton.mp he]
      exact Bool.false_ne_true
  | block other rest _ predecessor status hentering =>
      exact hquiet (fun _ ht _ => ht)
        (htally.block h hopen hnode other rest predecessor status hentering)
  | launch key rest other hentering hother =>
      have hkey := (setup.graph.mem_of_node? key other hother).2
      rw [← hkey] at hentering hother hquiet ⊢
      have hnone := (h.upcoming_of_entering other rest hentering hopen hother).2.1
      -- What is launched has no task yet.
      exact hquiet (fun _ ht _ => (s.leave rest).task?_enlist_of_some rfl hnone ht)
        (htally.launch h hopen hnode other rest hentering hother)
  | go t next events htask hgoes =>
      by_cases hid : t.node = node.id
      · exact htally.go choice t next events htask hid hgoes hstep hcalm hcrash
      · have hput := s.task?_proceed next events node.id
        rw [hgoes.node, if_neg fun heq => hid heq.symm] at hput
        refine hquiet (fun _ ht _ => hput.trans ht) (htally.of_same rfl hput
          (retries_of_quiet node.id events rfl fun e he hrepeats => hid ?_))
        have hnode' := Happening.node?_of_repeats hrepeats
        exact Option.some.inj ((hgoes.concerns e he).symm.trans hnode')
  | close t change events lost htask _ hends =>
      refine hquiet (fun _ ht hphase => task?_retire_of_attempting htask hends ht hphase) ?_
      by_cases hid : t.node = node.id
      · exact htally.close h hnode t change events lost htask hid hends hcalm
      · refine htally.of_same
          (((s.drop t.node).record?_amend t.node node.id change).trans
            (if_neg fun heq => hid heq.symm))
          ((s.task?_drop t.node node.id).trans (if_neg fun heq => hid heq.symm))
          (retries_of_quiet node.id events rfl fun e he hrepeats => hid ?_)
        have hnode' := Happening.node?_of_repeats hrepeats
        exact Option.some.inj ((hends.concerns e he).symm.trans hnode')
  | finish hentering htasks hahead =>
      exact hquiet (fun _ ht _ => (task?_finish setup s node.id).trans ht)
        (htally.finish (h.drained hentering htasks hahead) hcalm)
  | abandon _ _ _ hcancelled => exact absurd (hcancelled.symm.trans hcalm) Bool.true_eq_false.mp

end RunState

namespace Course

variable {setup : Setup}

/-- The tally of a node is kept in a run that is not cancelled, if its handler
    does not break down. -/
theorem tally (choices : List Choice) (s : RunState) (h : Course setup choices s) (node : Node)
    (hnode : setup.graph.node? node.id = some node) (hcalm : .cancel ∉ choices)
    (hcrash : .crash node.id ∉ choices) :
    s.Tally setup node (outcomesOf node.id choices) := by
  refine induction (P := fun choices s => .cancel ∉ choices → .crash node.id ∉ choices →
    s.Tally setup node (outcomesOf node.id choices)) ?_ ?_ choices s h hcalm hcrash
  · intro _ _
    exact .untried _ (RunState.start_record? setup h.planned node hnode) (Or.inl rfl) rfl rfl rfl
  · intro choices choice u u' hu ih hstep hcalm hcrash
    simp only [List.mem_append, List.mem_singleton, not_or] at hcalm hcrash
    have hbefore := ih hcalm.1 hcrash.1
    -- The run is not cancelled, for no choice has cancelled it.
    have hidle : u.cancelled = false := by
      rw [← Bool.not_eq_true, hu.cancelled_iff choices u]
      exact hcalm.1
    rw [outcomesOf_concat]
    rcases RunState.does_of_step setup u u' choice hstep with ⟨hopen, hdoes⟩
    cases hdoes with
    | tick ms =>
        have hnothing : outcomesOf node.id choices ++ [] = outcomesOf node.id choices :=
          List.append_nil _
        exact hnothing.symm ▸ hbefore.of_same rfl rfl rfl
    | cancel => exact absurd rfl hcalm.2
    | work _ _ _ hmove =>
        exact hmove.tally hu.sound hopen hnode choice hstep hidle (fun heq => hcrash.2 heq.symm)
          hbefore

/-- A node that was not tried was passed over. -/
theorem passedOver_of_untried (choices : List Choice) (s : RunState) (h : Course setup choices s)
    (hover : s.status ≠ none) (node : Node) (hnode : setup.graph.node? node.id = some node)
    (hcalm : .cancel ∉ choices) (r : NodeRun) (hrecord : s.record? node.id = some r)
    (hfresh : r = .ofNode node ∨ r.status = .skipped)
    (houtcomes : outcomesOf node.id choices = []) (hretries : s.retries node.id = []) :
    PassedOver setup choices s node := by
  cases h.sound.standing node hnode with
  | upcoming hopen | working _ hopen => exact absurd hopen hover
  | settled r' hrecord' _ _ _ _ hsettled =>
      rw [hrecord, Option.some.injEq] at hrecord'
      rw [← hrecord'] at hsettled
      have hterminal := hsettled.isTerminal
      -- Its record is not fresh any more, so it was skipped.
      have hskipped : r.status = .skipped := by
        rcases hfresh with heq | hskipped
        · rw [heq] at hterminal
          exact absurd hterminal Bool.false_ne_true
        · exact hskipped
      cases hsettled with
      | succeeded _ hstatus | failed _ hstatus =>
          exact absurd (hskipped.symm.trans hstatus) nofun
      | blocked predecessor status _ _ _ _ hstarts hkind hblocked =>
          exact ⟨⟨predecessor, status, hblocked⟩, hkind, ⟨r, hrecord, hskipped⟩, hstarts, houtcomes,
            hretries⟩
      | cancelled _ _ _ _ _ hcancelled =>
          exact absurd ((h.cancelled_iff choices s).mp hcancelled) hcalm

/-- A node that was tried was tried until an attempt stopped. -/
theorem triedUntil_of_tried (choices : List Choice) (s : RunState) (h : Course setup choices s)
    (hover : s.status ≠ none) (node : Node) (hnode : setup.graph.node? node.id = some node)
    (replies : Nat → Except AttemptError Json)
    (hreplies : ∀ i outcome, (outcomesOf node.id choices)[i]? = some outcome →
      outcome = replies (i + 1))
    (r : NodeRun) (errors : List AttemptError) (last : Except AttemptError Json)
    (hrecord : s.record? node.id = some r)
    (hrepeated : Repeated setup node errors (s.retries node.id))
    (houtcomes : outcomesOf node.id choices = errors.map .error ++ [last])
    (hlast : ¬ Again (setup.budget node.kind) (errors.length + 1) (some last))
    (hfate : r.fate = .ofLast (some last) (errors.length + 1)) :
    TriedUntil setup choices s node replies (errors.length + 1) := by
  -- The outcomes are the errors that were followed by another attempt, and a last one.
  have hbefore : ∀ i e, errors[i]? = some e → replies (i + 1) = .error e := by
    intro i e he
    refine (hreplies i (.error e) ?_).symm
    rw [houtcomes, List.getElem?_append_left, List.getElem?_map, he, Option.map_some]
    rw [List.length_map]
    exact (List.getElem?_eq_some_iff.mp he).1
  have hreply : replies (errors.length + 1) = last := by
    refine (hreplies errors.length last ?_).symm
    rw [houtcomes, List.getElem?_append_right, List.length_map, Nat.sub_self,
      List.getElem?_cons_zero]
    rw [List.length_map]
  refine {
    least := hrepeated.isLeast_stops replies hbefore (hreply ▸ hlast)
    begun := ?_
    ended := ?_
    recorded := ⟨r, hrecord, hreply ▸ hfate⟩
    announced := ⟨errors, rfl, hbefore, hrepeated.told⟩ }
  -- The record counts the attempts, and it is the record of a node that was tried.
  · have hattempts : r.attempts = errors.length + 1 := by
      cases last <;> exact congrArg Fate.attempts hfate
    have hstatus : r.status ≠ .skipped := by
      intro hskipped
      have hsame := congrArg Fate.status hfate
      cases last <;> exact absurd (hskipped.symm.trans hsame) nofun
    cases h.sound.standing node hnode with
    | upcoming hopen | working _ hopen => exact absurd hopen hover
    | settled r' hrecord' _ _ _ _ hsettled =>
        rw [hrecord, Option.some.injEq] at hrecord'
        rw [← hrecord'] at hsettled
        cases hsettled with
        | succeeded _ _ _ _ hcounted => exact hcounted.symm.trans hattempts
        | failed _ _ _ _ _ hcounted =>
            rcases hcounted with hcounted | ⟨hnone, _⟩
            · exact hcounted.symm.trans hattempts
            · exact absurd (hattempts.symm.trans hnone) (Nat.succ_ne_zero _)
        | blocked _ _ hskipped | cancelled _ hskipped => exact absurd hskipped hstatus
  · have hlength : (outcomesOf node.id choices).length = errors.length + 1 := by
      rw [houtcomes, List.length_append, List.length_map, List.length_singleton]
    rw [← hlength]
    exact (eq_map_range'_iff replies _).mpr hreplies

/-- What the outcomes of its attempts make of a node, in a run that is not
    cancelled and in which its handler does not break down. Unless the nodes
    before it keep it from being tried, it is tried until an attempt stops. How
    often it may be tried again is the least of what is said about that. -/
theorem attempts_decided (policy : RetryPolicy) (registry : Registry)
    (replies : Nat → Except AttemptError Json) (choices : List Choice) (s : RunState)
    (h : Course setup choices s) (hover : s.status ≠ none) (node : Node)
    (hnode : setup.graph.node? node.id = some node)
    (hbudget : setup.budget node.kind =
      policy.budget node.kind (Registry.retryLimit node.kind registry))
    (hcalm : .cancel ∉ choices) (hcrash : .crash node.id ∉ choices)
    (hreplies : ∀ i outcome, (outcomesOf node.id choices)[i]? = some outcome →
      outcome = replies (i + 1)) :
    IsLeast {n | n = policy.maxRetries ∨ node.kind.capability.maxRetries = some n ∨
        Registry.retryLimit node.kind registry = some n} (setup.budget node.kind) ∧
      (PassedOver setup choices s node ∨ ∃ k, TriedUntil setup choices s node replies k) := by
  constructor
  · rw [hbudget]
    exact policy.isLeast_budget node.kind _
  · cases h.tally choices s node hnode hcalm hcrash with
    | untried r hrecord hfresh _ houtcomes hretries =>
        exact Or.inl (h.passedOver_of_untried choices s hover node hnode hcalm r hrecord hfresh
          houtcomes hretries)
    | working t _ htask =>
        -- Nobody works on a node any more when the run is over.
        rw [← s.node_of_task? node.id t htask] at htask
        exact absurd (h.sound.open_of_task? t htask) hover
    | tried r errors last hrecord _ hrepeated houtcomes hlast hfate =>
        exact Or.inr ⟨_, h.triedUntil_of_tried choices s hover node hnode replies hreplies r errors
          last hrecord hrepeated houtcomes hlast hfate⟩

end Course

/-- Pages may be fetched again twice, because the fetcher asks for no more. -/
def fetchers : Registry :=
  [(.urlScraper, { name := "fetcher", maxRetries := some 2, behaviour := .wait })]

/-- Nodes may be tried again five times. -/
def patience : RetryPolicy := { maxRetries := 5, initialBackoffMs := 5, maxBackoffMs := 5 }

/-- A run in which everything is tried as often as the policy, the kinds and the
    handlers allow. -/
def patient : Setup := { report with
  budget := fun kind => patience.budget kind (Registry.retryLimit kind fetchers) }

/-- The page is busy, then it is slow, and then it is there. -/
def thirdTime : List Choice :=
  [.advance, .launch, .grant "fetch", .answer "fetch" (.error (.failed (.transient "busy"))),
    .tick 5, .wake "fetch", .answer "fetch" (.error (.timedOut 60000)), .tick 5, .wake "fetch",
    .answer "fetch" (.ok .null), .collect "fetch", .advance, .launch, .grant "ask",
    .answer "ask" (.ok .null), .collect "ask", .advance, .launch, .grant "mail",
    .answer "mail" (.ok .null), .collect "mail", .advance]

/-- What comes of asking for the page, as often as that may be. -/
def thirdTimeReplies : Nat → Except AttemptError Json
  | 1 => .error (.failed (.transient "busy"))
  | 2 => .error (.timedOut 60000)
  | _ => .ok .null

theorem attempts_decided_thirdTime : ∃ s, Course patient thirdTime s ∧
    s.status = some .succeeded ∧
    TriedUntil patient thirdTime s (Node.new "fetch" .urlScraper) thirdTimeReplies 3 := by
  rcases Course.exists_of_observed patient thirdTime
    (fun s => (s.status, s.starts "fetch")) (some .succeeded, 3) rfl rfl with
    ⟨s, hcourse, hseen⟩
  simp only [Prod.mk.injEq] at hseen
  have hover : s.status ≠ none := by
    rw [hseen.1]
    exact Option.some_ne_none _
  have hcalm : .cancel ∉ thirdTime := by
    simp only [thirdTime, List.mem_cons, reduceCtorEq, List.not_mem_nil, or_self, not_false_eq_true]
  have hcrash : .crash "fetch" ∉ thirdTime := by
    simp only [thirdTime, List.mem_cons, reduceCtorEq, List.not_mem_nil, or_self, not_false_eq_true]
  have hdecided := Course.attempts_decided patience fetchers thirdTimeReplies thirdTime s hcourse
    hover (Node.new "fetch" .urlScraper) rfl rfl hcalm hcrash
    ((eq_map_range'_iff thirdTimeReplies (outcomesOf "fetch" thirdTime)).mp rfl)
  refine ⟨s, hcourse, hseen.1, ?_⟩
  rcases hdecided.2 with hpassed | ⟨k, htried⟩
  · exact absurd (hpassed.begun.symm.trans hseen.2) nofun
  · have hk : k = 3 := htried.begun.symm.trans hseen.2
    rw [hk] at htried
    exact htried

end Workflow
