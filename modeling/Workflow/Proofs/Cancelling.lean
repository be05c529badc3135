import Workflow.Proofs.Containment
import Workflow.Proofs.Persistence

/-!
# What Cancelling Takes Away

What becomes of the nodes of a run that is cancelled at some moment, or never.

When cancelling takes the end of a node away, that is noted in two places: the
record says so, and the run counts as interrupted. Both are written in the same
step, whichever of the four it is: an answer is discarded, a task without an
answer is dropped, the run is given up before its last stage, or a node is
found that was never launched. So one tells the other (`interrupted_iff`), and
a run ends as cancelled when some node was lost to that.

Cancelling is not passed on from node to node. A node that a predecessor blocks
was launched, so all stages before its own are over, and nothing was lost there
(`grounded_of_skipped`). Nor does anything succeed or fail after the run was
cancelled (`decided_before`).

## Main definitions

* `Withdrawn`, `HeldBack`: The two reasons for which a node is skipped.
* `Owes`: A node was skipped because of another one.
* `Withdraws`: What cancelling does to a run.

## Theorems

* `Course.interrupted_iff`: A run is interrupted when a node was lost.
* `Course.grounded_of_skipped`: No node is blocked by one that was lost.
* `Course.decided_before`: Nothing succeeds or fails after cancelling.
* `Course.cancelled_iff_withdrawn`: What cancelling does to a run.
-/

namespace Workflow

namespace RunResult

/-- A node was skipped because cancelling has taken its end away. -/
def Withdrawn (r : RunResult) (id : NodeId) : Prop :=
  ∃ run, r.node? id = some run ∧ run.status = .skipped ∧ run.Lost

/-- A node was skipped because of the nodes before it. -/
def HeldBack (r : RunResult) (id : NodeId) : Prop :=
  ∃ run error, r.node? id = some run ∧ run.status = .skipped ∧ run.error = some error ∧
    error.cause = .predecessor

/-- A node was skipped because of the nodes before it, and this is one of them:
    it is directly before the node and has no output. -/
structure Owes (g : Graph) (r : RunResult) (source target : NodeId) : Prop where
  depends : g.Depends source target
  missing : r.EndedAs source .failed ∨ r.EndedAs source .skipped
  held : r.HeldBack target

/-- What cancelling does to a run. The run ends as cancelled when a node is
    withdrawn. No node that is held back owes that to a withdrawn one, directly
    or through others; it owes it to one that failed. What succeeds or fails has
    done so before the run was cancelled. -/
structure Withdraws (setup : Setup) (choices : List Choice) (r : RunResult) : Prop where
  status_iff : r.status = .cancelled ↔ ∃ id, r.Withdrawn id
  blameless : ∀ source target, Relation.TransGen (r.Owes setup.graph) source target →
    ¬ r.Withdrawn source
  blamed : ∀ id, r.HeldBack id →
    ∃ f, r.EndedAs f .failed ∧ Relation.TransGen (r.Owes setup.graph) f id
  decided : ∀ before after, choices = before ++ .cancel :: after →
    ∃ u, Course setup before u ∧ ∀ id run, r.node? id = some run →
      run.status = .succeeded ∨ run.status = .failed → u.record? id = some run

end RunResult

theorem outcome_eq_cancelled_iff (g : Graph) (nodes : Entries NodeRun) (interrupted : Bool) :
    outcome g nodes interrupted = .cancelled ↔ interrupted = true := by
  cases interrupted with
  | true => exact iff_of_true rfl rfl
  | false =>
      refine iff_of_false ?_ Bool.false_ne_true
      intro h
      simp only [outcome, Bool.false_eq_true, if_false] at h
      split at h
      · contradiction
      · split at h <;> contradiction

theorem NodeRun.not_lost_of_cause (r : NodeRun) (error : NodeError) (herror : r.error = some error)
    (hcause : error.cause = .predecessor) : ¬ r.Lost := by
  rintro ⟨other, hother, hlost⟩
  rw [herror, Option.some.injEq] at hother
  rw [← hother, hcause] at hlost
  exact absurd hlost nofun

namespace Task

variable {setup : Setup} {s : RunState} {t : Task} {change : NodeRun → NodeRun}
variable {events : List Happening} {lost : Bool}

/-- What cancelling takes away is skipped, and the record says why. -/
theorem Ends.withdrawn (h : t.Ends setup s change events lost) (hlost : lost = true) (r : NodeRun) :
    (change r).status = .skipped ∧ (change r).Lost := by
  cases h with
  | settled | missed => exact absurd hlost Bool.false_ne_true
  | discarded | dropped => exact ⟨rfl, _, rfl, rfl⟩

/-- A task ends by itself only when the run is not cancelled. -/
theorem Ends.decided (h : t.Ends setup s change events lost) (hkept : lost = false) (r : NodeRun) :
    ((change r).status = .succeeded ∨ (change r).status = .failed) ∧ s.cancelled = false := by
  cases h with
  | settled _ result _ hcalm =>
      cases result with
      | ok => exact ⟨Or.inl rfl, hcalm⟩
      | error => exact ⟨Or.inr rfl, hcalm⟩
  | missed _ hcalm => exact ⟨Or.inr rfl, hcalm⟩
  | discarded | dropped => exact absurd hkept Bool.true_eq_false.mp

end Task

namespace RunState

variable {setup : Setup} {s s' : RunState}

/-- What was lost has ended, and was skipped. -/
theorem Sound.skipped_of_lost (h : s.Sound setup) (id : NodeId) (r : NodeRun)
    (hr : s.record? id = some r) (hlost : r.Lost) : r.status = .skipped := by
  rcases hlost with ⟨error, herror, hcause⟩
  rcases setup.graph.exists_node? id (h.hasNode_of_record? id r hr) with ⟨node, hid, hnode⟩
  rw [← hid] at hr
  cases h.standing node hnode with
  | upcoming _ hrecord | working _ _ hrecord =>
      -- A record that is open has no error.
      rw [hr, Option.some.injEq] at hrecord
      rw [hrecord] at herror
      exact absurd herror nofun
  | settled r' hrecord _ _ _ _ hsettled =>
      rw [hr, Option.some.injEq] at hrecord
      rw [hrecord] at herror ⊢
      cases hsettled with
      | blocked _ _ hstatus | cancelled _ hstatus => exact hstatus
      | succeeded _ _ _ hnone =>
          rw [hnone] at herror
          exact absurd herror nofun
      | failed other _ _ hother hattempt =>
          -- Attempts have errors of other causes.
          rw [hother, Option.some.injEq] at herror
          rw [herror, hcause] at hattempt
          exact absurd hattempt (by decide)

/-- When nothing is left to do, a node that was never launched is lost. -/
theorem lost_of_untouched (setup : Setup) (s : RunState)
    (hnodup : (s.records.map (·.1)).Nodup) (id : NodeId) (hid : id ∈ s.untouched) :
    ∃ r, (s.finish setup).record? id = some r ∧ r.Lost := by
  rcases (s.mem_untouched_iff hnodup id).mp hid with ⟨r, hr, _⟩
  rw [record?_finish, hr, Option.map_some, if_pos hid]
  exact ⟨_, rfl, untouchedError, rfl, rfl⟩

/-- A run that is given up before its last stage leaves nodes untouched. -/
theorem Sound.exists_untouched (h : s.Sound setup) (hopen : s.status = none)
    (hahead : s.ahead ≠ []) : ∃ id, id ∈ s.untouched := by
  rcases List.exists_cons_of_ne_nil hahead with ⟨stage, ahead, hcons⟩
  have hstage : stage ∈ setup.plan.stages := by
    refine List.mem_of_mem_drop (i := s.stage) ?_
    rw [← h.ahead, hcons]
    exact List.mem_cons_self
  -- No stage of a plan is empty, and any node of one that is left will do.
  have hlayered := setup.graph.layered_of_plan setup.plan h.planned
  rcases List.exists_mem_of_ne_nil stage (hlayered.inhabited stage hstage) with ⟨id, hmem⟩
  have hupcoming : id ∈ s.upcoming := by
    refine List.mem_append_right _ ?_
    rw [hcons, List.flatten_cons]
    exact List.mem_append_left _ hmem
  have hid := (hlayered.complete id).mp (h.order.subset hupcoming)
  rcases setup.graph.exists_node? id hid with ⟨node, hnamed, hnode⟩
  refine ⟨id, (s.mem_untouched_iff h.nodup id).mpr ?_⟩
  rw [← hnamed] at hupcoming ⊢
  cases h.standing node hnode with
  | upcoming _ hrecord => exact ⟨_, hrecord, rfl⟩
  | working _ _ _ _ hnot => exact absurd hupcoming hnot
  | settled _ _ _ _ _ hnot => exact absurd hupcoming (hnot hopen)

/-- What interrupts a run takes the end of a node away. -/
theorem Move.lost_of_interrupted (hmove : s.Move setup s') (h : s.Sound setup)
    (hopen : s.status = none) (hinterrupted : s'.interrupted = true) :
    s.interrupted = true ∨ ∃ id r, s'.record? id = some r ∧ r.Lost := by
  cases hmove with
  | pass | block | launch | go | enter => exact Or.inl hinterrupted
  | close t change events lost htask _ hends =>
      refine ((Bool.or_eq_true _ _).mp hinterrupted).imp_right fun hlost => ?_
      rcases h.exists_node_of_task? t htask with ⟨node, hid, hnode⟩
      have hworking := (h.working_of_task? t htask node hnode hid).1
      have hchanged := record?_amend_self (s.drop t.node) t.node change _ hworking
      exact ⟨t.node, _, hchanged, (hends.withdrawn hlost _).2⟩
  | finish =>
      rw [interrupted_finish] at hinterrupted
      refine ((Bool.or_eq_true _ _).mp hinterrupted).imp_right fun hsome => ?_
      rw [Bool.not_eq_true', List.isEmpty_eq_false_iff_exists_mem] at hsome
      rcases hsome with ⟨id, hid⟩
      exact ⟨id, lost_of_untouched setup s h.nodup id hid⟩
  | abandon _ _ hahead =>
      -- The run is interrupted before any node is lost, but there are nodes left to lose.
      rcases h.exists_untouched hopen hahead with ⟨id, hid⟩
      exact Or.inr ⟨id, lost_of_untouched setup { s with interrupted := true } h.nodup id hid⟩

/-- A run that was interrupted stays so. -/
theorem Move.interrupted (hmove : s.Move setup s') (hinterrupted : s.interrupted = true) :
    s'.interrupted = true := by
  cases hmove with
  | pass | block | launch | go | enter => exact hinterrupted
  | close t change events lost => exact (Bool.or_eq_true _ _).mpr (Or.inl hinterrupted)
  | finish => rw [interrupted_finish, hinterrupted, Bool.true_or]
  | abandon => rw [interrupted_finish, Bool.true_or]

/-- What takes the end of a node away interrupts the run. -/
theorem Noted.interrupted_of_lost {node : Node} {r r' : NodeRun} {events : List Happening}
    {lost : Bool} (h : s.Noted setup s' node r r' events lost) (hsound : s'.Sound setup)
    (hcancelled : s'.cancelled = s.cancelled) (hlost : r'.Lost) :
    r' = r ∨ s'.interrupted = true := by
  have hrecord := h.record
  have hinterrupted := h.interrupted
  cases h.notes with
  | nothing => exact Or.inl rfl
  | forgone => exact Or.inr (hinterrupted rfl)
  | launched hfresh =>
      rcases hlost with ⟨error, herror, _⟩
      rw [hfresh] at herror
      exact absurd herror nofun
  | blocked =>
      rcases hlost with ⟨error, herror, hcause⟩
      rw [← Option.some.inj herror] at hcause
      exact absurd hcause nofun
  | ended t change events lost _ _ _ hends =>
      cases lost with
      | true => exact Or.inr (hinterrupted rfl)
      | false =>
          -- The run was not cancelled, so nothing that is known in it was lost.
          rcases hends.decided rfl r with ⟨hstatus, hcalm⟩
          exact absurd hlost (hsound.kept_of_isTerminal (hcancelled.trans hcalm) node.id
            (change r) hrecord (NodeStatus.isTerminal_of_decided hstatus)).2

/-- Nothing succeeds or fails in a run that is cancelled. -/
theorem Notes.eq_of_cancelled {node : Node} {r r' : NodeRun} {events : List Happening}
    {lost : Bool} (h : s.Notes setup node r r' events lost) (hcancelled : s.cancelled = true)
    (hstatus : r'.status = .succeeded ∨ r'.status = .failed) : r' = r := by
  have hother : r'.status ≠ .running ∧ r'.status ≠ .skipped := by
    rcases hstatus with heq | heq <;> rw [heq] <;> exact ⟨nofun, nofun⟩
  cases h with
  | nothing => rfl
  | launched => exact absurd rfl hother.1
  | blocked | forgone => exact absurd rfl hother.2
  | ended t change events lost _ _ _ hends =>
      cases lost with
      | true => exact absurd (hends.withdrawn rfl r).1 hother.2
      | false =>
          exact absurd ((hends.decided rfl r).2.symm.trans hcancelled) Bool.false_ne_true

end RunState

namespace Course

variable {setup : Setup}

/-- A run is interrupted when the end of a node was taken away. -/
theorem interrupted_iff (choices : List Choice) (s : RunState) (h : Course setup choices s) :
    s.interrupted = true ↔ ∃ id r, s.record? id = some r ∧ r.Lost := by
  refine induction
    (P := fun _ s => s.interrupted = true ↔ ∃ id r, s.record? id = some r ∧ r.Lost) ?_ ?_
    choices s h
  -- Nothing is lost at the start.
  · refine iff_of_false Bool.false_ne_true ?_
    rintro ⟨id, r, hr, hlost⟩
    rcases RunState.start_fresh setup h.planned id r hr with ⟨node, hfresh⟩
    rcases hlost with ⟨error, herror, _⟩
    rw [hfresh] at herror
    exact absurd herror nofun
  · intro choices choice u u' hu ih hstep
    have hsound' := (hu.concat choice u' hstep).sound
    have hext := RunState.extends_of_step hu.sound choice hstep
    rcases RunState.does_of_step setup u u' choice hstep with ⟨hopen, hdoes⟩
    cases hdoes with
    | tick | cancel => exact ih
    | work _ _ _ hmove =>
        constructor
        -- What was lost once stays lost, because its record is not opened again.
        · intro hinterrupted
          rcases hmove.lost_of_interrupted hu.sound hopen hinterrupted with hbefore | hlost
          · rcases ih.mp hbefore with ⟨id, r, hr, hlost⟩
            have hskipped := hu.sound.skipped_of_lost id r hr hlost
            exact ⟨id, r, hext.record id r hr (by rw [hskipped]; rfl), hlost⟩
          · exact hlost
        -- What is lost now was lost before, or was kept from its end by this very step.
        · rintro ⟨id, r', hr', hlost⟩
          rcases hu.exists_noted choices u choice u' hstep id r' hr' with
            ⟨node, r, events, lost, _, _, hr, hnoted⟩
          rcases hnoted.interrupted_of_lost hsound' hmove.cancelled hlost with hsame | hnow
          · rw [hsame] at hlost
            exact hmove.interrupted (ih.mpr ⟨node.id, r, hr, hlost⟩)
          · exact hnow

/-- A node that was skipped, and not because of cancelling, stands on what its
    predecessors put out. -/
theorem grounded_of_skipped (choices : List Choice) (s : RunState) (h : Course setup choices s) :
    ∀ id r, s.record? id = some r → r.status = .skipped → ¬ r.Lost → s.Grounded setup id := by
  refine induction (P := fun _ s => ∀ id r, s.record? id = some r → r.status = .skipped →
    ¬ r.Lost → s.Grounded setup id) ?_ ?_ choices s h
  · intro id r hr hskipped
    rcases RunState.start_fresh setup h.planned id r hr with ⟨node, hfresh⟩
    rw [hfresh] at hskipped
    exact absurd hskipped nofun
  · intro choices choice u u' hu ih hstep id r' hr' hskipped hkept
    have hext := RunState.extends_of_step hu.sound choice hstep
    rcases hu.exists_noted choices u choice u' hstep id r' hr' with
      ⟨node, r, events, lost, hid, _, hr, hnoted⟩
    rw [← hid]
    cases hnoted.notes with
    | nothing => exact (ih node.id r' hr hskipped hkept).mono hext
    | launched => exact absurd hskipped nofun
    | blocked _ _ hentering =>
        -- Its stage is the current one, so nothing was lost in the stages before.
        exact (hu.grounded_of_current choices u node.id (Or.inl hentering)).mono hext
    | ended t change events lost _ _ _ hends =>
        cases lost with
        | true => exact absurd (hends.withdrawn rfl r).2 hkept
        | false =>
            rcases (hends.decided rfl r).1 with hother | hother <;>
              exact absurd (hother.symm.trans hskipped) nofun
    | forgone => exact absurd ⟨_, rfl, rfl⟩ hkept

/-- Before a run is cancelled it is open, and cancelling changes nothing else. -/
theorem exists_cancelled (before after : List Choice) (s : RunState)
    (h : Course setup (before ++ .cancel :: after) s) :
    ∃ u, Course setup before u ∧ Course setup (before ++ [.cancel]) { u with cancelled := true } ∧
      Course setup ((before ++ [.cancel]) ++ after) s := by
  rw [List.append_cons] at h
  rcases h.exists_of_append (before ++ [.cancel]) after s with ⟨v, hv, _⟩
  rcases (RunState.follow_concat_eq_some_iff setup _ v before .cancel).mp hv.followed with
    ⟨u, hu, hstep⟩
  have hsame : v = { u with cancelled := true } := by
    cases (RunState.does_of_step setup u v .cancel hstep).2 with
    | cancel => rfl
    | work _ _ hwork => exact absurd hwork Bool.false_ne_true
  rw [hsame] at hv
  exact ⟨u, ⟨h.planned, hu⟩, hv, h⟩

/-- A run stays cancelled. -/
theorem cancelled_after (before rest : List Choice) (s : RunState)
    (h : Course setup ((before ++ [.cancel]) ++ rest) s) : s.cancelled = true := by
  rw [h.cancelled_iff, List.mem_append, List.mem_append]
  exact Or.inl (Or.inr (List.mem_singleton_self _))

/-- What has succeeded or failed in the end had done so before the run was
    cancelled. -/
theorem decided_before (before after : List Choice) (s : RunState)
    (h : Course setup (before ++ .cancel :: after) s) :
    ∃ u, Course setup before u ∧ ∀ id r, s.record? id = some r →
      r.status = .succeeded ∨ r.status = .failed → u.record? id = some r := by
  rcases h.exists_cancelled before after s with ⟨u, hu, hcancelled, hcourse⟩
  refine ⟨u, hu, ?_⟩
  refine induction_from (P := fun _ s => ∀ id r, s.record? id = some r →
    r.status = .succeeded ∨ r.status = .failed → u.record? id = some r) _ _ hcancelled
    (fun _ _ hr _ => hr) ?_ after s hcourse
  intro rest choice v v' hv ih hstep id r' hr' hstatus
  rcases hv.exists_noted _ v choice v' hstep id r' hr' with
    ⟨node, r, events, lost, hid, _, hr, hnoted⟩
  rw [← hid]
  -- The run is cancelled by now, so a status like this was there before the step.
  have hsame := hnoted.notes.eq_of_cancelled (hv.cancelled_after before rest v) hstatus
  rw [← hsame] at hr
  exact ih node.id r' hr hstatus

/-- A node that is held back owes that to one directly before it, which failed
    or is held back itself. -/
theorem owes_of_heldBack (choices : List Choice) (s : RunState) (h : Course setup choices s)
    (hover : s.status ≠ none) (id : NodeId) (hheld : (s.result setup).HeldBack id) :
    ∃ p, (s.result setup).Owes setup.graph p id ∧
      ((s.result setup).EndedAs p .failed ∨ (s.result setup).HeldBack p) := by
  have hsound := h.sound
  rcases hheld with ⟨r, error, hr, hskipped, herror, hcause⟩
  have hkept := r.not_lost_of_cause error herror hcause
  have hgrounded := h.grounded_of_skipped choices s id r hr hskipped hkept
  rcases hsound.settled_of_over hover id r hr with ⟨node, hid, _, _, _, hsettled⟩
  rw [← hid] at hgrounded
  cases hsettled with
  | succeeded _ hother | failed _ hother => exact absurd (hother.symm.trans hskipped) nofun
  | cancelled other _ _ hother hlost => exact absurd ⟨other, hother, hlost⟩ hkept
  | blocked p status _ _ _ _ _ _ hblocked =>
      have hdep := (setup.graph.mem_predecessorsOf setup.plan h.planned node.id p).mp hblocked.mem
      rw [hid] at hdep
      have hended : (s.result setup).EndedAs p status := hblocked.known
      rcases hblocked.ended with hstatus | hstatus
      · rw [hstatus] at hended
        exact ⟨p, ⟨hdep, Or.inl hended, r, error, hr, hskipped, herror, hcause⟩, Or.inl hended⟩
      · rw [hstatus] at hended
        refine ⟨p, ⟨hdep, Or.inr hended, r, error, hr, hskipped, herror, hcause⟩, Or.inr ?_⟩
        -- The predecessor was not lost, so it was skipped for the same reason.
        rcases hgrounded p hblocked.mem with ⟨rp, hrp, _, hkeptp⟩
        rcases hended with ⟨rp', hrp', hskippedp⟩
        have hsame : rp = rp' := Option.some.inj (hrp.symm.trans hrp')
        rw [← hsame] at hskippedp
        rcases hsound.settled_of_over hover p rp hrp with ⟨_, _, _, _, _, hsettledp⟩
        cases hsettledp with
        | succeeded _ hother | failed _ hother => exact absurd (hother.symm.trans hskippedp) nofun
        | cancelled other _ _ hother hlost => exact absurd ⟨other, hother, hlost⟩ hkeptp
        | blocked _ _ _ _ herrorp => exact ⟨rp, _, hrp, hskippedp, herrorp, rfl⟩

/-- A failure leads to every node that is held back. -/
theorem exists_failure_of_heldBack (choices : List Choice) (s : RunState)
    (h : Course setup choices s) (hover : s.status ≠ none) (i : Nat) :
    ∀ id, setup.graph.Depth id i → (s.result setup).HeldBack id →
      ∃ f, (s.result setup).EndedAs f .failed ∧
        Relation.TransGen ((s.result setup).Owes setup.graph) f id := by
  -- The induction is on the depth of the node: what it owes its skip to is nearer to the start.
  induction i using Nat.strong_induction_on with
  | h i ih =>
      intro id hdepth hheld
      rcases h.owes_of_heldBack choices s hover id hheld with ⟨p, howes, hfailed | hheldp⟩
      · exact ⟨p, hfailed, Relation.TransGen.single howes⟩
      · have hp := howes.depends.left
        rcases setup.graph.exists_depth_of_plan setup.plan h.planned p hp with ⟨j, hdepthj⟩
        have hlt := setup.graph.depth_lt_of_depends p id j i howes.depends hdepthj hdepth
        rcases ih j hlt p hdepthj hheldp with ⟨f, hfailed, hpath⟩
        exact ⟨f, hfailed, hpath.tail howes⟩

/-- What cancelling does to a run, whenever it is cancelled. -/
theorem cancelled_iff_withdrawn (choices : List Choice) (s : RunState)
    (h : Course setup choices s) (hover : s.status ≠ none) :
    (s.result setup).Withdraws setup choices := by
  have hsound := h.sound
  refine {
    status_iff := ?_
    blameless := fun source target hpath => ?_
    blamed := fun id hheld => ?_
    decided := fun before after heq => ?_ }
  · rw [hsound.status_eq hover, outcome_eq_cancelled_iff, h.interrupted_iff choices s]
    refine exists_congr fun id => exists_congr fun r => and_congr_right fun hr => ?_
    exact (and_iff_right_of_imp fun hlost => hsound.skipped_of_lost id r hr hlost).symm
  -- Only the first step of the path matters: what is held back stands on nothing lost.
  · rintro ⟨r, hr, _, hlost⟩
    rcases Relation.TransGen.head'_iff.mp hpath with ⟨next, howes, _⟩
    rcases howes.held with ⟨held, error, hheld, hskipped, herror, hcause⟩
    have hkept := held.not_lost_of_cause error herror hcause
    have hmem := (setup.graph.mem_predecessorsOf setup.plan h.planned next source).mpr howes.depends
    rcases h.grounded_of_skipped choices s next held hheld hskipped hkept source hmem with
      ⟨r', hr', _, hnot⟩
    have hsame : r' = r := Option.some.inj (hr'.symm.trans hr)
    exact hnot (hsame ▸ hlost)
  · rcases hheld with ⟨r, error, hr, hrest⟩
    have hid := hsound.hasNode_of_record? id r hr
    rcases setup.graph.exists_depth_of_plan setup.plan h.planned id hid with ⟨i, hdepth⟩
    exact h.exists_failure_of_heldBack choices s hover i id hdepth ⟨r, error, hr, hrest⟩
  · rw [heq] at h
    exact h.decided_before before after s

end Course

/-- The page is gone, so no model is asked, and the run is cancelled before the
    mail about that is written. -/
def mailWithdrawn : List Choice :=
  [.advance, .launch, .grant "fetch", .answer "fetch" (.error (.failed (.permanent "gone"))),
    .collect "fetch", .advance, .launch, .advance, .launch, .cancel, .grant "mail",
    .collect "mail", .advance]

/-- How the run ends, and why a node was skipped, if it was. -/
def observeSkipped (id : NodeId) (s : RunState) :
    Option RunStatus × Option (NodeStatus × Option NodeError) :=
  (s.status, (s.record? id).map fun r => (r.status, r.error))

theorem cancelled_iff_withdrawn_mailWithdrawn : ∃ s, Course report mailWithdrawn s ∧
    (s.result report).Withdrawn "mail" ∧ (s.result report).HeldBack "ask" ∧
    (s.result report).Withdraws report mailWithdrawn := by
  rcases Course.exists_of_observed report mailWithdrawn
    (fun s => (observeSkipped "mail" s, observeSkipped "ask" s))
    ((some .cancelled, some (.skipped, some ⟨.cancelled, "result discarded: run cancelled"⟩)),
      (some .cancelled, some (.skipped, some ⟨.predecessor, "predecessor fetch failed"⟩))) rfl rfl
    with ⟨s, hcourse, hseen⟩
  simp only [observeSkipped, Prod.mk.injEq, Option.map_eq_some_iff] at hseen
  rcases hseen with ⟨⟨hstatus, mail, hmail, hmailSkipped, hmailError⟩, -, ask, hask, haskSkipped,
    haskError⟩
  refine ⟨s, hcourse, ⟨mail, hmail, hmailSkipped, _, hmailError, rfl⟩,
    ⟨ask, _, hask, haskSkipped, haskError, rfl⟩, ?_⟩
  refine Course.cancelled_iff_withdrawn mailWithdrawn s hcourse ?_
  rw [hstatus]
  exact Option.some_ne_none _

end Workflow
