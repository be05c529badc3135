import Workflow.Proofs.Persistence

/-!
# How Ends Are Reported

What is said on the bus about the end of each node.

An end is noted in the record of its node and reported by an event, and the two
are written by different statements, one pair for each way to end. They are
followed here together. As long as the record says nothing of an end, nothing
was reported. Afterwards there is one report, and the record says what it says
(`Told`).

One way to end has no report. When the handler of a node breaks down and the
run is cancelled before that is noticed, the node is skipped without a word.
So every node of a run is reported once, but for those (`ends_reported`).

## Main definitions

* `NodeRun.ReportedBy`: A record says what a report says.
* `NodeRun.Dropped`: A node was skipped after its handler had broken down.
* `Told`: What was reported of a node, from what is known of it.
* `BrokeDown`: The handler of a node broke down.
* `Reported`: How the ends of all nodes of a run are reported.

## Theorems

* `Noted.told`: A step reports what it notes.
* `Course.told`: What was reported of a node at any moment of a run.
* `Course.fate_of_brokeDown`: What becomes of a node whose handler broke down.
* `Course.dropped_iff`: Which ends are not reported.
* `Course.ends_reported`: How the ends of all nodes of a run are reported.
* `skipped_without_report`: A run with a node that is not reported.
-/

namespace Workflow

namespace NodeRun

/-- A record says what a report of the end of its node says: the status, the
    attempts and the time of a node that succeeded or failed, or that the node
    was skipped. -/
def ReportedBy (r : NodeRun) (id : NodeId) : Happening → Prop
  | .nodeFinished node status attempts elapsedMs =>
      node = id ∧ status = r.status ∧ (r.status = .succeeded ∨ r.status = .failed) ∧
        attempts = r.attempts ∧ elapsedMs = r.elapsedMs
  | .nodeSkipped node _ => node = id ∧ r.status = .skipped
  | _ => False

/-- A node was skipped because the run was cancelled and its handler had broken
    down. -/
def Dropped (r : NodeRun) : Prop :=
  r.status = .skipped ∧ r.error = some ⟨.cancelled, RunState.cancelReason⟩

/-- A node is told to be dropped by the message of its error. -/
theorem not_dropped_of_message {r : NodeRun} {error : NodeError} (herror : r.error = some error)
    (hother : error.message ≠ RunState.cancelReason) : ¬ r.Dropped := by
  rintro ⟨_, hcancelled⟩
  rw [herror, Option.some.injEq] at hcancelled
  rw [hcancelled] at hother
  exact hother rfl

end NodeRun

namespace RunState

/-- What was reported of a node, from what is known of it. -/
inductive Told (s : RunState) (id : NodeId) (r : NodeRun) : Prop
  /-- It has not ended, and nothing was reported. -/
  | pending (hopen : r.status.isTerminal = false) (hreports : s.reports id = [])
  /-- It has ended, and that was reported once. -/
  | told (report : Happening) (hterminal : r.status.isTerminal = true) (hkept : ¬ r.Dropped)
      (hreports : s.reports id = [report]) (hreport : r.ReportedBy id report)
  /-- It has ended, and that was not reported. -/
  | untold (hdropped : r.Dropped) (hreports : s.reports id = [])

variable {setup : Setup} {s s' : RunState}

/-- Nothing was reported of a node that is not known to have ended. -/
theorem Told.reports_eq_nil {id : NodeId} {r : NodeRun} (h : s.Told id r)
    (hopen : r.status.isTerminal = false) : s.reports id = [] := by
  cases h with
  | pending _ hreports | untold _ hreports => exact hreports
  | told _ hterminal => exact absurd (hterminal.symm.trans hopen) Bool.true_eq_false.mp

/-- What is noted at the end of a task is what is reported of it. -/
theorem told_of_ends {t : Task} {change : NodeRun → NodeRun} {events : List Happening}
    {lost : Bool} (h : t.Ends setup s change events lost) (node : Node)
    (hreports : s'.reports t.node = events) :
    s'.Told t.node (change (NodeRun.ofNode node).launched) := by
  cases h with
  | settled atMs result =>
      cases result with
      | ok output =>
          -- Nothing of this was lost to cancelling.
          exact .told _ rfl (fun hdropped => absurd hdropped.1 nofun) hreports
            ⟨rfl, rfl, Or.inl rfl, rfl, rfl⟩
      | error error =>
          exact .told _ rfl (fun hdropped => absurd hdropped.1 nofun) hreports
            ⟨rfl, rfl, Or.inr rfl, rfl, rfl⟩
  | discarded atMs result =>
      exact .told _ rfl (NodeRun.not_dropped_of_message rfl (by decide)) hreports ⟨rfl, rfl⟩
  | missed =>
      exact .told _ rfl (fun hdropped => absurd hdropped.1 nofun) hreports
        ⟨rfl, rfl, Or.inr rfl, rfl, rfl⟩
  | dropped => exact .untold ⟨rfl, rfl⟩ hreports

/-- A step reports what it notes. -/
theorem Noted.told {node : Node} {r r' : NodeRun} {events : List Happening} {lost : Bool}
    (h : s.Noted setup s' node r r' events lost) (htold : s.Told node.id r) :
    s'.Told node.id r' := by
  have hreports := h.reports
  -- Whatever is noted, is noted in a record that tells of no end, so nothing was reported before.
  cases h.notes with
  | nothing =>
      rw [List.append_nil] at hreports
      cases htold with
      | pending hopen hbefore => exact .pending hopen (hreports.trans hbefore)
      | told report hterminal hkept hbefore hreport =>
          exact .told report hterminal hkept (hreports.trans hbefore) hreport
      | untold hdropped hbefore => exact .untold hdropped (hreports.trans hbefore)
  | launched hfresh =>
      rw [htold.reports_eq_nil (by rw [hfresh]; rfl)] at hreports
      exact .pending rfl hreports
  | blocked predecessor status _ hfresh =>
      rw [htold.reports_eq_nil (by rw [hfresh]; rfl)] at hreports
      refine .told _ rfl ?_ hreports ⟨rfl, rfl⟩
      exact fun hdropped => absurd (congrArg NodeError.cause (Option.some.inj hdropped.2)) nofun
  | ended t change events lost _ hnode hworking hends =>
      rw [htold.reports_eq_nil (by rw [hworking]; rfl), ← hnode] at hreports
      rw [hworking, ← hnode]
      exact told_of_ends hends node hreports
  | forgone hfresh =>
      rw [htold.reports_eq_nil (by rw [hfresh]; rfl)] at hreports
      exact .told _ rfl (NodeRun.not_dropped_of_message rfl (by decide)) hreports ⟨rfl, rfl⟩

/-- A task that broke down stays until it is taken for failed, or dropped. Its
    attempts are not noted then. -/
theorem Move.task?_of_brokenDown (hmove : s.Move setup s') (h : s.Sound setup)
    (hopen : s.status = none) (t : Task) (htask : s.task? t.node = some t)
    (hphase : t.phase = .brokenDown) :
    s'.task? t.node = some t ∨
      ∃ r, s'.record? t.node = some r ∧ r.attempts = 0 ∧ (r.status = .failed ∨ r.Dropped) := by
  cases hmove with
  | pass | block | enter => exact Or.inl htask
  | finish | abandon =>
      rw [finish_eq]
      exact Or.inl htask
  | launch id rest node hentering hnode =>
      have hid := (setup.graph.mem_of_node? id node hnode).2
      rw [← hid] at hentering hnode ⊢
      have hnone := (h.upcoming_of_entering node rest hentering hopen hnode).2.1
      refine Or.inl ((task?_enlist (s.leave rest) node.id t.node _ rfl hnone).trans ?_)
      rw [if_neg]
      · exact htask
      -- What is launched has no task yet.
      · intro heq
        rw [heq, hnone] at htask
        exact absurd htask nofun
  | go other next events hother hgoes =>
      refine Or.inl ((s.task?_put next t.node).trans ?_)
      rw [hgoes.node, if_neg]
      · exact htask
      -- A task that broke down does not go on.
      · intro heq
        rw [heq, hother, Option.some.injEq] at htask
        rw [← htask] at hphase
        cases hgoes with
        | turnedAway hphase' | begins hphase' | succeeds _ hphase' | rests _ hphase'
        | fails _ hphase' | breaksDown hphase' | wakes _ _ hphase' | cutShort _ _ hphase' =>
            exact absurd (hphase.symm.trans hphase') nofun
  | close other change events lost hother _ hends =>
      by_cases hid : t.node = other.node
      -- It is closed without an answer, so it was missed, or dropped if the run was cancelled.
      · rw [hid, hother, Option.some.injEq] at htask
        rw [htask] at hother hends ⊢
        rcases h.exists_node_of_task? t hother with ⟨node, hnamed, hnode⟩
        have hworking := (h.working_of_task? t hother node hnode hnamed).1
        have hchanged := record?_amend_self (s.drop t.node) t.node change _ hworking
        refine Or.inr ⟨_, hchanged, ?_⟩
        cases hends with
        | settled _ _ hphase' | discarded _ _ hphase' =>
            exact absurd (hphase.symm.trans hphase') nofun
        | missed => exact ⟨rfl, Or.inl rfl⟩
        | dropped => exact ⟨rfl, Or.inr ⟨rfl, rfl⟩⟩
      · refine Or.inl ((s.task?_drop other.node t.node).trans ?_)
        rw [if_neg hid, htask]

end RunState

/-- The handler of a node broke down: at some moment of the run it will never
    answer. -/
def BrokeDown (setup : Setup) (choices : List Choice) (id : NodeId) : Prop :=
  ∃ earlier, earlier <+: choices ∧ ∃ u t, Course setup earlier u ∧
    u.task? id = some t ∧ t.phase = .brokenDown

/-- How the ends of the nodes of a run are reported. A node is reported once, by
    an event that says what its record says, unless it was skipped after its
    handler had broken down. Then the run was cancelled, and nothing is
    reported. -/
structure Reported (setup : Setup) (choices : List Choice) (s : RunState) : Prop where
  once : ∀ id run, (s.result setup).node? id = some run →
    ¬ (BrokeDown setup choices id ∧ run.status = .skipped) →
    ∃ report, s.reports id = [report] ∧ run.ReportedBy id report
  silent : ∀ id run, (s.result setup).node? id = some run →
    BrokeDown setup choices id → run.status = .skipped →
    s.reports id = [] ∧ run.Lost ∧ .cancel ∈ choices

namespace Course

variable {setup : Setup}

/-- What was reported of a node at any moment of a run. -/
theorem told (choices : List Choice) (s : RunState) (h : Course setup choices s) :
    ∀ id r, s.record? id = some r → s.Told id r := by
  refine induction (P := fun _ s => ∀ id r, s.record? id = some r → s.Told id r) ?_ ?_ choices s h
  · intro id r hr
    rcases RunState.start_fresh setup h.planned id r hr with ⟨node, hfresh⟩
    exact .pending (by rw [hfresh]; rfl) rfl
  · intro choices choice u u' hu ih hstep id r' hr'
    rcases hu.exists_noted choices u choice u' hstep id r' hr' with
      ⟨node, r, events, lost, hid, _, hr, hnoted⟩
    rw [← hid]
    exact hnoted.told (ih node.id r hr)

/-- A node is dropped only when its handler has broken down. -/
theorem brokeDown_of_dropped (choices : List Choice) (s : RunState) (h : Course setup choices s) :
    ∀ id r, s.record? id = some r → r.Dropped →
      BrokeDown setup choices id ∧ s.cancelled = true := by
  refine induction (P := fun choices s => ∀ id r, s.record? id = some r → r.Dropped →
    BrokeDown setup choices id ∧ s.cancelled = true) ?_ ?_ choices s h
  · intro id r hr hdropped
    -- Nobody is dropped at the start.
    rcases RunState.start_fresh setup h.planned id r hr with ⟨node, hfresh⟩
    rw [hfresh] at hdropped
    exact absurd hdropped.1 nofun
  · intro choices choice u u' hu ih hstep id r' hr' hdropped
    have hext := RunState.extends_of_step hu.sound choice hstep
    -- What one step notes of a node decides whether it is dropped by it.
    rcases hu.exists_noted choices u choice u' hstep id r' hr' with
      ⟨node, r, events, lost, hid, _, hr, hnoted⟩
    rw [← hid]
    cases hnoted.notes with
    | nothing =>
        -- An earlier breakdown is still one.
        rcases ih node.id r' hr hdropped with ⟨⟨earlier, hearlier, hbroken⟩, hcancelled⟩
        exact ⟨⟨earlier, hearlier.trans (List.prefix_append choices [choice]), hbroken⟩,
          hext.cancelled hcancelled⟩
    | launched => exact absurd hdropped.1 nofun
    | blocked => exact absurd (congrArg NodeError.cause (Option.some.inj hdropped.2)) nofun
    | forgone => exact absurd hdropped (NodeRun.not_dropped_of_message rfl (by decide))
    | ended t change events lost htask hnode _ hends =>
        cases hends with
        | settled _ result => cases result <;> exact absurd hdropped.1 nofun
        | missed => exact absurd hdropped.1 nofun
        | discarded => exact absurd hdropped (NodeRun.not_dropped_of_message rfl (by decide))
        | dropped hphase hcancelled =>
            rw [hnode] at htask
            -- The tasks that broke down before are dropped by cancelling them.
            exact ⟨⟨choices, List.prefix_append choices [choice], u, t, hu, htask, hphase⟩,
              hext.cancelled hcancelled⟩

/-- What becomes of a node whose handler broke down: it waits for that to be
    noticed, and then it has failed or is dropped, and its attempts are not
    noted. -/
theorem fate_of_brokeDown (choices : List Choice) (s : RunState) (h : Course setup choices s)
    (id : NodeId) (hbroken : BrokeDown setup choices id) :
    (∃ t, s.task? id = some t ∧ t.phase = .brokenDown) ∨
      ∃ r, s.record? id = some r ∧ r.attempts = 0 ∧ (r.status = .failed ∨ r.Dropped) := by
  rcases hbroken with ⟨earlier, ⟨later, heq⟩, u, t, hu, htask, hphase⟩
  rw [← heq] at h
  -- The induction is on what happens after the breakdown. The task stays as it is, and once it
  -- is gone, the record of its end stays.
  refine induction_from (P := fun _ s =>
    (∃ t, s.task? id = some t ∧ t.phase = .brokenDown) ∨
      ∃ r, s.record? id = some r ∧ r.attempts = 0 ∧ (r.status = .failed ∨ r.Dropped)) earlier u hu
    (Or.inl ⟨t, htask, hphase⟩) ?_ later s h
  intro rest choice v v' hv ih hstep
  rcases RunState.does_of_step setup v v' choice hstep with ⟨hopen, hdoes⟩
  rcases ih with ⟨t, htask, hphase⟩ | ⟨r, hr, hattempts, hended⟩
  · cases hdoes with
    | tick | cancel => exact Or.inl ⟨t, htask, hphase⟩
    | work _ _ _ hmove =>
        have hid := v.node_of_task? id t htask
        rw [← hid] at htask ⊢
        exact (hmove.task?_of_brokenDown hv.sound hopen t htask hphase).imp_left
          fun hsame => ⟨t, hsame, hphase⟩
  · have hterminal : r.status.isTerminal = true := by
      rcases hended with hstatus | hdropped
      · rw [hstatus]
        rfl
      · rw [hdropped.1]
        rfl
    exact Or.inr ⟨r, (RunState.extends_of_step hv.sound choice hstep).record id r hr hterminal,
      hattempts, hended⟩

/-- When a run is over, the record of a node tells whether its end is one of
    those that are not reported. -/
theorem dropped_iff (choices : List Choice) (s : RunState) (h : Course setup choices s)
    (hover : s.status ≠ none) (id : NodeId) (run : NodeRun) (hrun : s.record? id = some run) :
    run.Dropped ↔ BrokeDown setup choices id ∧ run.status = .skipped := by
  constructor
  · intro hdropped
    exact ⟨(h.brokeDown_of_dropped choices s id run hrun hdropped).1, hdropped.1⟩
  · rintro ⟨hbroken, hskipped⟩
    rcases h.fate_of_brokeDown choices s id hbroken with ⟨t, htask, _⟩ | ⟨r, hr, _, hended⟩
    -- Nothing waits any more when the run is over.
    · rw [← s.node_of_task? id t htask] at htask
      exact absurd (h.sound.open_of_task? t htask) hover
    · rw [hrun, Option.some.injEq] at hr
      rw [← hr] at hended
      exact hended.resolve_left fun hfailed => absurd (hfailed.symm.trans hskipped) nofun

/-- How the ends of the nodes of a run are reported. -/
theorem ends_reported (choices : List Choice) (s : RunState) (h : Course setup choices s)
    (hover : s.status ≠ none) : Reported setup choices s := by
  constructor
  case once =>
    intro id run hrun hnot
    rcases h.sound.settled_of_over hover id run hrun with ⟨_, _, _, _, _, hsettled⟩
    -- What is over is not pending, and what is not told was dropped.
    cases h.told choices s id run hrun with
    | pending hopen => exact absurd (hsettled.isTerminal.symm.trans hopen) Bool.true_eq_false.mp
    | told report _ _ hreports hreport => exact ⟨report, hreports, hreport⟩
    | untold hdropped =>
        exact absurd ((h.dropped_iff choices s hover id run hrun).mp hdropped) hnot
  case silent =>
    intro id run hrun hbroken hskipped
    have hdropped := (h.dropped_iff choices s hover id run hrun).mpr ⟨hbroken, hskipped⟩
    have hcancelled := (h.brokeDown_of_dropped choices s id run hrun hdropped).2
    -- And what was dropped has nothing told.
    refine ⟨?_, ⟨_, hdropped.2, rfl⟩, (h.cancelled_iff choices s).mp hcancelled⟩
    cases h.told choices s id run hrun with
    | pending _ hreports | untold _ hreports => exact hreports
    | told _ _ hkept => exact absurd hdropped hkept

end Course

/-- The way in which cutting a run short reports its nodes. -/
theorem ends_reported_cutShort : ∃ s, Course report cutShort s ∧ s.status = some .cancelled ∧
    Reported report cutShort s := by
  rcases Course.exists_of_observed report cutShort RunState.status (some .cancelled) rfl rfl with
    ⟨s, hcourse, hstatus⟩
  refine ⟨s, hcourse, hstatus, hcourse.ends_reported cutShort s ?_⟩
  rw [hstatus]
  exact Option.some_ne_none _

/-- A handler breaks down, and the run is cancelled before that is noticed. -/
def brokenOff : List Choice :=
  [.advance, .launch, .grant "fetch", .crash "fetch", .cancel, .sweep, .advance]

/-- A node is skipped, and its end is not reported. -/
theorem skipped_without_report : ∃ s run, Course report brokenOff s ∧
    s.status = some .cancelled ∧ (s.result report).node? "fetch" = some run ∧
    run.status = .skipped ∧ s.reports "fetch" = [] := by
  rcases Course.exists_of_observed report brokenOff
    (fun s => (s.status, s.reports "fetch", (s.record? "fetch").map NodeRun.status))
    (some .cancelled, [], some .skipped) rfl rfl with ⟨s, hcourse, hseen⟩
  simp only [Prod.mk.injEq, Option.map_eq_some_iff] at hseen
  rcases hseen with ⟨hstatus, hreports, run, hrun, hskipped⟩
  exact ⟨s, run, hcourse, hstatus, hrun, hskipped, hreports⟩

end Workflow
