import Workflow.Proofs.Conduct
import Workflow.Proofs.Containment

/-!
# Runs That Agree

Two runs with the same to do come to the same, however they are scheduled.

Let the handlers go by their calls, and let two runs be given the same graph,
for the same identity, with the same input and the same budgets. They may
differ in everything that is a matter of scheduling: how many workers there
are, how long the rests and everything else take, in which order the nodes of a
stage are launched on workers, end and are collected, and whether and when they
are cancelled. Then a node that neither run has lost to cancelling has the
same fate in both: the same status, output, error and number of attempts
(`fates_agree`). Runs that nobody cancels have the same status, too.

The argument goes stage by stage. A node that was kept stands on predecessors
that were kept, whose fates are the same in both runs because they are nearer
to the first stage. So it is blocked in both by the same predecessor, or its
handler is given the same in both, says the same in every attempt, and stops at
the same one.

## Main definitions

* `Setup.SameWork`: Two runs have the same to do.

## Theorems

* `fate_eq`: A node that was kept in two runs has the same fate in both.
* `fates_agree`: Runs with the same to do agree.
-/

namespace Workflow

/-- Two runs have the same to do. Nothing is said of what they are called, of
    their workers and rests, and of when they start. -/
structure Setup.SameWork (setup setup' : Setup) : Prop where
  graph : setup'.graph = setup.graph
  identity : setup'.identity = setup.identity
  input : setup'.input = setup.input
  budget : setup'.budget = setup.budget

namespace RunState

variable {conduct : Conduct} {setup setup' : Setup} {s u : RunState}

theorem plan_eq (hsame : setup.SameWork setup') (hsound : s.Sound setup)
    (hsound' : u.Sound setup') : setup'.plan = setup.plan := by
  have hplan := hsound'.planned
  rw [hsame.graph, hsound.planned, Except.ok.injEq] at hplan
  exact hplan.symm

/-- A node that was kept in two runs has the same fate in both. -/
theorem fate_eq (hsame : setup.SameWork setup') (hsound : s.Sound setup)
    (hsound' : u.Sound setup') (h : s.Faithful conduct setup) (h' : u.Faithful conduct setup')
    (i : Nat) : ∀ id, setup.graph.Depth id i → ∀ r r', s.record? id = some r →
      u.record? id = some r' → r.Kept → r'.Kept → r'.fate = r.fate := by
  have hplan := plan_eq hsame hsound hsound'
  -- The induction is on the depth of the node: its predecessors are nearer to the first stage.
  induction i using Nat.strong_induction_on with
  | h i ih =>
      intro id hdepth r r' hr hr' hkept hkept'
      rcases setup.graph.exists_node? id (setup.graph.depth_hasNode id i hdepth) with
        ⟨node, hid, hnode⟩
      rw [← hid] at hr hr' hdepth
      have hended := h.ended node r hnode hr hkept
      have hended' := h'.ended node r' (by rw [hsame.graph]; exact hnode) hr' hkept'
      -- Both runs see the same of the predecessors once these were kept in both.
      have hsources : s.Grounded setup node.id → u.Grounded setup' node.id →
          u.blocker? setup' node.id = s.blocker? setup node.id ∧
            u.inputsOf setup' node.id = s.inputsOf setup node.id := by
        intro hgrounded hgrounded'
        refine sources_congr hplan fun p hp => ?_
        have hdep := (setup.graph.mem_predecessorsOf setup.plan hsound.planned node.id p).mp hp
        rcases setup.graph.exists_depth_of_plan setup.plan hsound.planned p hdep.left with
          ⟨j, hdepthj⟩
        have hlt := setup.graph.depth_lt_of_depends p node.id j i hdep hdepthj hdepth
        rcases hgrounded p hp with ⟨q, hq, hqkept⟩
        rcases hgrounded' p (by rw [hplan]; exact hp) with ⟨q', hq', hqkept'⟩
        have hfate := ih j hlt p hdepthj q q' hq hq' hqkept hqkept'
        exact ⟨q, q', hq, hq', congrArg Fate.status hfate, congrArg Fate.output hfate⟩
      cases hended with
      | tried n hgrounded hfree hlasts hfate =>
          cases hended' with
          | tried n' hgrounded' hfree' hlasts' hfate' =>
              rcases hsources hgrounded hgrounded' with ⟨-, hinputs⟩
              rw [replies_eq hsame.identity hsame.input hinputs, hsame.budget] at hlasts'
              rw [replies_eq hsame.identity hsame.input hinputs] at hfate'
              rw [hfate, hfate', hlasts.unique hlasts']
          | blocked predecessor status hgrounded' hkind hblocker hfate' =>
              rcases hsources hgrounded hgrounded' with ⟨hsee, -⟩
              rw [hsee] at hblocker
              rcases hfree with htolerant | hnone
              · exact absurd (htolerant.symm.trans hkind) Bool.true_eq_false.mp
              · exact absurd (hblocker.symm.trans hnone) (Option.some_ne_none _)
      | blocked predecessor status hgrounded hkind hblocker hfate =>
          cases hended' with
          | tried n' hgrounded' hfree' hlasts' hfate' =>
              rcases hsources hgrounded hgrounded' with ⟨hsee, -⟩
              rw [hsee] at hfree'
              rcases hfree' with htolerant | hnone
              · exact absurd (htolerant.symm.trans hkind) Bool.true_eq_false.mp
              · exact absurd (hblocker.symm.trans hnone) (Option.some_ne_none _)
          | blocked predecessor' status' hgrounded' hkind' hblocker' hfate' =>
              rcases hsources hgrounded hgrounded' with ⟨hsee, -⟩
              rw [hsee, hblocker, Option.some.injEq, Prod.mk.injEq] at hblocker'
              rw [hfate, hfate', hblocker'.1, hblocker'.2]

/-- How the nodes of two runs ended decides how the runs did. -/
theorem Calm.status_eq_of_endedAs (h : s.Calm setup) (h' : u.Calm setup')
    (hgraph : setup'.graph = setup.graph)
    (hended : ∀ id status, (u.result setup').EndedAs id status ↔
      (s.result setup).EndedAs id status) :
    (u.result setup').status = (s.result setup).status := by
  have hcases := h'.status_cases
  simp only [hended, hgraph] at hcases
  -- The status follows from how the nodes ended, and both runs have ended alike.
  rcases h.status_cases with ⟨hs, hfailure⟩ | ⟨hs, hnone, hmissing⟩ | ⟨hs, hall⟩
  · rcases hcases with ⟨hu, -⟩ | ⟨-, hnot, -⟩ | ⟨-, hall⟩
    · rw [hs, hu]
    · exact absurd hfailure hnot
    · rcases hfailure with ⟨f, hfailed, -⟩
      exact absurd ⟨f, Or.inl hfailed⟩ (h.not_missing_iff.mpr hall)
  · rcases hcases with ⟨-, hfailure⟩ | ⟨hu, -, -⟩ | ⟨-, hall⟩
    · exact absurd hfailure hnone
    · rw [hs, hu]
    · exact absurd hmissing (h.not_missing_iff.mpr hall)
  · rcases hcases with ⟨-, f, hfailed, -⟩ | ⟨-, -, hmissing⟩ | ⟨hu, -⟩
    · exact absurd ⟨f, Or.inl hfailed⟩ (h.not_missing_iff.mpr hall)
    · exact absurd hmissing (h.not_missing_iff.mpr hall)
    · rw [hs, hu]

end RunState

namespace Course

variable {conduct : Conduct} {setup setup' : Setup}

/-- Runs with the same to do agree on every node that neither has lost to
    cancelling, and when nobody cancels them they agree on how they ended. -/
theorem fates_agree (choices choices' : List Choice) (s u : RunState)
    (h : Course setup choices s) (h' : Course setup' choices' u)
    (hsame : setup.SameWork setup')
    (hobeys : (RunState.start setup).obeys conduct setup choices = true)
    (hobeys' : (RunState.start setup').obeys conduct setup' choices' = true)
    (hover : s.status ≠ none) (hover' : u.status ≠ none) :
    (∀ id, setup.graph.HasNode id → ∃ r r', (s.result setup).node? id = some r ∧
      (u.result setup').node? id = some r' ∧ (¬ r.Lost → ¬ r'.Lost → r'.fate = r.fate)) ∧
    (.cancel ∉ choices → .cancel ∉ choices' →
      (u.result setup').status = (s.result setup).status) := by
  have hagree : ∀ id, setup.graph.HasNode id → ∃ r r', s.record? id = some r ∧
      u.record? id = some r' ∧ (¬ r.Lost → ¬ r'.Lost → r'.fate = r.fate) := by
    intro id hid
    rcases h.sound.exists_record? id hid with ⟨r, hr⟩
    rcases h'.sound.exists_record? id (by rw [hsame.graph]; exact hid) with ⟨r', hr'⟩
    rcases setup.graph.exists_depth_of_plan setup.plan h.planned id hid with ⟨i, hdepth⟩
    refine ⟨r, r', hr, hr', fun hlost hlost' => ?_⟩
    -- The runs are over, so both records are those of a node that has ended.
    rcases h.sound.settled_of_over hover id r hr with ⟨_, _, _, _, _, hsettled⟩
    rcases h'.sound.settled_of_over hover' id r' hr' with ⟨_, _, _, _, _, hsettled'⟩
    exact RunState.fate_eq hsame h.sound h'.sound (h.faithful choices s hobeys)
      (h'.faithful choices' u hobeys') i id hdepth r r' hr hr' ⟨hsettled.isTerminal, hlost⟩
      ⟨hsettled'.isTerminal, hlost'⟩
  refine ⟨hagree, fun hcalm hcalm' => ?_⟩
  have hend := h.calm hover hcalm
  have hend' := h'.calm hover' hcalm'
  -- Nobody cancelled, so no record is lost, and the nodes ended alike.
  have hstatus : ∀ id r r', s.record? id = some r → u.record? id = some r' →
      r'.status = r.status := by
    intro id r r' hr hr'
    rcases h.sound.settled_of_over hover id r hr with ⟨_, _, _, _, _, hsettled⟩
    rcases h'.sound.settled_of_over hover' id r' hr' with ⟨_, _, _, _, _, hsettled'⟩
    have hkept := h.sound.kept_of_isTerminal hend.calm id r hr hsettled.isTerminal
    have hkept' := h'.sound.kept_of_isTerminal hend'.calm id r' hr' hsettled'.isTerminal
    rcases hagree id (h.sound.hasNode_of_record? id r hr) with ⟨q, q', hq, hq', hfate⟩
    rw [hr, Option.some.injEq] at hq
    rw [hr', Option.some.injEq] at hq'
    rw [← hq, ← hq'] at hfate
    exact congrArg Fate.status (hfate hkept.2 hkept'.2)
  refine hend.status_eq_of_endedAs hend' hsame.graph fun id status => ?_
  rw [RunState.endedAs_iff, RunState.endedAs_iff]
  constructor
  · rintro ⟨r', hr', hended⟩
    have hid := h'.sound.hasNode_of_record? id r' hr'
    rw [hsame.graph] at hid
    rcases h.sound.exists_record? id hid with ⟨r, hr⟩
    exact ⟨r, hr, (hstatus id r r' hr hr').symm.trans hended⟩
  · rintro ⟨r, hr, hended⟩
    have hid := h.sound.hasNode_of_record? id r hr
    rw [← hsame.graph] at hid
    rcases h'.sound.exists_record? id hid with ⟨r', hr'⟩
    exact ⟨r', hr', (hstatus id r r' hr hr').trans hended⟩

end Course

/-- Two pages are fetched, and a mail is sent with what is on them. -/
def digest : Setup where
  run := "r1"
  graphId := "digest"
  graph := Graph.ofPairs [("left", .urlScraper), ("mail", .email), ("right", .urlScraper)]
    [("left", "mail"), ("right", "mail")]
  plan := ⟨[["left", "right"], ["mail"]],
    [("left", []), ("mail", ["left", "right"]), ("right", [])]⟩
  workers := 1
  budget := fun _ => 1
  restMs := fun _ _ => 5
  start := ⟨0, 0⟩

/-- The same with more workers and longer rests. -/
def digestTwice : Setup := { digest with run := "r2", workers := 2, restMs := fun _ _ => 9 }

/-- The first page times out once; everything else hands on what it is given. -/
def slowLeft : Conduct := fun _ call =>
  if call.node = "left" ∧ call.attempt = 1 then some (.error (.timedOut 30000))
  else some (.ok (.object call.inputs))

/-- One page is fetched after the other. -/
def oneByOne : List Choice :=
  [.advance, .launch, .launch, .grant "left", .answer "left" (.error (.timedOut 30000)), .tick 5,
    .wake "left", .answer "left" (.ok (.object [])), .grant "right",
    .answer "right" (.ok (.object [])), .collect "left", .collect "right", .advance, .launch,
    .grant "mail", .answer "mail" (.ok (.object [("left", .object []), ("right", .object [])])),
    .collect "mail", .advance]

/-- Both pages are fetched at once, and the run is cancelled before the mail is
    sent. -/
def bothAtOnce : List Choice :=
  [.advance, .launch, .launch, .grant "right", .grant "left",
    .answer "left" (.error (.timedOut 30000)), .answer "right" (.ok (.object [])),
    .collect "right", .tick 9, .wake "left", .answer "left" (.ok (.object [])), .collect "left",
    .advance, .launch, .cancel, .grant "mail", .collect "mail", .advance]

theorem fates_agree_digest : ∃ s u, Course digest oneByOne s ∧ Course digestTwice bothAtOnce u ∧
    s.status = some .succeeded ∧ u.status = some .cancelled ∧
    ∀ id, digest.graph.HasNode id → ∃ r r', (s.result digest).node? id = some r ∧
      (u.result digestTwice).node? id = some r' ∧
      (¬ r.Lost → ¬ r'.Lost → r'.fate = r.fate) := by
  rcases Course.exists_of_observed digest oneByOne RunState.status (some .succeeded) rfl rfl with
    ⟨s, hs, hstatus⟩
  rcases Course.exists_of_observed digestTwice bothAtOnce RunState.status (some .cancelled) rfl rfl
    with ⟨u, hu, hstatus'⟩
  -- Both runs are over, one of them because it was cancelled.
  have hover : s.status ≠ none := by
    rw [hstatus]
    exact Option.some_ne_none _
  have hover' : u.status ≠ none := by
    rw [hstatus']
    exact Option.some_ne_none _
  have hobeys : (RunState.start digest).obeys slowLeft digest oneByOne = true := by
    decide +kernel
  have hobeys' : (RunState.start digestTwice).obeys slowLeft digestTwice bothAtOnce = true := by
    decide +kernel
  exact ⟨s, u, hs, hu, hstatus, hstatus', (Course.fates_agree oneByOne bothAtOnce s u hs hu
    ⟨rfl, rfl, rfl, rfl⟩ hobeys hobeys' hover hover').1⟩

end Workflow
