import Workflow.Proofs.Containment
import Workflow.Proofs.Persistence

/-!
# What Handlers Are Given

What an attempt rests on, whatever happens around it.

A node is worked on while its stage is the current one. The nodes that it
depends on are in stages that are over, so they have ended, and what is known
of them is there to stay. The nodes of later stages are still to be launched,
so none of them was attempted.

The outputs that a handler is given were taken from the records when its node
was launched. The records they were taken from do not change any more, so in
every attempt they are still what is recorded (`inputs_eq`), and they can be
read off the records at any later time (`supplied`).

## Main definitions

* `output?`: The output that is recorded of a node.
* `Supplied`: What a handler is given, and what has become of other nodes then.

## Theorems

* `find?_inputsOf`: Which outputs are handed on.
* `Sound.starts_of_stage_le`: Nothing of a later stage was attempted.
* `Course.inputs_eq`: A task keeps the outputs that are recorded.
* `Course.supplied`: What handlers are given.
-/

namespace Workflow

namespace Entries

variable {β : Type}

/-- What is found where some of the keys that are listed have a value. -/
theorem find?_filterMap (f : String → Option β) (key : String) (keys : List String) :
    find? key (keys.filterMap fun k => (f k).map fun value => (k, value)) =
      if key ∈ keys then f key else none := by
  induction keys with
  | nil => rfl
  | cons k rest ih =>
      by_cases hk : k = key
      · rw [if_pos (hk ▸ List.mem_cons_self)]
        cases hf : f k with
        | some value =>
            rw [List.filterMap_cons_some (by rw [hf, Option.map_some]), find?, if_pos hk, ← hk, hf]
        | none =>
            -- A key without a value is not found further on either.
            rw [List.filterMap_cons_none (by rw [hf, Option.map_none]), ih, ← hk, hf, ite_self]
      · have hmem : key ∈ k :: rest ↔ key ∈ rest := by
          rw [List.mem_cons]
          exact or_iff_right fun h => hk h.symm
        simp only [hmem]
        rw [← ih]
        cases hf : f k with
        | some value =>
            rw [List.filterMap_cons_some (by rw [hf, Option.map_some]), find?, if_neg hk]
        | none => rw [List.filterMap_cons_none (by rw [hf, Option.map_none])]

theorem ordered_filterMap (f : String → Option β) (keys : List String)
    (h : keys.Pairwise (· < ·)) :
    Ordered (keys.filterMap fun k => (f k).map fun value => (k, value)) := by
  refine h.filterMap _ ?_
  intro k k' hlt entry hentry entry' hentry'
  rcases Option.map_eq_some_iff.mp hentry with ⟨_, _, heq⟩
  rcases Option.map_eq_some_iff.mp hentry' with ⟨_, _, heq'⟩
  rw [← heq, ← heq']
  exact hlt

end Entries

namespace RunState

/-- The output that is recorded of a node that succeeded. -/
def output? (s : RunState) (id : NodeId) : Option Json :=
  (s.record? id).bind fun r => if r.status = .succeeded then r.output else none

variable {setup : Setup} {s : RunState}

theorem output?_eq_some_iff (s : RunState) (id : NodeId) (output : Json) :
    s.output? id = some output ↔
      ∃ r, s.record? id = some r ∧ r.status = .succeeded ∧ r.output = some output := by
  rw [output?, Option.bind_eq_some_iff]
  refine exists_congr fun r => and_congr_right fun _ => ?_
  rw [Option.ite_none_right_eq_some]

theorem inputsOf_eq (setup : Setup) (s : RunState) (id : NodeId) :
    s.inputsOf setup id = (setup.plan.predecessorsOf id).filterMap fun p =>
      (s.output? p).map fun output => (p, output) := by
  rw [inputsOf]
  refine List.filterMap_congr fun p _ => ?_
  rw [output?, record?]
  cases Entries.find? p s.records with
  | none => rfl
  | some r =>
      by_cases hstatus : r.status = .succeeded
      · simp only [hstatus, if_true, Option.bind_some]
      · simp only [hstatus, if_false, Option.bind_some, Option.map_none]

/-- The outputs that are handed on are those of the predecessors that
    succeeded. -/
theorem find?_inputsOf (h : s.Sound setup) (id p : NodeId) (output : Json) :
    Entries.find? p (s.inputsOf setup id) = some output ↔
      setup.graph.Depends p id ∧
        ∃ r, s.record? p = some r ∧ r.status = .succeeded ∧ r.output = some output := by
  rw [inputsOf_eq, Entries.find?_filterMap, Option.ite_none_right_eq_some,
    setup.graph.mem_predecessorsOf setup.plan h.planned, output?_eq_some_iff]

theorem ordered_inputsOf (h : s.Sound setup) (id : NodeId) :
    Entries.Ordered (s.inputsOf setup id) := by
  rw [inputsOf_eq]
  exact Entries.ordered_filterMap _ _ (setup.graph.pairwise_predecessorsOf setup.plan h.planned id)

/-- Whatever succeeded has an output. -/
theorem Sound.exists_output (h : s.Sound setup) (id : NodeId) (r : NodeRun)
    (hr : s.record? id = some r) (hstatus : r.status = .succeeded) :
    ∃ output, r.output = some output := by
  rcases h.settled_of_isTerminal id r hr (by rw [hstatus]; rfl) with ⟨_, _, _, _, _, hsettled⟩
  cases hsettled with
  | succeeded output _ houtput => exact ⟨output, houtput⟩
  | failed _ hother | blocked _ _ hother | cancelled _ hother =>
      exact absurd (hother.symm.trans hstatus) nofun

/-- A predecessor is among those whose outputs are handed on when it succeeded. -/
theorem mem_keys_inputsOf_iff (h : s.Sound setup) (id p : NodeId) (hdep : setup.graph.Depends p id)
    (r : NodeRun) (hr : s.record? p = some r) :
    p ∈ (s.inputsOf setup id).keys ↔ r.status = .succeeded := by
  rw [Entries.mem_keys_iff]
  constructor
  · rintro ⟨output, houtput⟩
    rcases ((find?_inputsOf h id p output).mp houtput).2 with ⟨r', hr', hstatus, _⟩
    rw [hr, Option.some.injEq] at hr'
    rw [hr']
    exact hstatus
  · intro hstatus
    rcases h.exists_output p r hr hstatus with ⟨output, houtput⟩
    exact ⟨output, (find?_inputsOf h id p output).mpr ⟨hdep, r, hr, hstatus, houtput⟩⟩

/-- Nothing of a stage that was not entered was attempted. -/
theorem Sound.starts_of_stage_le (h : s.Sound setup) (hopen : s.status = none) (id : NodeId)
    (i : Nat) (hstage : setup.plan.stageOf? id = some i) (hle : s.stage ≤ i) :
    s.starts id = 0 := by
  rw [Plan.stageOf?, List.findIdx?_eq_some_iff_getElem] at hstage
  rcases hstage with ⟨hi, hmem, _⟩
  rw [List.contains_iff_mem] at hmem
  -- Its stage is one of those that are left, so the node is upcoming.
  have hleft : setup.plan.stages[i] ∈ s.ahead := by
    rw [h.ahead, List.mem_drop_iff_getElem]
    refine ⟨i - s.stage, by omega, ?_⟩
    congr 1
    omega
  have hahead : id ∈ s.upcoming :=
    List.mem_append_right _ (List.mem_flatten.mpr ⟨_, hleft, hmem⟩)
  have hid : setup.graph.HasNode id :=
    (setup.graph.mem_stages_iff setup.plan h.planned id).mp (h.order.subset hahead)
  rcases setup.graph.exists_node? id hid with ⟨node, hnamed, hnode⟩
  rw [← hnamed] at hahead ⊢
  cases h.standing node hnode with
  | upcoming _ _ _ _ hstarts => exact hstarts
  | working _ _ _ _ hnot => exact absurd hahead hnot
  | settled _ _ _ _ _ hnot => exact absurd hahead (hnot hopen)

end RunState

/-- What the handler of a task is given, and what has become of other nodes
    then. All nodes that the node depends on have ended, and stay as they are
    in whatever way the run goes on; no node of a later stage was attempted.
    The handler is given the outputs that are recorded of the nodes directly
    before it that succeeded, and nothing else; these are all nodes directly
    before it when its kind does not tolerate failures. -/
structure Supplied (setup : Setup) (choices : List Choice) (s : RunState) (t : Task) : Prop where
  before : ∀ p, setup.graph.Depends p t.node →
    ∃ r, s.record? p = some r ∧ r.status.isTerminal = true ∧
      ∀ rest u, Course setup (choices ++ rest) u → u.record? p = some r
  later : ∃ i, setup.plan.stageOf? t.node = some i ∧
    ∀ other j, setup.plan.stageOf? other = some j → i < j → ¬ Attempted setup choices other
  named : (t.call setup).node = t.node
  ordered : Entries.Ordered (t.call setup).inputs
  inputs : ∀ p output, Entries.find? p (t.call setup).inputs = some output ↔
    setup.graph.Depends p t.node ∧
      ∃ r, s.record? p = some r ∧ r.status = .succeeded ∧ r.output = some output
  succeeded : ∀ p r, setup.graph.Depends p t.node → s.record? p = some r →
    (p ∈ (t.call setup).inputs.keys ↔ r.status = .succeeded)
  full : ¬ setup.graph.Tolerates t.node →
    ∀ p, p ∈ (t.call setup).inputs.keys ↔ setup.graph.Depends p t.node

namespace Course

variable {setup : Setup}

/-- A task keeps the outputs that are recorded of its predecessors. -/
theorem inputs_eq (choices : List Choice) (s : RunState) (h : Course setup choices s) :
    ∀ id t, s.task? id = some t → t.inputs = s.inputsOf setup id := by
  refine induction (P := fun _ s => ∀ id t, s.task? id = some t → t.inputs = s.inputsOf setup id)
    ?_ ?_ choices s h
  · intro id t htask
    exact absurd htask.symm (Option.some_ne_none t)
  · intro choices choice u u' hu ih hstep id next hnext
    have hext := RunState.extends_of_step hu.sound choice hstep
    -- The records of the predecessors are those of earlier stages, and they stay.
    have hkept : id ∈ u.entering ∨ u.task? id ≠ none →
        u'.inputsOf setup id = u.inputsOf setup id :=
      fun hcurrent => ((hu.grounded_of_current choices u id hcurrent).sources_eq hext).2
    have hworked : ∀ t, u.task? id = some t → u.task? id ≠ none := by
      intro t htask
      rw [htask]
      exact Option.some_ne_none t
    rcases RunState.does_of_step setup u u' choice hstep with ⟨hopen, hdoes⟩
    cases hdoes with
    | tick | cancel => exact ih id next hnext
    | work _ _ _ hmove =>
        rcases hmove.task?_cases hu.sound hopen id next hnext with
          hsame | ⟨t, events, htask, hgoes⟩ | ⟨hentering, node, hnew⟩
        -- A task keeps what it was given when it was launched.
        · rw [hkept (Or.inr (hworked next hsame)), ih id next hsame]
        · rw [hkept (Or.inr (hworked t htask)), hgoes.keeps.2.2.2, ih id t htask]
        · rw [hkept (Or.inl hentering), hnew]
          rfl

/-- What handlers are given, in every attempt. -/
theorem supplied (choices : List Choice) (s : RunState) (h : Course setup choices s) (t : Task)
    (ht : t ∈ s.tasks) : Supplied setup choices s t := by
  have hsound := h.sound
  have htask := RunState.task?_of_mem h.nodup_tasks t ht
  have hinputs : (t.call setup).inputs = s.inputsOf setup t.node :=
    h.inputs_eq choices s t.node t htask
  have hworked : s.task? t.node ≠ none := by
    rw [htask]
    exact Option.some_ne_none t
  have hkept := h.grounded_of_current choices s t.node (Or.inr hworked)
  have hmem := setup.graph.mem_predecessorsOf setup.plan h.planned t.node
  have hfind := RunState.find?_inputsOf hsound t.node
  rw [← hinputs] at hfind
  rcases hsound.exists_node_of_task? t htask with ⟨node, hnamed, hnode⟩
  have hsucceeded := RunState.mem_keys_inputsOf_iff hsound t.node
  rw [← hinputs] at hsucceeded
  refine {
    before := fun p hdep => ?_
    later := ?_
    named := rfl
    ordered := hinputs ▸ RunState.ordered_inputsOf hsound t.node
    inputs := hfind
    succeeded := fun p r hdep hr => hsucceeded p hdep r hr
    full := fun hbound p => ?_ }
  · rcases hkept p ((hmem p).mpr hdep) with ⟨r, hr, hterminal, _⟩
    refine ⟨r, hr, hterminal, fun rest u hu => ?_⟩
    exact (h.extend choices rest s u hu).record p r hr hterminal
  -- The task is in the current stage, and all later ones are still to be entered.
  · rcases hsound.current t.node (Or.inr hworked) with ⟨i, hi, hdepth⟩
    refine ⟨i, (setup.graph.stageOf?_eq_some_iff setup.plan h.planned t.node i).mpr hdepth, ?_⟩
    intro other j hother hlt
    rw [h.attempted_iff choices s other,
      hsound.starts_of_stage_le (hsound.open_of_task? t htask) other j hother (by omega)]
    exact Nat.lt_irrefl 0
  -- A node that does not tolerate failures was launched because nothing failed before it.
  · constructor
    · intro hp
      rcases (Entries.mem_keys_iff p _).mp hp with ⟨output, houtput⟩
      exact ((hfind p output).mp houtput).1
    · intro hdep
      have hfree := (hsound.working_of_task? t htask node hnode hnamed).2.2.2.2
      rw [← hnamed, setup.graph.tolerates_iff node hnode] at hbound
      rcases hfree.resolve_left hbound p ((hmem p).mpr hdep) with ⟨r, hr, hstatus⟩
      exact (hsucceeded p hdep r hr).mpr hstatus

end Course

/-- A page was fetched, but no model answers, and the mail about that is tried
    a second time. -/
def mailAgain : List Choice :=
  [.advance, .launch, .grant "fetch", .answer "fetch" (.ok (.string "page")), .collect "fetch",
    .advance, .launch, .grant "ask", .answer "ask" (.error (.failed (.permanent "no such model"))),
    .collect "ask", .advance, .launch, .grant "mail",
    .answer "mail" (.error (.failed (.transient "busy"))), .tick 5, .wake "mail"]

/-- What is worked on, in which attempt and with which inputs. -/
def observeTasks (s : RunState) : List (Phase × Nat × Entries Json) :=
  s.tasks.map fun t => (t.phase, t.attempts, t.inputs)

theorem supplied_mailAgain : ∃ s t, Course report mailAgain s ∧ t ∈ s.tasks ∧
    t.phase = .attempting ∧ t.attempts = 2 ∧
    (t.call report).inputs = [("fetch", .string "page")] ∧ Supplied report mailAgain s t := by
  rcases Course.exists_of_observed report mailAgain observeTasks
    [(.attempting, 2, [("fetch", .string "page")])] rfl rfl with ⟨s, hcourse, hseen⟩
  rcases List.map_eq_singleton_iff.mp hseen with ⟨t, htasks, heq⟩
  simp only [Prod.mk.injEq] at heq
  have ht : t ∈ s.tasks := by
    rw [htasks]
    exact List.mem_singleton_self t
  exact ⟨s, t, hcourse, ht, heq.1, heq.2.1, heq.2.2, hcourse.supplied mailAgain s t ht⟩

end Workflow
