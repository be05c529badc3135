import Workflow.Proofs.Termination

/-!
# How Nodes End

What a run leaves behind. When a run is over, every node of its graph has one
record, and the record says in one of three ways how the node ended: with an
output, with the error of an attempt, or skipped, because of a predecessor or
because the run was cancelled. Nothing else is ever noted as an end, at any
moment of any run, whatever the handlers do, in whatever order tasks are
collected and whenever the run is cancelled.

Whether a handler was at work on a node is told by the whole run and not by
its last state. `Attempted` looks at all states on the way, and
`attempted_iff` says that the attempts that were announced tell the same.

## Main definitions

* `NodeRun.Ended`: What is known of a node that has ended.
* `RunResult.Complete`: Every node of a graph has ended.
* `Attempted`: An attempt of a node was made.

## Theorems

* `Sound.settled_of_over`: When a run is over, every node is settled.
* `every_node_ended`: What is known of the nodes of a run.
* `attempted_iff`: An attempt was made when it was announced.
-/

namespace Workflow

/-- What is known of a node that has ended. -/
inductive NodeRun.Ended (r : NodeRun) : Prop
  /-- It has an output and no error. -/
  | succeeded (output : Json) (hstatus : r.status = .succeeded) (houtput : r.output = some output)
      (herror : r.error = none)
  /-- It has no output, and the error is that of an attempt. -/
  | failed (error : NodeError) (hstatus : r.status = .failed) (houtput : r.output = none)
      (herror : r.error = some error)
      (hcause : error.cause ∈ [.transient, .permanent, .timeout, .handlerMissing])
  /-- It has no output, because of a node before it or because the run was
      cancelled. -/
  | skipped (error : NodeError) (hstatus : r.status = .skipped) (houtput : r.output = none)
      (herror : r.error = some error) (hcause : error.cause ∈ [.predecessor, .cancelled])

/-- Every node of a graph has one record, which is about it, and has ended. -/
structure RunResult.Complete (g : Graph) (r : RunResult) : Prop where
  once : (r.nodes.map (·.1)).Nodup
  exact : ∀ id, id ∈ r.nodes.map (·.1) ↔ g.HasNode id
  named : ∀ id run, (id, run) ∈ r.nodes →
    run.node = id ∧ ∃ node, g.node? id = some node ∧ run.kind = node.kind
  ended : ∀ id run, (id, run) ∈ r.nodes → run.Ended

namespace RunState

variable {setup : Setup} {s s' : RunState}

theorem Settled.ended {node : Node} {r : NodeRun} (h : s.Settled setup node r) : r.Ended := by
  cases h with
  | succeeded output hstatus houtput herror => exact .succeeded output hstatus houtput herror
  | failed error hstatus houtput herror hcause =>
      exact .failed error hstatus houtput herror hcause
  | blocked predecessor status hstatus houtput herror =>
      exact .skipped _ hstatus houtput herror List.mem_cons_self
  | cancelled error hstatus houtput herror hcause =>
      refine .skipped error hstatus houtput herror ?_
      rw [hcause]
      exact List.mem_cons_of_mem _ List.mem_cons_self

theorem Settled.status_cases {node : Node} {r : NodeRun} (h : s.Settled setup node r) :
    r.status = .succeeded ∨ r.status = .failed ∨ r.status = .skipped := by
  cases h with
  | succeeded _ hstatus => exact Or.inl hstatus
  | failed _ hstatus => exact Or.inr (Or.inl hstatus)
  | blocked _ _ hstatus | cancelled _ hstatus => exact Or.inr (Or.inr hstatus)

theorem Sound.exists_record? (h : s.Sound setup) (id : NodeId) (hid : setup.graph.HasNode id) :
    ∃ r, s.record? id = some r := by
  rw [← setup.graph.mem_ids, ← h.keys] at hid
  exact (Entries.mem_keys_iff id s.records).mp hid

theorem Sound.mem_records_iff (h : s.Sound setup) (id : NodeId) (r : NodeRun) :
    (id, r) ∈ s.records ↔ s.record? id = some r :=
  (Entries.find?_eq_some_iff s.records h.nodup id r).symm

/-- What is known of a node that has ended is how it was settled. -/
theorem Sound.settled_of_isTerminal (h : s.Sound setup) (id : NodeId) (r : NodeRun)
    (hr : s.record? id = some r) (hterminal : r.status.isTerminal = true) :
    ∃ node, node.id = id ∧ setup.graph.node? node.id = some node ∧ r.node = id ∧
      r.kind = node.kind ∧ s.Settled setup node r := by
  rcases setup.graph.exists_node? id (h.hasNode_of_record? id r hr) with ⟨node, hid, hnode⟩
  cases h.standing node hnode with
  | upcoming _ hrecord | working _ _ hrecord =>
      rw [hid, hr, Option.some.injEq] at hrecord
      rw [hrecord] at hterminal
      exact absurd hterminal Bool.false_ne_true
  | settled r' hrecord hnamed hkind _ _ hsettled =>
      rw [hid, hr, Option.some.injEq] at hrecord
      rw [← hrecord] at hnamed hkind hsettled
      exact ⟨node, hid, hnode, hnamed.trans hid, hkind, hsettled⟩

/-- Nobody works on a node that has ended. -/
theorem Sound.task?_of_isTerminal (h : s.Sound setup) (id : NodeId) (r : NodeRun)
    (hr : s.record? id = some r) (hterminal : r.status.isTerminal = true) : s.task? id = none := by
  rcases setup.graph.exists_node? id (h.hasNode_of_record? id r hr) with ⟨node, hid, hnode⟩
  rw [← hid] at hr ⊢
  cases h.standing node hnode with
  | upcoming _ hrecord | working _ _ hrecord =>
      rw [hr, Option.some.injEq] at hrecord
      rw [hrecord] at hterminal
      exact absurd hterminal Bool.false_ne_true
  | settled _ _ _ _ hnone => exact hnone

/-- When a run is over, every node is settled. -/
theorem Sound.settled_of_over (h : s.Sound setup) (hover : s.status ≠ none) (id : NodeId)
    (r : NodeRun) (hr : s.record? id = some r) :
    ∃ node, node.id = id ∧ setup.graph.node? node.id = some node ∧ r.node = id ∧
      r.kind = node.kind ∧ s.Settled setup node r := by
  refine h.settled_of_isTerminal id r hr ?_
  rcases setup.graph.exists_node? id (h.hasNode_of_record? id r hr) with ⟨node, hid, hnode⟩
  cases h.standing node hnode with
  | upcoming hopen | working _ hopen => exact absurd hopen hover
  | settled r' hrecord _ _ _ _ hsettled =>
      rw [hid, hr, Option.some.injEq] at hrecord
      rw [hrecord]
      exact hsettled.isTerminal

/-- An attempt that is announced is an attempt that is made. -/
theorem Move.starts (h : s.Move setup s') (id : NodeId) :
    s'.starts id = s.starts id ∨
      s.starts id ≤ s'.starts id ∧ ∃ t, s'.task? id = some t ∧ t.phase = .attempting := by
  cases h with
  | pass | launch => exact Or.inl rfl
  | block | enter => exact Or.inl (starts_emit _ _ id rfl)
  | close t change events lost _ _ hends =>
      -- The events of an ending begin nothing.
      refine Or.inl ?_
      rw [starts, retire, List.countP_append, hends.countP_begins id]
      rfl
  | finish | abandon => exact Or.inl (starts_finish _ _ id)
  | go t next events htask hgoes =>
      have hcount : (s.proceed next events).starts id =
          s.starts id + events.countP (Happening.begins id) := List.countP_append
      by_cases hid : id = t.node
      · have hnext : (s.proceed next events).task? id = some next := by
          refine (s.task?_put next id).trans ?_
          rw [hgoes.node, if_pos hid, hid, htask, Option.map_some]
        have hle : s.starts id ≤ (s.proceed next events).starts id := by omega
        -- Only an attempt that begins is counted, and it is under way then.
        cases hgoes with
        | begins | wakes => exact Or.inr ⟨hle, _, hnext, rfl⟩
        | turnedAway | succeeds | fails | breaksDown | cutShort | rests => exact Or.inl hcount
      · rw [hgoes.countP_begins id hid] at hcount
        exact Or.inl hcount

end RunState

/-- An attempt of a node was made: at some moment of the run its handler was
    at work. -/
def Attempted (setup : Setup) (choices : List Choice) (id : NodeId) : Prop :=
  ∃ earlier, earlier <+: choices ∧ ∃ u t, Course setup earlier u ∧
    u.task? id = some t ∧ t.phase = .attempting

namespace Course

variable {setup : Setup}

/-- What is known of the nodes of a run. At any moment, a node that has ended
    has an output, or the error of an attempt, or was skipped because of a node
    before it or because the run was cancelled; when the run is over, this is so
    for every node of the graph; and every run gets there. -/
theorem every_node_ended (choices : List Choice) (s : RunState) (h : Course setup choices s) :
    (∀ id r, (id, r) ∈ s.records → r.status.isTerminal = true → r.Ended) ∧
      (s.status ≠ none → (s.result setup).Complete setup.graph) ∧
      ∃ rest u, Course setup (choices ++ rest) u ∧ u.status ≠ none := by
  have hsound := h.sound
  refine ⟨?_, ?_, ?_⟩
  -- At any moment, what is not settled has a status that is not an end.
  · intro id r hr hterminal
    rw [hsound.mem_records_iff] at hr
    rcases hsound.settled_of_isTerminal id r hr hterminal with ⟨node, _, _, _, _, hsettled⟩
    exact hsettled.ended
  · intro hover
    have hsettled := fun id r hr =>
      hsound.settled_of_over hover id r ((hsound.mem_records_iff id r).mp hr)
    refine ⟨hsound.nodup, fun id => ?_, fun id r hr => ?_, fun id r hr => ?_⟩
    · rw [← setup.graph.mem_ids, ← hsound.keys]
      exact Iff.rfl
    · rcases hsettled id r hr with ⟨node, hid, hnode, hnamed, hkind, _⟩
      rw [hid] at hnode
      exact ⟨hnamed, node, hnode, hkind⟩
    · rcases hsettled id r hr with ⟨_, _, _, _, _, hsettled⟩
      exact hsettled.ended
  · rcases h.exists_over with ⟨rest, u, hcourse, hover, _⟩
    exact ⟨rest, u, hcourse, hover⟩

/-- Choices that can be followed are a course, at the end of which there is
    what can be observed there. -/
theorem exists_of_observed {α : Type} (setup : Setup) (choices : List Choice)
    (observe : RunState → α) (seen : α) (hplan : setup.graph.plan = .ok setup.plan)
    (h : ((RunState.start setup).follow setup choices).map observe = some seen) :
    ∃ s, Course setup choices s ∧ observe s = seen := by
  rcases Option.map_eq_some_iff.mp h with ⟨s, hfollowed, hseen⟩
  exact ⟨s, ⟨hplan, hfollowed⟩, hseen⟩

end Course

/-- A page is fetched, a model is asked about it, and a mail says what came of
    both. -/
def report : Setup where
  run := "r1"
  graphId := "report"
  graph := Graph.ofPairs [("fetch", .urlScraper), ("ask", .gpt4o), ("mail", .email)]
    [("fetch", "ask"), ("fetch", "mail"), ("ask", "mail")]
  plan := ⟨[["fetch"], ["ask"], ["mail"]],
    [("ask", ["fetch"]), ("fetch", []), ("mail", ["ask", "fetch"])]⟩
  workers := 1
  budget := fun _ => 1
  restMs := fun _ _ => 5
  start := ⟨0, 0⟩

/-- The run is cancelled after the page was fetched and before the model is
    asked. -/
def cutShort : List Choice :=
  [.advance, .launch, .grant "fetch", .answer "fetch" (.ok .null), .collect "fetch", .advance,
    .launch, .cancel, .grant "ask", .collect "ask", .advance]

theorem every_node_ended_cutShort : ∃ s, Course report cutShort s ∧ s.status = some .cancelled ∧
    (s.result report).Complete report.graph := by
  rcases Course.exists_of_observed report cutShort RunState.status (some .cancelled) rfl rfl with
    ⟨s, hcourse, hstatus⟩
  refine ⟨s, hcourse, hstatus, (Course.every_node_ended cutShort s hcourse).2.1 ?_⟩
  rw [hstatus]
  exact Option.some_ne_none _

namespace Course

variable {setup : Setup}

theorem unique (choices : List Choice) (s u : RunState) (hs : Course setup choices s)
    (hu : Course setup choices u) : s = u :=
  Option.some.inj (hs.followed.symm.trans hu.followed)

/-- An attempt was made before a choice, or is being made after it. -/
theorem attempted_concat_iff (choices : List Choice) (choice : Choice) (s : RunState)
    (h : Course setup (choices ++ [choice]) s) (id : NodeId) :
    Attempted setup (choices ++ [choice]) id ↔
      Attempted setup choices id ∨ ∃ t, s.task? id = some t ∧ t.phase = .attempting := by
  constructor
  · rintro ⟨earlier, hearlier, u, t, hu, htask, hphase⟩
    rcases List.prefix_concat_iff.mp hearlier with heq | hbefore
    · rw [heq] at hu
      rw [unique _ u s hu h] at htask
      exact Or.inr ⟨t, htask, hphase⟩
    · exact Or.inl ⟨earlier, hbefore, u, t, hu, htask, hphase⟩
  · rintro (⟨earlier, hearlier, hrest⟩ | ⟨t, htask, hphase⟩)
    · exact ⟨earlier, hearlier.trans (List.prefix_append _ _), hrest⟩
    · exact ⟨_, List.prefix_refl _, s, t, h, htask, hphase⟩

/-- An attempt was made when it was announced. -/
theorem attempted_iff (choices : List Choice) (s : RunState) (h : Course setup choices s)
    (id : NodeId) : Attempted setup choices id ↔ 0 < s.starts id := by
  refine induction (P := fun choices s => Attempted setup choices id ↔ 0 < s.starts id) ?_ ?_
    choices s h
  -- Nothing has happened yet, and there are no tasks.
  · refine iff_of_false ?_ (Nat.lt_irrefl 0)
    rintro ⟨earlier, hearlier, u, t, hu, htask, _⟩
    rw [List.prefix_nil.mp hearlier] at hu
    rw [← Option.some.inj hu.followed] at htask
    exact absurd htask.symm (Option.some_ne_none t)
  · intro choices choice u u' hu ih hstep
    have hu' := hu.concat choice u' hstep
    rw [attempted_concat_iff choices choice u' hu' id, ih]
    -- A handler that is at work has been announced.
    have hannounced : (∃ t, u'.task? id = some t ∧ t.phase = .attempting) → 0 < u'.starts id := by
      rintro ⟨t, htask, hphase⟩
      have hid := u'.node_of_task? id t htask
      rw [← hid] at htask ⊢
      rcases hu'.sound.exists_node_of_task? t htask with ⟨node, hnamed, hnode⟩
      rcases hu'.sound.working_of_task? t htask node hnode hnamed with ⟨_, _, hsound, hstarts, _⟩
      rw [hphase] at hsound
      rw [hstarts]
      exact hsound
    cases (RunState.does_of_step setup u u' choice hstep).2 with
    | tick | cancel => exact or_iff_left_of_imp hannounced
    | work _ _ _ hmove =>
        rcases hmove.starts id with hsame | ⟨hle, hworking⟩
        · rw [hsame] at hannounced ⊢
          exact or_iff_left_of_imp hannounced
        · exact iff_of_true (Or.inr hworking) (hannounced hworking)

end Course

end Workflow
