import Workflow.Proofs.Accounting
import Workflow.Proofs.Execution

/-!
# The Order of Events

What is announced in a run, and in which order.

Two orders are kept at once. The stages of the plan follow one another, and
what happens to a node happens in its own stage; `Announced` grows a list of
events by one event after the other and says where each of them may stand.
And every node has a life of its own: attempts that are numbered, a rest
between any two of them, and then its end (`Tried`, `Life`). The tasks of a
stage may be at work in any order, so nothing is said about how the lives of
two nodes are interleaved.

Both are invariants of the events so far. In the first one, the count of the
stages is the number of the current stage, and only a node of that stage is
launched or worked on. In the second one, the task of a node knows how many
attempts were announced and whether the next one may begin (`Telling`).

The end of a run adds the nodes that were never launched, and its outcome.
Around all of it stand the beginning of the run and its end (`Orderly`). A
graph that cannot be planned has no run, and nothing is announced of it.

## Main definitions

* `Announced`: What is announced of some stages, in its order.
* `Tried`, `Life`: What is announced of a node, in its order.
* `Framed`: The stages follow one another between the beginning of a run and its
  end.
* `history`: What was announced of a node.
* `Telling`: What was announced of a node, from where it stands.
* `Orderly`: The events of a run are in order.

## Theorems

* `Move.announced`: What a step announces is of the current stage.
* `Move.telling`: What a step announces goes on with the life of its node.
* `Course.telling`: Every node has a life.
* `Move.concludes`: What the last step of a run announces.
* `Course.framed`: A run that is over has a beginning and an end.
* `Engine.announced_course`: An engine announces the events of a course.
* `events_in_order`: The events of a run are in order.
-/

namespace Workflow

/-- Whether something happens to a node. -/
def Happening.concerns (id : NodeId) (e : Happening) : Bool := e.node? = some id

/-- What is announced of the first stages of a plan, so many of them: the stages
    in their order, and after each of them only what happens to its nodes. -/
inductive Announced (stages : List (List NodeId)) : Nat → List Happening → Prop
  /-- Nothing is announced yet. -/
  | nothing : Announced stages 0 []
  /-- The next stage is entered. -/
  | enters {n : Nat} {events : List Happening} (stage : List NodeId)
      (hbefore : Announced stages n events) (hstage : stages[n]? = some stage) :
      Announced stages (n + 1) (events ++ [.stageStarted n stage])
  /-- Something happens to a node of the last stage that was entered. -/
  | happens {n : Nat} {events : List Happening} (stage : List NodeId) (id : NodeId)
      (e : Happening) (hbefore : Announced stages (n + 1) events)
      (hstage : stages[n]? = some stage) (hid : id ∈ stage) (hnode : e.node? = some id) :
      Announced stages (n + 1) (events ++ [e])

/-- The attempts of a node, so many of them, as they are announced: they are
    numbered from one on, and between two of them it is said once that the first
    of the two will be repeated. The flag tells whether the next one may begin. -/
inductive Tried (id : NodeId) : Nat → Bool → List Happening → Prop
  /-- There was no attempt, and the first one may begin. -/
  | ready : Tried id 0 true []
  /-- An attempt begins. -/
  | starts {n : Nat} {events : List Happening} (hbefore : Tried id n true events) :
      Tried id (n + 1) false (events ++ [.nodeStarted id (n + 1)])
  /-- It failed, and will be repeated. -/
  | retries {n : Nat} {events : List Happening} (backoffMs : Nat) (error : String)
      (hbefore : Tried id n false events) :
      Tried id n true (events ++ [.nodeRetrying id n backoffMs error])

/-- All that is announced of a node: its attempts and then its end, if it is
    announced at all. -/
inductive Life (id : NodeId) : List Happening → Prop
  /-- No end is announced. -/
  | going {n : Nat} {ready : Bool} {events : List Happening} (htried : Tried id n ready events) :
      Life id events
  /-- The end is announced last. -/
  | over {n : Nat} {ready : Bool} {events : List Happening} (e : Happening)
      (htried : Tried id n ready events) (hend : e.ends id = true) : Life id (events ++ [e])

/-- Whether the next attempt of a task in a phase may begin. -/
def Phase.Allows (ready : Bool) : Phase → Prop
  | .queued => ready = true
  | .attempting => ready = false
  | .resting _ _ => ready = true
  | .answered _ _ => True
  | .brokenDown => True

/-- What happens at the beginning of a run. -/
def Setup.opening (setup : Setup) : Happening :=
  .runStarted setup.graphId setup.plan.stages.length setup.graph.ids.length

/-- It is said first that a run begins, with the number of its stages and of its
    nodes, and last how it ended. In between, the stages follow one another, each
    with what happens to its nodes, and then those nodes are skipped that were
    never launched. All stages are entered unless the run was cancelled. -/
def Framed (setup : Setup) (s : RunState) : Prop :=
  ∃ (n : Nat) (during : List Happening) (never : List NodeId),
    s.events = setup.opening :: (during ++
      never.map (fun id => .nodeSkipped id RunState.cancelReason) ++
        [.runCompleted (s.result setup).status (s.result setup).elapsedMs]) ∧
    Announced setup.plan.stages n during ∧
    (n = setup.plan.stages.length ∨ s.cancelled = true)

/-- The events of a run are in order: the stages follow one another between its
    beginning and its end, and what is announced of a node is one life. -/
structure Orderly (setup : Setup) (s : RunState) : Prop where
  framed : Framed setup s
  lives : ∀ id, Life id (s.events.filter (Happening.concerns id))

namespace Announced

variable {stages : List (List NodeId)}

/-- Whatever happens to nodes of the last stage may follow. -/
theorem append {n : Nat} {during : List Happening} (h : Announced stages (n + 1) during)
    (stage : List NodeId) (hstage : stages[n]? = some stage) (events : List Happening)
    (hall : ∀ e ∈ events, ∃ id ∈ stage, e.node? = some id) :
    Announced stages (n + 1) (during ++ events) := by
  -- The events are added one by one, so the induction moves them over to the
  -- left, and what is said before them has to vary.
  induction events generalizing during with
  | nil =>
      rw [List.append_nil]
      exact h
  | cons e rest ih =>
      rcases hall e List.mem_cons_self with ⟨id, hid, hnode⟩
      rw [List.append_cons]
      exact ih (.happens stage id e h hstage hid hnode) fun other hother =>
        hall other (List.mem_cons_of_mem e hother)

/-- No more stages are announced than there are. -/
theorem le_length {n : Nat} {during : List Happening} (h : Announced stages n during) :
    n ≤ stages.length := by
  cases h with
  | nothing => exact Nat.zero_le _
  | enters _ _ hstage | happens _ _ _ _ hstage => exact (List.getElem?_eq_some_iff.mp hstage).1

end Announced

namespace Task

variable {setup : Setup} {s : RunState} {t next : Task} {events : List Happening}

/-- What happens while a task goes on happens to its node. -/
theorem Goes.concerns (h : t.Goes setup s next events) :
    ∀ e ∈ events, e.node? = some t.node := by
  cases h with
  | begins | rests | wakes =>
      intro e he
      rw [List.mem_singleton.mp he]
      rfl
  | turnedAway | succeeds | fails | breaksDown | cutShort => exact nofun

/-- What happens at the end of a task happens to its node. -/
theorem Ends.concerns {change : NodeRun → NodeRun} {lost : Bool}
    (h : t.Ends setup s change events lost) : ∀ e ∈ events, e.node? = some t.node := by
  cases h with
  | settled | discarded | missed =>
      intro e he
      rw [List.mem_singleton.mp he]
      rfl
  | dropped => exact nofun

/-- A task that goes on announces what comes next. -/
theorem Goes.tried (h : t.Goes setup s next events) {ready : Bool} {before : List Happening}
    (htried : Tried t.node t.attempts ready before) (hallows : t.phase.Allows ready) :
    ∃ ready', Tried t.node next.attempts ready' (before ++ events) ∧
      next.phase.Allows ready' := by
  -- Whether the next attempt may begin is read off the phase before the step, and
  -- an attempt is announced only where it may.
  cases h with
  | begins hphase | wakes _ _ hphase =>
      rw [hphase] at hallows
      rw [hallows] at htried
      exact ⟨false, .starts htried, rfl⟩
  | rests e hphase =>
      rw [hphase] at hallows
      rw [hallows] at htried
      exact ⟨true, .retries _ _ htried, rfl⟩
  | turnedAway | succeeds | fails | breaksDown | cutShort =>
      rw [List.append_nil]
      exact ⟨ready, htried, trivial⟩

/-- The end of a task is announced last, if it is. -/
theorem Ends.life {change : NodeRun → NodeRun} {lost : Bool}
    (h : t.Ends setup s change events lost) {ready : Bool} {before : List Happening}
    (htried : Tried t.node t.attempts ready before) : Life t.node (before ++ events) := by
  cases h with
  | settled | discarded | missed => exact .over _ htried (decide_eq_true rfl)
  | dropped =>
      rw [List.append_nil]
      exact .going htried

/-- A task that ends leaves a record that says so. -/
theorem Ends.isTerminal {change : NodeRun → NodeRun} {lost : Bool}
    (h : t.Ends setup s change events lost) (r : NodeRun) :
    (change r).status.isTerminal = true := by
  cases h with
  | settled _ result => cases result <;> rfl
  | discarded | missed | dropped => rfl

end Task

namespace RunState

/-- What was announced of a node. -/
def history (s : RunState) (id : NodeId) : List Happening :=
  s.events.filter (Happening.concerns id)

/-- What was announced of a node, from where it stands: nothing before it is
    launched, and the attempts that its task has counted while it is worked
    on. -/
structure Telling (s : RunState) (id : NodeId) : Prop where
  life : Life id (s.history id)
  fresh : ∀ node, s.record? id = some (.ofNode node) → s.history id = []
  working : ∀ t, s.task? id = some t →
    ∃ ready, Tried id t.attempts ready (s.history id) ∧ t.phase.Allows ready

variable {setup : Setup} {s s' : RunState}

theorem history_append (id : NodeId) (events : List Happening)
    (h : s'.events = s.events ++ events) :
    s'.history id = s.history id ++ events.filter (Happening.concerns id) := by
  rw [history, h, List.filter_append]
  rfl

/-- What happens to a node is added to its history. -/
theorem history_own (id : NodeId) (events : List Happening)
    (h : s'.events = s.events ++ events) (hown : ∀ e ∈ events, e.node? = some id) :
    s'.history id = s.history id ++ events := by
  rw [history_append id events h, List.filter_eq_self.mpr]
  exact fun e he => decide_eq_true (hown e he)

/-- A step that does not concern a node leaves it telling what it told. -/
theorem Telling.of_same {id : NodeId} (h : s.Telling id)
    (hrecord : s'.record? id = s.record? id) (htask : s'.task? id = s.task? id)
    (hhistory : s'.history id = s.history id) : s'.Telling id where
  life := by
    rw [hhistory]
    exact h.life
  fresh := by
    rw [hrecord, hhistory]
    exact h.fresh
  working := by
    rw [htask, hhistory]
    exact h.working

/-- Neither does a step in which nothing happens to it. -/
theorem Telling.of_other {id : NodeId} (h : s.Telling id) (events : List Happening)
    (hevents : s'.events = s.events ++ events) (hother : ∀ e ∈ events, e.node? ≠ some id)
    (hrecord : s'.record? id = s.record? id) (htask : s'.task? id = s.task? id) :
    s'.Telling id := by
  have hnone : events.filter (Happening.concerns id) = [] := by
    rw [List.filter_eq_nil_iff]
    exact fun e he hconcerns => hother e he (of_decide_eq_true hconcerns)
  refine h.of_same hrecord htask ?_
  rw [history_append id events hevents, hnone, List.append_nil]

/-- What has ended has a life behind it. -/
theorem telling_of_isTerminal {id : NodeId} (r : NodeRun) (hr : s.record? id = some r)
    (hterminal : r.status.isTerminal = true) (htask : s.task? id = none)
    (hlife : Life id (s.history id)) : s.Telling id where
  life := hlife
  fresh := by
    intro node hfresh
    rw [hr, Option.some.injEq] at hfresh
    rw [hfresh] at hterminal
    exact absurd hterminal Bool.false_ne_true
  working := by
    intro t ht
    rw [htask] at ht
    exact absurd ht nofun

/-- What is launched or worked on is in the last stage that was entered. -/
theorem Sound.exists_stage (h : s.Sound setup) (id : NodeId)
    (hcurrent : id ∈ s.entering ∨ s.task? id ≠ none) :
    ∃ n stage, s.stage = n + 1 ∧ setup.plan.stages[n]? = some stage ∧ id ∈ stage := by
  rcases h.current id hcurrent with ⟨n, hn, hdepth⟩
  rcases setup.graph.exists_stage_of_depth setup.plan h.planned id n hdepth with
    ⟨stage, hstage, hid⟩
  exact ⟨n, stage, hn, hstage, hid⟩

/-- Events of a node that is launched or worked on may follow. -/
theorem Sound.announced (h : s.Sound setup) (id : NodeId)
    (hcurrent : id ∈ s.entering ∨ s.task? id ≠ none) (during events : List Happening)
    (hbefore : Announced setup.plan.stages s.stage during)
    (hall : ∀ e ∈ events, e.node? = some id) :
    Announced setup.plan.stages s.stage (during ++ events) := by
  rcases h.exists_stage id hcurrent with ⟨n, stage, hn, hstage, hid⟩
  rw [hn] at hbefore ⊢
  exact hbefore.append stage hstage events fun e he => ⟨id, hid, hall e he⟩

/-- The end of a run announces the outcome that the result tells. -/
theorem events_finish (setup : Setup) (s : RunState) :
    (s.finish setup).events = s.events ++
      s.untouched.map (fun id => .nodeSkipped id cancelReason) ++
        [.runCompleted ((s.finish setup).result setup).status
          ((s.finish setup).result setup).elapsedMs] := by
  rw [finish_eq]
  rfl

/-- What a step announces is of the current stage, unless it is the last one of
    the run. -/
theorem Move.announced (hmove : s.Move setup s') (h : s.Sound setup)
    (hopen : s'.status = none) (during : List Happening)
    (hbefore : Announced setup.plan.stages s.stage during) :
    ∃ events, s'.events = s.events ++ events ∧
      Announced setup.plan.stages s'.stage (during ++ events) := by
  cases hmove with
  | pass | launch => exact ⟨[], (List.append_nil _).symm, (List.append_nil during).symm ▸ hbefore⟩
  | block id rest node predecessor status hentering =>
      refine ⟨_, rfl, h.announced id (Or.inl ?_) during _ hbefore ?_⟩
      · rw [hentering]
        exact List.mem_cons_self
      · intro e he
        rw [List.mem_singleton.mp he]
        rfl
  | go t next events htask hgoes =>
      refine ⟨events, rfl, h.announced t.node (Or.inr ?_) during events hbefore hgoes.concerns⟩
      rw [htask]
      exact Option.some_ne_none t
  | close t change events lost htask _ hends =>
      refine ⟨events, rfl, h.announced t.node (Or.inr ?_) during events hbefore hends.concerns⟩
      rw [htask]
      exact Option.some_ne_none t
  | enter stage ahead _ _ hahead =>
      -- What is entered is the first of the stages that are left of the plan.
      refine ⟨_, rfl, .enters stage hbefore ?_⟩
      rw [← List.head?_drop, ← h.ahead, hahead]
      rfl
  | finish | abandon =>
      -- These end the run.
      rcases exists_status_finish setup _ with ⟨status, hstatus, _⟩
      rw [hstatus] at hopen
      exact absurd hopen nofun

/-- The last step of a run announces what was never launched, and the outcome. -/
theorem Move.concludes (hmove : s.Move setup s') (h : s.Sound setup) (hopen : s.status = none)
    (hover : s'.status ≠ none) : ∃ never : List NodeId,
    s'.events = s.events ++ never.map (fun id => .nodeSkipped id cancelReason) ++
      [.runCompleted (s'.result setup).status (s'.result setup).elapsedMs] ∧
    (setup.plan.stages.length ≤ s.stage ∨ s'.cancelled = true) := by
  cases hmove with
  | pass | block | launch | go | close | enter => exact absurd hopen hover
  | finish _ _ hahead =>
      -- Nothing is left of the plan, so all of it was entered.
      refine ⟨s.untouched, events_finish setup s, Or.inl ?_⟩
      rw [← List.drop_eq_nil_iff, ← h.ahead]
      exact hahead
  | abandon _ _ _ hcancelled =>
      refine ⟨s.untouched, events_finish setup { s with interrupted := true }, Or.inr ?_⟩
      rw [finish_eq]
      exact hcancelled

/-- The end of a run announces what was never launched. -/
theorem telling_of_finish (given : Bool) (h : Drained setup { s with interrupted := given })
    (id : NodeId) (htelling : s.Telling id) :
    ({ s with interrupted := given }.finish setup).Telling id := by
  have hrecord := record?_finish setup { s with interrupted := given } id
  have hhistory := filter_finish setup h.sound.nodup_untouched id (Happening.concerns id)
    (fun key _ => decide_eq_decide.mpr Option.some_inj) fun _ _ => rfl
  have hsame : record? { s with interrupted := given } id = s.record? id := rfl
  -- No task is left, and a node that had its end keeps what is told of it.
  have htask : ∀ key, ({ s with interrupted := given }.finish setup).task? key = none := by
    intro key
    rw [finish_eq]
    exact task?_eq_none_of_nil _ key h.tasks
  by_cases hmem : id ∈ untouched { s with interrupted := given }
  -- What nothing is known of was not launched, and nothing was announced of it.
  · rcases (mem_untouched_iff _ h.sound.nodup id).mp hmem with ⟨r, hr, hpending⟩
    rcases setup.graph.exists_node? id (h.sound.hasNode_of_record? id r hr) with
      ⟨node, hid, hnode⟩
    have hnone : s.history id = [] := by
      rcases h.sound.settled_or_upcoming h.tasks node hnode with
        ⟨r', hr', _, _, hsettled⟩ | ⟨hfresh, _, _⟩
      · rw [hid, hr, Option.some.injEq] at hr'
        have hterminal := hsettled.isTerminal
        rw [← hr', hpending] at hterminal
        exact absurd hterminal Bool.false_ne_true
      · rw [hid] at hfresh
        exact htelling.fresh node hfresh
    rw [hr, Option.map_some, if_pos hmem] at hrecord
    refine telling_of_isTerminal _ hrecord rfl (htask id) ?_
    rw [if_pos hmem] at hhistory
    rw [history, hhistory]
    have hbefore : { s with interrupted := given }.events.filter (Happening.concerns id) = [] :=
      hnone
    rw [hbefore]
    exact .over _ .ready (decide_eq_true rfl)
  · rw [if_neg hmem, List.append_nil] at hhistory
    refine htelling.of_same ?_ ?_ hhistory
    · rw [hrecord, hsame]
      simp only [if_neg hmem, Option.map_id']
    · rw [htask id]
      exact (task?_eq_none_of_nil s id h.tasks).symm

/-- A node that is blocked is launched no more, and says that it is skipped. -/
theorem Sound.telling_block (h : s.Sound setup) (hopen : s.status = none) (node : Node)
    (rest : List NodeId) (predecessor : NodeId) (status : NodeStatus)
    (hentering : s.entering = node.id :: rest)
    (hnode : setup.graph.node? node.id = some node) (htelling : s.Telling node.id) :
    (((s.leave rest).amend node.id (s.blockedRun setup predecessor status)).emit
      (.nodeSkipped node.id (blockedReason predecessor status))).Telling node.id := by
  rcases h.upcoming_of_entering node rest hentering hopen hnode with ⟨hfresh, hnone, _, _⟩
  have hbefore : (s.leave rest).record? node.id = some (.ofNode node) := hfresh
  have hrecord := record?_amend_self (s.leave rest) node.id
    (s.blockedRun setup predecessor status) _ hbefore
  -- It ends without an attempt, and that is all that is ever announced of it.
  refine telling_of_isTerminal _ hrecord rfl hnone ?_
  rw [history_own node.id _ rfl fun e he => by rw [List.mem_singleton.mp he]; rfl]
  have hnothing : history ((s.leave rest).amend node.id
      (s.blockedRun setup predecessor status)) node.id = [] := htelling.fresh node hfresh
  rw [hnothing]
  exact .over _ .ready (decide_eq_true rfl)

/-- A node that is launched may begin its first attempt. -/
theorem Sound.telling_launch (h : s.Sound setup) (hopen : s.status = none) (node : Node)
    (rest : List NodeId) (hentering : s.entering = node.id :: rest)
    (hnode : setup.graph.node? node.id = some node) (htelling : s.Telling node.id) :
    ((s.leave rest).enlist node.id (s.newTask setup node node.id)).Telling node.id := by
  rcases h.upcoming_of_entering node rest hentering hopen hnode with ⟨hfresh, hnone, _, _⟩
  have htask := (s.leave rest).task?_enlist node.id node.id (s.newTask setup node node.id) rfl hnone
  have hhistory : ((s.leave rest).enlist node.id (s.newTask setup node node.id)).history
      node.id = [] := htelling.fresh node hfresh
  refine ⟨?_, fun _ _ => hhistory, fun t ht => ?_⟩
  · rw [hhistory]
    exact .going .ready
  · rw [if_pos rfl] at htask
    rw [htask, Option.some.injEq] at ht
    rw [hhistory, ← ht]
    exact ⟨true, .ready, rfl⟩

/-- A task that goes on goes on telling. -/
theorem Sound.telling_go (h : s.Sound setup) (t next : Task) (events : List Happening)
    (htask : s.task? t.node = some t) (hgoes : t.Goes setup s next events)
    (htelling : s.Telling t.node) : (s.proceed next events).Telling t.node := by
  have hhistory : (s.proceed next events).history t.node = s.history t.node ++ events :=
    history_own t.node events rfl hgoes.concerns
  rcases htelling.working t htask with ⟨ready, htried, hallows⟩
  rcases hgoes.tried htried hallows with ⟨ready', htried', hallows'⟩
  rw [← hhistory] at htried'
  refine ⟨.going htried', fun node hr => ?_, fun t' ht' => ?_⟩
  -- What is worked on was launched, and its record says so.
  · rcases h.exists_node_of_task? t htask with ⟨node', hnamed, hnode'⟩
    have hworking := (h.working_of_task? t htask node' hnode' hnamed).1
    have hboth := Option.some.inj (hworking.symm.trans hr)
    exact absurd (congrArg NodeRun.status hboth) nofun
  · have hput := s.task?_put next t.node
    rw [hgoes.node, if_pos rfl, htask, Option.map_some] at hput
    rw [← Option.some.inj (hput.symm.trans ht')]
    exact ⟨ready', htried', hallows'⟩

/-- A task that ends leaves a life that is complete. -/
theorem Sound.telling_close (h : s.Sound setup) (t : Task) (change : NodeRun → NodeRun)
    (events : List Happening) (lost : Bool) (htask : s.task? t.node = some t)
    (hends : t.Ends setup s change events lost) (htelling : s.Telling t.node) :
    (s.retire t.node change events lost).Telling t.node := by
  have hdrop := s.task?_drop t.node t.node
  rw [if_pos rfl] at hdrop
  rcases h.exists_node_of_task? t htask with ⟨node, hnamed, hnode⟩
  have hworking : (s.drop t.node).record? t.node = some (NodeRun.ofNode node).launched :=
    (h.working_of_task? t htask node hnode hnamed).1
  have hrecord := record?_amend_self (s.drop t.node) t.node change _ hworking
  rcases htelling.working t htask with ⟨ready, htried, _⟩
  refine telling_of_isTerminal _ hrecord (hends.isTerminal _) hdrop ?_
  rw [history_own t.node events rfl hends.concerns]
  exact hends.life htried

/-- What a step announces goes on with the life of its node. -/
theorem Move.telling (hmove : s.Move setup s') (h : s.Sound setup) (hopen : s.status = none)
    (id : NodeId) (htelling : s.Telling id) : s'.Telling id := by
  cases hmove with
  | pass => exact htelling.of_same rfl rfl rfl
  | enter =>
      -- That a stage begins is not told of a node.
      refine htelling.of_other _ rfl (fun e he => ?_) rfl rfl
      rw [List.mem_singleton.mp he]
      exact nofun
  | block key rest node predecessor status hentering hnode =>
      have hkey := (setup.graph.mem_of_node? key node hnode).2
      rw [← hkey] at hentering hnode ⊢
      by_cases hid : id = node.id
      · rw [hid] at htelling ⊢
        exact h.telling_block hopen node rest predecessor status hentering hnode htelling
      -- What is told of the node that is skipped is not told of another one.
      · refine htelling.of_other _ rfl (fun e he heq => hid ?_)
          (((s.leave rest).record?_amend node.id id _).trans (if_neg hid)) rfl
        rw [List.mem_singleton.mp he] at heq
        exact (Option.some.inj heq).symm
  | launch key rest node hentering hnode =>
      have hkey := (setup.graph.mem_of_node? key node hnode).2
      rw [← hkey] at hentering hnode ⊢
      have hnone := (h.upcoming_of_entering node rest hentering hopen hnode).2.1
      by_cases hid : id = node.id
      · rw [hid] at htelling ⊢
        exact h.telling_launch hopen node rest hentering hnode htelling
      · exact htelling.of_same (((s.leave rest).record?_amend node.id id _).trans (if_neg hid))
          (((s.leave rest).task?_enlist node.id id _ rfl hnone).trans (if_neg hid)) rfl
  | go t next events htask hgoes =>
      by_cases hid : id = t.node
      · rw [hid] at htelling ⊢
        exact h.telling_go t next events htask hgoes htelling
      -- What a task tells is about its own node.
      · have hput := s.task?_put next id
        rw [hgoes.node, if_neg hid] at hput
        refine htelling.of_other events rfl (fun e he heq => hid ?_) rfl hput
        exact Option.some.inj (heq.symm.trans (hgoes.concerns e he))
  | close t change events lost htask _ hends =>
      by_cases hid : id = t.node
      · rw [hid] at htelling ⊢
        exact h.telling_close t change events lost htask hends htelling
      · refine htelling.of_other events rfl (fun e he heq => hid ?_)
          (((s.drop t.node).record?_amend t.node id change).trans (if_neg hid))
          ((s.task?_drop t.node id).trans (if_neg hid))
        exact Option.some.inj (heq.symm.trans (hends.concerns e he))
  | finish hentering htasks hahead =>
      exact telling_of_finish s.interrupted (h.drained hentering htasks hahead) id htelling
  | abandon _ htasks _ hcancelled =>
      exact telling_of_finish true (h.drained_of_cancelled hopen htasks hcancelled) id htelling

/-- Nothing was announced of a node at the beginning. -/
theorem start_telling (setup : Setup) (id : NodeId) : (start setup).Telling id := by
  have hnothing : (start setup).history id = [] := rfl
  refine ⟨?_, fun _ _ => hnothing, fun t ht => ?_⟩
  · rw [hnothing]
    exact .going .ready
  · rw [task?_eq_none_of_nil _ id rfl] at ht
    exact absurd ht nofun

end RunState

namespace Course

variable {setup : Setup}

/-- Every node has a life. -/
theorem telling (choices : List Choice) (s : RunState) (h : Course setup choices s) (id : NodeId) :
    s.Telling id := by
  refine induction (P := fun _ s => s.Telling id) (RunState.start_telling setup id) ?_ choices s h
  -- A step keeps every life, whichever node it is about.
  intro choices choice u u' hu ih hstep
  rcases RunState.does_of_step setup u u' choice hstep with ⟨hopen, hdoes⟩
  cases hdoes with
  | tick | cancel => exact ih.of_same rfl rfl rfl
  | work _ _ _ hmove => exact hmove.telling hu.sound hopen id ih

/-- Until a run ends, what was announced after its beginning is of the stages
    that were entered. -/
theorem announced (choices : List Choice) (s : RunState) (h : Course setup choices s)
    (hopen : s.status = none) : ∃ during, s.events = setup.opening :: during ∧
      Announced setup.plan.stages s.stage during := by
  refine induction (P := fun _ s => s.status = none → ∃ during,
    s.events = setup.opening :: during ∧ Announced setup.plan.stages s.stage during)
    ?_ ?_ choices s h hopen
  -- There is a record for each node, and the records are what is counted.
  · intro _
    have hlength := congrArg List.length (RunState.start_keys setup h.planned)
    rw [List.length_map] at hlength
    refine ⟨[], ?_, .nothing⟩
    rw [Setup.opening, ← hlength]
    rfl
  · intro choices choice u u' hu ih hstep hopen'
    rcases RunState.does_of_step setup u u' choice hstep with ⟨hopen, hdoes⟩
    rcases ih hopen with ⟨during, hevents, hannounced⟩
    cases hdoes with
    | tick | cancel => exact ⟨during, hevents, hannounced⟩
    | work _ _ _ hmove =>
        rcases hmove.announced hu.sound hopen' during hannounced with ⟨events, hmore, hafter⟩
        refine ⟨during ++ events, ?_, hafter⟩
        rw [hmore, hevents, List.cons_append]

/-- When a run is over, the stages followed one another between its beginning
    and its end. -/
theorem framed (choices : List Choice) (s : RunState) (h : Course setup choices s)
    (hover : s.status ≠ none) : Framed setup s := by
  refine induction (P := fun _ s => s.status ≠ none → Framed setup s) ?_ ?_ choices s h hover
  · exact fun hstart => absurd rfl hstart
  -- Nothing is done in a run that is over, so this step is the one that ends it,
  -- and what it adds comes after all that was announced of the stages.
  · intro choices choice u u' hu _ hstep hover'
    rcases RunState.does_of_step setup u u' choice hstep with ⟨hopen, hdoes⟩
    rcases hu.announced choices u hopen with ⟨during, hevents, hannounced⟩
    cases hdoes with
    | tick | cancel => exact absurd hopen hover'
    | work _ _ _ hmove =>
        rcases hmove.concludes hu.sound hopen hover' with ⟨never, hlast, hreach⟩
        refine ⟨u.stage, during, never, ?_, hannounced, ?_⟩
        · rw [hlast, hevents, List.cons_append, List.cons_append]
        · exact hreach.imp_left (Nat.le_antisymm hannounced.le_length)

end Course

/-- What an engine announces when it runs a graph are the events of a course. -/
theorem Engine.announced_course (e : Engine) (order : RunOrder) (graph : Graph) (plan : Plan)
    (w : World) (hplan : graph.plan = .ok plan) :
    ∃ choices s, Course (e.setup order graph plan w) choices s ∧
      e.announced order graph w = s.events.map fun what => ⟨order.run, what⟩ := by
  rcases e.execute_course order graph plan w hplan with ⟨choices, last, hcourse, -, hdone⟩
  exact ⟨choices, last.run, hcourse, announced_of_ok hdone⟩

/-- The events of a run are in order, whatever is chosen in it, and an engine that
    runs a graph announces the events of such a run. A graph that cannot be
    planned is not run, and nothing is announced of it: whatever was announced
    before is all that is announced then. -/
theorem events_in_order (setup : Setup) :
    (∀ choices s, Course setup choices s → s.status ≠ none → Orderly setup s) ∧
    (∀ cycle, setup.graph.plan = .error cycle → ∀ (e : Engine) (order : RunOrder) (w : World),
      e.execute order setup.graph w = (.error cycle, w) ∧
        e.announced order setup.graph w = [] ∧
        ∀ heard, (Engine.executeAfter heard e order setup.graph w).2 = heard) ∧
    (∀ plan, setup.graph.plan = .ok plan → ∀ (e : Engine) (order : RunOrder) (w : World),
      ∃ choices s, Course (e.setup order setup.graph plan w) choices s ∧
        e.announced order setup.graph w = s.events.map fun what => ⟨order.run, what⟩) := by
  refine ⟨?_, ?_, fun plan hplan e order w => e.announced_course order _ plan w hplan⟩
  · intro choices s h hover
    exact ⟨h.framed choices s hover, fun id => (h.telling choices s id).life⟩
  · intro cycle hplan e order w
    -- The plan is made before anything is announced, so the engine stops there.
    have hnone : ∀ heard, Engine.executeAfter heard e order setup.graph w =
        ((.error cycle, w), heard) := by
      intro heard
      rw [Engine.executeAfter, hplan]
    rw [Engine.execute, Engine.announced, hnone]
    exact ⟨rfl, rfl, fun heard => by rw [hnone]⟩

/-- A model is asked again until its answer passes a check, and no planner can
    say how often. -/
def asking : Setup := { report with
  graph := .ofPairs [("ask", .gpt4o), ("check", .condition)] [("ask", "check"), ("check", "ask")] }

theorem events_in_order_modelDown :
    (∃ s, Course report modelDown s ∧ s.status = some .partly ∧ Orderly report s) ∧
      asking.graph.plan = .error ⟨"ask"⟩ ∧ ∀ (e : Engine) (order : RunOrder) (w : World),
        e.announced order asking.graph w = [] := by
  constructor
  · rcases Course.exists_of_observed report modelDown RunState.status (some .partly) rfl rfl with
      ⟨s, hcourse, hstatus⟩
    refine ⟨s, hcourse, hstatus, (events_in_order report).1 modelDown s hcourse ?_⟩
    rw [hstatus]
    exact Option.some_ne_none _
  · have hplan : asking.graph.plan = .error ⟨"ask"⟩ := rfl
    exact ⟨hplan, fun e order w => ((events_in_order asking).2.1 _ hplan e order w).2.1⟩

end Workflow
