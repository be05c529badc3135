import Workflow.Proofs.Endings

/-!
# What Is Noted Stays Noted

How the record of a node changes in the course of a run.

Little is ever noted of a node. It is launched, or a predecessor blocks it. Its
task ends. Or the run ends, and it was never launched. `Notes` lists that,
together with what is reported of the end of the node and whether cancelling
has taken that end away, and `Move.noted` says that a step notes nothing else.

What is noted is noted in a record that does not yet say how its node ended, so
a record that says so is there to stay (`Course.extend`). Nor is anything lost in a
stage that is over: the next stage is not entered once the run is cancelled, so
whatever is launched stands on predecessors that have ended by themselves
(`grounded_of_current`).

## Main definitions

* `NodeRun.Lost`, `NodeRun.Kept`: Whether cancelling has taken an end away.
* `reports`: What is reported of the end of a node.
* `Notes`, `Noted`: What a step notes of a node.
* `Grounded`: All predecessors have ended, and none of them by cancelling.

## Theorems

* `Move.noted`, `noted_of_step`: What a step notes of a node.
* `exists_of_append`, `induction_from`: A run from a moment of it onwards.
* `Course.extend`: What is known of a node that has ended is there to stay.
* `Course.kept_of_depth_lt`: Nothing is lost in a stage that is over.
-/

namespace Workflow

/-- Whether a node is reported to have ended. -/
def Happening.ends (id : NodeId) : Happening → Bool
  | .nodeFinished node _ _ _ => node = id
  | .nodeSkipped node _ => node = id
  | _ => false

/-- What has succeeded or failed has ended. -/
theorem NodeStatus.isTerminal_of_decided {status : NodeStatus}
    (h : status = .succeeded ∨ status = .failed) : status.isTerminal = true := by
  rcases h with heq | heq <;> rw [heq] <;> rfl

namespace NodeRun

/-- Cancelling has taken away what would have become of a node. -/
def Lost (r : NodeRun) : Prop := ∃ error, r.error = some error ∧ error.cause = .cancelled

/-- A node has ended, and not by cancelling. -/
def Kept (r : NodeRun) : Prop := r.status.isTerminal = true ∧ ¬ r.Lost

end NodeRun

namespace Task

variable {setup : Setup} {s : RunState} {t next : Task} {events : List Happening}

/-- The end of a task is reported of its node. -/
theorem Ends.ends_iff {change : NodeRun → NodeRun} {lost : Bool}
    (h : t.Ends setup s change events lost) (e : Happening) (he : e ∈ events) (id : NodeId) :
    e.ends id = true ↔ t.node = id := by
  cases h with
  | settled | discarded | missed =>
      rw [List.mem_singleton.mp he]
      exact decide_eq_true_iff
  | dropped => exact absurd he List.not_mem_nil

/-- What a task is about stays the same. -/
theorem Goes.keeps (h : t.Goes setup s next events) :
    next.node = t.node ∧ next.kind = t.kind ∧ next.config = t.config ∧ next.inputs = t.inputs := by
  cases h <;> exact ⟨rfl, rfl, rfl, rfl⟩

/-- While a task goes on, no end is reported. -/
theorem Goes.not_ends (h : t.Goes setup s next events) (id : NodeId) :
    ∀ e ∈ events, ¬ e.ends id = true := by
  cases h with
  | begins | rests | wakes =>
      intro e he
      rw [List.mem_singleton.mp he]
      exact Bool.false_ne_true
  | turnedAway | succeeds | fails | breaksDown | cutShort => exact nofun

end Task

namespace RunState

/-- What is reported of the end of a node. -/
def reports (s : RunState) (id : NodeId) : List Happening := s.events.filter (Happening.ends id)

/-- What a step notes of a node: what becomes of the record, what is reported
    of the end of the node, and whether cancelling has taken that end away. -/
inductive Notes (setup : Setup) (s : RunState) (node : Node) (r : NodeRun) :
    NodeRun → List Happening → Bool → Prop
  /-- Nothing is noted. -/
  | nothing : Notes setup s node r r [] false
  /-- The node is launched. -/
  | launched (hfresh : r = .ofNode node) : Notes setup s node r r.launched [] false
  /-- The node is skipped because of a predecessor. -/
  | blocked (predecessor : NodeId) (status : NodeStatus) (hentering : node.id ∈ s.entering)
      (hfresh : r = .ofNode node) :
      Notes setup s node r (s.blockedRun setup predecessor status r)
        [.nodeSkipped node.id (blockedReason predecessor status)] false
  /-- The task of the node ends. -/
  | ended (t : Task) (change : NodeRun → NodeRun) (events : List Happening) (lost : Bool)
      (htask : s.task? t.node = some t) (hnode : t.node = node.id)
      (hworking : r = (NodeRun.ofNode node).launched) (hends : t.Ends setup s change events lost) :
      Notes setup s node r (change r) events lost
  /-- The run ends, and the node was never launched. -/
  | forgone (hfresh : r = .ofNode node) (hcancelled : s.cancelled = true) :
      Notes setup s node r (r.skip (s.instant setup) untouchedError)
        [.nodeSkipped node.id cancelReason] true

/-- What a step does to the record of a node and to what is reported of it. -/
structure Noted (setup : Setup) (s s' : RunState) (node : Node) (r r' : NodeRun)
    (events : List Happening) (lost : Bool) : Prop where
  record : s'.record? node.id = some r'
  reports : s'.reports node.id = s.reports node.id ++ events
  notes : s.Notes setup node r r' events lost
  interrupted : lost = true → s'.interrupted = true

variable {setup : Setup} {s s' : RunState}

/-- What has ended is not noted any more. -/
theorem Notes.eq_of_isTerminal {node : Node} {r r' : NodeRun} {events : List Happening}
    {lost : Bool} (h : s.Notes setup node r r' events lost)
    (hterminal : r.status.isTerminal = true) : r' = r := by
  cases h with
  | nothing => rfl
  | launched hfresh | blocked _ _ _ hfresh | ended _ _ _ _ _ _ hfresh | forgone hfresh =>
      rw [hfresh] at hterminal
      exact absurd hterminal Bool.false_ne_true

theorem reports_append (id : NodeId) (events : List Happening)
    (h : s'.events = s.events ++ events) :
    s'.reports id = s.reports id ++ events.filter (Happening.ends id) := by
  rw [reports, h, List.filter_append]
  rfl

/-- A step that changes no record and reports no end notes nothing. -/
theorem noted_nothing (node : Node) (r : NodeRun) (hr : s.record? node.id = some r)
    (hrecord : s'.record? node.id = s.record? node.id) (events : List Happening)
    (hevents : s'.events = s.events ++ events) (hquiet : ∀ e ∈ events, ¬ e.ends node.id = true) :
    s.Noted setup s' node r r [] false where
  record := hrecord.trans hr
  reports := by rw [reports_append node.id events hevents, List.filter_eq_nil_iff.mpr hquiet]
  notes := .nothing
  interrupted := fun h => absurd h Bool.false_ne_true

/-- A step that changes one record and reports the end of its node notes
    nothing of any other one. -/
theorem noted_of_change (key : NodeId) (change : NodeRun → NodeRun) (events : List Happening)
    (lost : Bool)
    (hrecords : ∀ id, s'.record? id =
      if id = key then (s.record? id).map change else s.record? id)
    (hevents : s'.events = s.events ++ events)
    (hown : ∀ e ∈ events, ∀ id, e.ends id = true ↔ key = id)
    (hinterrupted : lost = true → s'.interrupted = true) (node : Node) (r : NodeRun)
    (hr : s.record? node.id = some r)
    (hnotes : node.id = key → s.Notes setup node r (change r) events lost) :
    ∃ r' events lost, s.Noted setup s' node r r' events lost := by
  -- All that is reported is of the node whose record changes, so the others keep both.
  by_cases hid : node.id = key
  · refine ⟨change r, events, lost, ?_, ?_, hnotes hid, hinterrupted⟩
    · rw [hrecords, if_pos hid, hr, Option.map_some]
    · rw [reports_append node.id events hevents, List.filter_eq_self.mpr]
      exact fun e he => (hown e he node.id).mpr hid.symm
  · refine ⟨r, [], false, noted_nothing node r hr ?_ events hevents ?_⟩
    · rw [hrecords, if_neg hid]
    · exact fun e he hends => hid ((hown e he node.id).mp hends).symm

theorem interrupted_finish (setup : Setup) (s : RunState) :
    (s.finish setup).interrupted = (s.interrupted || !s.untouched.isEmpty) := by
  rw [finish_eq]
  rfl

theorem Sound.nodup_untouched (h : s.Sound setup) : s.untouched.Nodup :=
  h.nodup.sublist (List.filter_sublist.map Prod.fst)

/-- Of what happens at the end of a run, a node is concerned only by being
    skipped because it was never launched, and that happens once. -/
theorem filter_finish (setup : Setup) (hnodup : s.untouched.Nodup) (id : NodeId)
    (p : Happening → Bool)
    (hskipped : ∀ key reason, p (.nodeSkipped key reason) = decide (key = id))
    (hlast : ∀ status ms, p (.runCompleted status ms) = false) :
    (s.finish setup).events.filter p =
      s.events.filter p ++ if id ∈ s.untouched then [.nodeSkipped id cancelReason] else [] := by
  have hmap : (s.untouched.map fun key => Happening.nodeSkipped key cancelReason).filter p =
      (s.untouched.filter fun key => key = id).map fun key =>
        Happening.nodeSkipped key cancelReason := by
    rw [List.filter_map]
    refine congrArg _ (List.filter_congr fun key _ => ?_)
    exact hskipped key cancelReason
  have hcount : s.untouched.count id = if id ∈ s.untouched then 1 else 0 := hnodup.count
  rcases exists_status_finish setup s with ⟨status, _, hevents⟩
  -- The nodes that were never launched are listed once each, so one event is left for `id`.
  have hone : (s.untouched.filter fun key => key = id) =
      List.replicate (s.untouched.count id) id := List.filter_eq _
  rw [hevents, List.filter_append, List.filter_append,
    List.filter_cons_of_neg (by rw [hlast]; exact Bool.false_ne_true), List.filter_nil,
    List.append_nil, hmap, hone, hcount]
  by_cases hmem : id ∈ s.untouched
  · rw [if_pos hmem, if_pos hmem]
    rfl
  · rw [if_neg hmem, if_neg hmem]
    rfl

/-- What is reported at the end of a run: nodes that were never launched, each
    of them once. -/
theorem reports_finish (setup : Setup) (hnodup : s.untouched.Nodup) (id : NodeId) :
    (s.finish setup).reports id =
      s.reports id ++ if id ∈ s.untouched then [.nodeSkipped id cancelReason] else [] :=
  filter_finish setup hnodup id (Happening.ends id) (fun _ _ => rfl) fun _ _ => rfl

/-- What the end of a run notes of a node. That the run may have been given up
    before its last stage is all that `given` says. -/
theorem noted_of_finish (given : Bool) (h : Drained setup { s with interrupted := given })
    (node : Node) (hnode : setup.graph.node? node.id = some node) (r : NodeRun)
    (hr : s.record? node.id = some r) :
    ∃ r' events lost,
      s.Noted setup ({ s with interrupted := given }.finish setup) node r r' events lost := by
  have hrecord := record?_finish setup { s with interrupted := given } node.id
  have hreports := reports_finish setup h.sound.nodup_untouched node.id
  have huntouched := mem_untouched_iff { s with interrupted := given } h.sound.nodup node.id
  have hsame : record? { s with interrupted := given } node.id = some r := hr
  rw [hsame, Option.map_some] at hrecord
  by_cases hmem : node.id ∈ untouched { s with interrupted := given }
  · rw [if_pos hmem] at hrecord hreports
    -- What is pending now was never launched, and that is because the run was cancelled.
    rcases huntouched.mp hmem with ⟨r', hr', hpending⟩
    rw [hsame, Option.some.injEq] at hr'
    have hfresh : r = .ofNode node := by
      rcases h.sound.settled_or_upcoming h.tasks node hnode with
        ⟨r'', hr'', _, _, hsettled⟩ | ⟨hfresh, _, _⟩
      · rw [hsame, Option.some.injEq] at hr''
        have hterminal := hsettled.isTerminal
        rw [← hr'', hr', hpending] at hterminal
        exact absurd hterminal Bool.false_ne_true
      · exact Option.some.inj (hsame.symm.trans hfresh)
    refine ⟨_, _, _, hrecord, hreports, .forgone hfresh (h.cancelled_of_untouched node.id hmem), ?_⟩
    intro _
    rw [interrupted_finish, Bool.or_eq_true, Bool.not_eq_true', List.isEmpty_eq_false_iff]
    exact Or.inr (List.ne_nil_of_mem hmem)
  · rw [if_neg hmem] at hrecord hreports
    exact ⟨r, [], false, hrecord, hreports, .nothing, fun h => absurd h Bool.false_ne_true⟩

/-- What a step notes of a node. -/
theorem Move.noted (hmove : s.Move setup s') (h : s.Sound setup) (hopen : s.status = none)
    (node : Node) (hnode : setup.graph.node? node.id = some node) (r : NodeRun)
    (hr : s.record? node.id = some r) :
    ∃ r' events lost, s.Noted setup s' node r r' events lost := by
  cases hmove with
  | pass =>
      exact ⟨r, [], false, noted_nothing node r hr rfl [] (List.append_nil _).symm nofun⟩
  | enter =>
      -- That a stage begins is not said of a node.
      refine ⟨r, [], false, noted_nothing node r hr rfl _ rfl ?_⟩
      intro e he
      rw [List.mem_singleton.mp he]
      exact Bool.false_ne_true
  | go t next events _ hgoes =>
      exact ⟨r, [], false, noted_nothing node r hr rfl events rfl (hgoes.not_ends node.id)⟩
  | block id rest other predecessor status hentering hother =>
      have hid := (setup.graph.mem_of_node? id other hother).2
      rw [← hid] at hentering ⊢
      have hchange := fun key => (s.leave rest).record?_amend other.id key
        (s.blockedRun setup predecessor status)
      refine noted_of_change other.id (s.blockedRun setup predecessor status) _ false ?_ rfl ?_
        nofun node r hr ?_
      · exact hchange
      · intro e he key
        rw [List.mem_singleton.mp he]
        exact decide_eq_true_iff
      -- What is entered was not touched before.
      · intro hsame
        rw [← hsame] at hentering ⊢
        have hfresh := (h.upcoming_of_entering node rest hentering hopen hnode).1
        exact .blocked predecessor status (by rw [hentering]; exact List.mem_cons_self)
          (Option.some.inj (hr.symm.trans hfresh))
  | launch id rest other hentering hother =>
      -- What is launched was not touched before either.
      have hid := (setup.graph.mem_of_node? id other hother).2
      rw [← hid] at hentering ⊢
      have hchange := fun key => (s.leave rest).record?_amend other.id key NodeRun.launched
      refine noted_of_change other.id NodeRun.launched [] false ?_ ?_ nofun nofun node r hr ?_
      · exact hchange
      · exact (List.append_nil s.events).symm
      · intro hsame
        rw [← hsame] at hentering
        have hfresh := (h.upcoming_of_entering node rest hentering hopen hnode).1
        exact .launched (Option.some.inj (hr.symm.trans hfresh))
  | close t change events lost htask _ hends =>
      have hchange := fun key => (s.drop t.node).record?_amend t.node key change
      refine noted_of_change t.node change events lost ?_ rfl hends.ends_iff ?_ node r hr ?_
      · exact hchange
      · intro hlost
        rw [retire, hlost, Bool.or_true]
      -- What has a task was launched, and nothing was noted since.
      · intro hsame
        have hworking := (h.working_of_task? t htask node hnode hsame).1
        rw [← hsame] at hworking
        exact .ended t change events lost htask hsame.symm
          (Option.some.inj (hr.symm.trans hworking)) hends
  | finish hentering htasks hahead =>
      exact noted_of_finish s.interrupted (h.drained hentering htasks hahead) node hnode r hr
  | abandon _ htasks _ hcancelled =>
      exact noted_of_finish true (h.drained_of_cancelled hopen htasks hcancelled) node hnode r hr

/-- What is noted of a node whatever is chosen. -/
theorem noted_of_step (h : s.Sound setup) (choice : Choice)
    (hstep : s.step setup choice = some s') (node : Node)
    (hnode : setup.graph.node? node.id = some node) (r : NodeRun)
    (hr : s.record? node.id = some r) :
    ∃ r' events lost, s.Noted setup s' node r r' events lost := by
  rcases does_of_step setup s s' choice hstep with ⟨hopen, hdoes⟩
  cases hdoes with
  | tick | cancel =>
      exact ⟨r, [], false, noted_nothing node r hr rfl [] (List.append_nil _).symm nofun⟩
  | work _ _ _ hmove => exact hmove.noted h hopen node hnode r hr

/-- Nothing is known of a node when a run starts. -/
theorem start_fresh (setup : Setup) (hplan : setup.graph.plan = .ok setup.plan) (id : NodeId)
    (r : NodeRun) (hr : (start setup).record? id = some r) : ∃ node, r = .ofNode node := by
  have hid := (start_sound setup hplan).hasNode_of_record? id r hr
  rcases setup.graph.exists_node? id hid with ⟨node, hnamed, hnode⟩
  rw [← hnamed, start_record? setup hplan node hnode, Option.some.injEq] at hr
  exact ⟨node, hr.symm⟩

/-- What is known of a node that has ended is not changed by what is done. -/
theorem Move.extend (hmove : s.Move setup s') (h : s.Sound setup) (hopen : s.status = none) :
    s.Extends s' where
  record := by
    intro id r hr hterminal
    rcases setup.graph.exists_node? id (h.hasNode_of_record? id r hr) with ⟨node, hid, hnode⟩
    rw [← hid] at hr ⊢
    rcases hmove.noted h hopen node hnode r hr with ⟨r', _, _, hnoted⟩
    rw [hnoted.record, hnoted.notes.eq_of_isTerminal hterminal]
  cancelled := by
    rw [hmove.cancelled]
    exact fun hcancelled => hcancelled

theorem extends_of_step (h : s.Sound setup) (choice : Choice)
    (hstep : s.step setup choice = some s') : s.Extends s' := by
  rcases does_of_step setup s s' choice hstep with ⟨hopen, hdoes⟩
  cases hdoes with
  | tick => exact ⟨fun _ _ hr _ => hr, fun hcancelled => hcancelled⟩
  | cancel => exact ⟨fun _ _ hr _ => hr, fun _ => rfl⟩
  | work _ _ _ hmove => exact hmove.extend h hopen

theorem Extends.refl (s : RunState) : s.Extends s :=
  ⟨fun _ _ hr _ => hr, fun hcancelled => hcancelled⟩

theorem Extends.trans {s'' : RunState} (h : s.Extends s') (h' : s'.Extends s'') :
    s.Extends s'' where
  record := fun id r hr hterminal => h'.record id r (h.record id r hr hterminal) hterminal
  cancelled := fun hcancelled => h'.cancelled (h.cancelled hcancelled)

/-- A run in which a node is worked on is open. -/
theorem Sound.open_of_task? (h : s.Sound setup) (t : Task) (htask : s.task? t.node = some t) :
    s.status = none := by
  rcases h.exists_node_of_task? t htask with ⟨node, hnamed, hnode⟩
  rw [← hnamed] at htask
  cases h.standing node hnode with
  | upcoming hopen | working _ hopen => exact hopen
  | settled _ _ _ _ hnone =>
      rw [htask] at hnone
      exact absurd hnone (Option.some_ne_none t)

/-- What has ended in a run that is not cancelled was not lost. -/
theorem Sound.kept_of_isTerminal (h : s.Sound setup) (hcalm : s.cancelled = false) (id : NodeId)
    (r : NodeRun) (hr : s.record? id = some r) (hterminal : r.status.isTerminal = true) :
    r.Kept := by
  refine ⟨hterminal, ?_⟩
  -- Only cancelling makes an error of this cause.
  rintro ⟨error, herror, hcause⟩
  rcases h.settled_of_isTerminal id r hr hterminal with
    ⟨node, _, _, _, _, hsettled⟩
  cases hsettled with
  | succeeded output hstatus houtput hnone =>
      rw [hnone] at herror
      exact absurd herror.symm (Option.some_ne_none error)
  | failed other hstatus houtput hother hattempt =>
      rw [hother, Option.some.injEq] at herror
      rw [herror, hcause] at hattempt
      exact absurd hattempt (by decide)
  | blocked predecessor status hstatus houtput hother =>
      rw [hother, Option.some.injEq] at herror
      rw [← herror] at hcause
      exact absurd hcause nofun
  | cancelled other hstatus houtput hother hc hcancelled =>
      exact absurd (hcancelled.symm.trans hcalm) Bool.true_eq_false.mp

/-- A task that is there after a step was there before it, or has gone on, or
    is that of a node that was launched. -/
theorem Move.task?_cases (hmove : s.Move setup s') (h : s.Sound setup) (hopen : s.status = none)
    (id : NodeId) (next : Task) (hnext : s'.task? id = some next) :
    s.task? id = some next ∨
    (∃ t events, s.task? id = some t ∧ t.Goes setup s next events) ∨
    (id ∈ s.entering ∧ ∃ node, next = s.newTask setup node id) := by
  cases hmove with
  | pass | block | enter => exact Or.inl hnext
  | finish | abandon =>
      rw [finish_eq] at hnext
      exact Or.inl hnext
  | launch key rest node hentering hnode =>
      have hkey := (setup.graph.mem_of_node? key node hnode).2
      rw [← hkey] at hentering hnode hnext
      -- What is to be launched has no task yet, so the new one is found.
      have hnone := (h.upcoming_of_entering node rest hentering hopen hnode).2.1
      rw [task?_enlist (s.leave rest) node.id id _ rfl hnone] at hnext
      by_cases hid : id = node.id
      · rw [if_pos hid, Option.some.injEq] at hnext
        rw [hentering, hid]
        exact Or.inr (Or.inr ⟨List.mem_cons_self, node, hnext.symm⟩)
      · rw [if_neg hid] at hnext
        exact Or.inl hnext
  | go t after events htask hgoes =>
      have hput := s.task?_put after id
      rw [hgoes.node] at hput
      have hafter := hput.symm.trans hnext
      -- Either the task in question goes on, or it stays as it was.
      by_cases hid : id = t.node
      · rw [if_pos hid, hid, htask, Option.map_some, Option.some.injEq] at hafter
        rw [hid, ← hafter]
        exact Or.inr (Or.inl ⟨t, events, htask, hgoes⟩)
      · rw [if_neg hid] at hafter
        exact Or.inl hafter
  | close t change events lost =>
      have hafter := (s.task?_drop t.node id).symm.trans hnext
      -- What has ended is not there any more.
      by_cases hid : id = t.node
      · rw [if_pos hid] at hafter
        exact absurd hafter nofun
      · rw [if_neg hid] at hafter
        exact Or.inl hafter

/-- Only a run that is not cancelled enters a stage. -/
theorem Move.stage (hmove : s.Move setup s') : s'.stage = s.stage ∨ s'.cancelled = false := by
  cases hmove with
  | pass | block | launch | go | close => exact Or.inl rfl
  | enter _ _ _ _ _ hcalm => exact Or.inr hcalm
  | finish | abandon =>
      rw [finish_eq]
      exact Or.inl rfl

/-- All predecessors of a node have ended, and none of them by cancelling. -/
def Grounded (setup : Setup) (s : RunState) (id : NodeId) : Prop :=
  ∀ p ∈ setup.plan.predecessorsOf id, ∃ r, s.record? p = some r ∧ r.Kept

theorem findSome?_congr {α β : Type} {f g : α → Option β} (l : List α)
    (h : ∀ a ∈ l, f a = g a) : l.findSome? f = l.findSome? g := by
  induction l with
  | nil => rfl
  | cons a rest ih =>
      rw [List.findSome?_cons, List.findSome?_cons, h a List.mem_cons_self,
        ih fun b hb => h b (List.mem_cons_of_mem a hb)]

/-- What is seen of the predecessors of a node depends on how they ended and
    what they put out. -/
theorem sources_congr {setup setup' : Setup} {s u : RunState} {id : NodeId}
    (hplan : setup'.plan = setup.plan)
    (h : ∀ p ∈ setup.plan.predecessorsOf id, ∃ r r', s.record? p = some r ∧
      u.record? p = some r' ∧ r'.status = r.status ∧ r'.output = r.output) :
    u.blocker? setup' id = s.blocker? setup id ∧ u.inputsOf setup' id = s.inputsOf setup id := by
  constructor
  · rw [blocker?_eq, blocker?_eq, hplan]
    refine findSome?_congr _ fun p hp => ?_
    rcases h p hp with ⟨r, r', hr, hr', hstatus, -⟩
    simp only [objection?, hr, hr', hstatus]
  · rw [inputsOf, inputsOf, hplan]
    refine List.filterMap_congr fun p hp => ?_
    rcases h p hp with ⟨r, r', hr, hr', hstatus, houtput⟩
    rw [record?] at hr hr'
    simp only [hr, hr', hstatus, houtput]

theorem Grounded.mono {id : NodeId} (h : s.Grounded setup id) (hext : s.Extends s') :
    s'.Grounded setup id := by
  intro p hp
  rcases h p hp with ⟨r, hr, hkept⟩
  exact ⟨r, hext.record p r hr hkept.1, hkept⟩

/-- What is seen of predecessors that have ended is seen ever after. -/
theorem Grounded.sources_eq {id : NodeId} (h : s.Grounded setup id) (hext : s.Extends s') :
    s'.blocker? setup id = s.blocker? setup id ∧ s'.inputsOf setup id = s.inputsOf setup id := by
  refine sources_congr rfl fun p hp => ?_
  rcases h p hp with ⟨r, hr, hkept⟩
  exact ⟨r, r, hr, hext.record p r hr hkept.1, rfl, rfl⟩

end RunState

namespace Course

variable {setup : Setup}

/-- Every moment of a run is reached on the way to its end. -/
theorem exists_of_append (before after : List Choice) (s : RunState)
    (h : Course setup (before ++ after) s) :
    ∃ u, Course setup before u ∧ u.follow setup after = some s := by
  have hfollowed := h.followed
  rw [RunState.follow_append] at hfollowed
  rcases Option.bind_eq_some_iff.mp hfollowed with ⟨u, hu, hs⟩
  exact ⟨u, ⟨h.planned, hu⟩, hs⟩

/-- What holds at a moment of a run and is kept by every step from there holds
    ever after. -/
theorem induction_from {P : List Choice → RunState → Prop} (before : List Choice) (u : RunState)
    (hu : Course setup before u) (hstart : P [] u)
    (hstep : ∀ after choice s s', Course setup (before ++ after) s → P after s →
      s.step setup choice = some s' → P (after ++ [choice]) s')
    (after : List Choice) (s : RunState) (h : Course setup (before ++ after) s) : P after s := by
  induction after using List.reverseRecOn generalizing s with
  | nil =>
      rw [List.append_nil] at h
      rw [h.unique before s u hu]
      exact hstart
  | append_singleton after choice ih =>
      rw [← List.append_assoc] at h
      rcases (RunState.follow_concat_eq_some_iff setup _ s (before ++ after) choice).mp
        h.followed with ⟨v, hfollowed, hv⟩
      have hcourse : Course setup (before ++ after) v := ⟨h.planned, hfollowed⟩
      exact hstep after choice v s hcourse (ih v hcourse) hv

/-- What is known of a node after a step is what was noted in it. -/
theorem exists_noted (choices : List Choice) (s : RunState) (h : Course setup choices s)
    (choice : Choice) (s' : RunState) (hstep : s.step setup choice = some s') (id : NodeId)
    (r' : NodeRun) (hr' : s'.record? id = some r') :
    ∃ node r events lost, node.id = id ∧ setup.graph.node? node.id = some node ∧
      s.record? node.id = some r ∧ s.Noted setup s' node r r' events lost := by
  have hid := (h.concat choice s' hstep).sound.hasNode_of_record? id r' hr'
  rcases h.sound.exists_record? id hid with ⟨r, hr⟩
  rcases setup.graph.exists_node? id hid with ⟨node, hnamed, hnode⟩
  rw [← hnamed] at hr hr'
  rcases RunState.noted_of_step h.sound choice hstep node hnode r hr with
    ⟨r'', events, lost, hnoted⟩
  rw [hnoted.record, Option.some.injEq] at hr'
  rw [hr'] at hnoted
  exact ⟨node, r, events, lost, hnamed, hnode, hr, hnoted⟩

/-- What is known of a node that has ended is known ever after. -/
theorem extend (before after : List Choice) (u s : RunState) (hu : Course setup before u)
    (h : Course setup (before ++ after) s) : u.Extends s := by
  refine induction_from (P := fun _ s => u.Extends s) before u hu (.refl u) ?_ after s h
  intro _ choice v v' hv ih hstep
  exact ih.trans (RunState.extends_of_step hv.sound choice hstep)

/-- Nothing is lost in a stage that is over. -/
theorem kept_of_depth_lt (choices : List Choice) (s : RunState) (h : Course setup choices s)
    (id : NodeId) (i : Nat) (hdepth : setup.graph.Depth id i) (hlt : i + 1 < s.stage) :
    ∃ r, s.record? id = some r ∧ r.Kept := by
  -- The induction is on the run: a stage is over from the step in which the next one is entered.
  refine induction
    (P := fun _ s => i + 1 < s.stage → ∃ r, s.record? id = some r ∧ r.Kept) ?_ ?_ choices s h hlt
  · exact fun hnone => absurd hnone (Nat.not_lt_zero (i + 1))
  · intro choices choice u u' hu ih hstep hover
    have hext := RunState.extends_of_step hu.sound choice hstep
    have hsame : u'.stage = u.stage → ∃ r, u'.record? id = some r ∧ r.Kept := by
      intro hstage
      rw [hstage] at hover
      rcases ih hover with ⟨r, hr, hkept⟩
      exact ⟨r, hext.record id r hr hkept.1, hkept⟩
    cases (RunState.does_of_step setup u u' choice hstep).2 with
    | tick | cancel => exact hsame rfl
    | work _ _ _ hmove =>
        rcases hmove.stage with hstage | hcalm
        · exact hsame hstage
        -- The stage was entered just now, when nothing could have been lost yet.
        · have hsound := (hu.concat choice u' hstep).sound
          rcases hsound.ended_of_depth_lt id i hdepth hover with ⟨r, hr, hterminal⟩
          exact ⟨r, hr, hsound.kept_of_isTerminal hcalm id r hr hterminal⟩

/-- A node of the current stage stands on what its predecessors put out. -/
theorem grounded_of_current (choices : List Choice) (s : RunState) (h : Course setup choices s)
    (id : NodeId) (hcurrent : id ∈ s.entering ∨ s.task? id ≠ none) : s.Grounded setup id := by
  intro p hp
  rcases h.sound.current id hcurrent with ⟨i, hi, hdepth⟩
  have hdep := (setup.graph.mem_predecessorsOf setup.plan h.planned id p).mp hp
  rcases setup.graph.exists_depth_of_plan setup.plan h.planned p hdep.left with ⟨j, hdepthj⟩
  -- A predecessor is in an earlier stage, and only one stage is worked on at a time.
  have hlt := setup.graph.depth_lt_of_depends p id j i hdep hdepthj hdepth
  exact h.kept_of_depth_lt choices s p j hdepthj (by omega)

end Course

end Workflow
