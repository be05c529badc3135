import Workflow.Proofs.Standing

/-!
# Runs Stay Sound

What is true of a run at any moment, and that every step keeps it.

A run is sound when every node stands somewhere, and when the run as a whole
is where its plan wants it: what is upcoming is the rest of the plan, and what
is launched or worked on is in the current stage. The second part is what makes
the first one keep. A node is launched when its stage is the current one. Its
predecessors are of smaller depth, so they are neither upcoming nor worked on,
and whatever is left is settled.

A step that concerns a node touches no other node (`Touches`), and only the
node that is touched has to be looked at. Cancelling a run, entering a stage
and the passing of time touch none. The end of a run touches those nodes that
nothing is known of, and there are none unless the run was cancelled.

## Main definitions

* `Sound`: What is true of a run at any moment.
* `Touches`: A step concerns one node only.
* `Drained`: Nothing is left to do in a run.

## Theorems

* `start_sound`: A run is sound when it starts.
* `Sound.ended_of_depends`: The predecessors of a node that is launched have
  ended.
* `Sound.block`, `Sound.launch`, `Sound.go`, `Sound.close`: The steps of one
  node.
* `Drained.finish`: The end of a run.
* `Move.sound`: What is done in a run keeps it sound.
* `Course.sound`: A run is sound all along.
-/

namespace Workflow

namespace RunState

/-- What is true of a run at any moment. The graph has the plan that is
    followed; every node has one record and stands somewhere; the nodes that are
    still to be launched are the rest of the plan, and those of them that were
    entered, like those that are worked on, are in the current stage; cancelling
    alone interrupts a run; and its outcome is read off the records. -/
structure Sound (setup : Setup) (s : RunState) : Prop where
  planned : setup.graph.plan = .ok setup.plan
  keys : s.records.map (·.1) = setup.graph.ids
  ahead : s.ahead = setup.plan.stages.drop s.stage
  order : s.upcoming <:+ setup.plan.stages.flatten
  current : ∀ id, id ∈ s.entering ∨ s.task? id ≠ none →
    ∃ i, s.stage = i + 1 ∧ setup.graph.Depth id i
  standing : ∀ node, setup.graph.node? node.id = some node → s.Standing setup node
  interrupted : s.interrupted = true → s.cancelled = true
  outcome : ∀ status, s.status = some status →
    status = Workflow.outcome setup.graph s.records s.interrupted

/-- A step concerns one node only. -/
structure Touches (s s' : RunState) (id : NodeId) : Prop where
  keys : s'.records.map (·.1) = s.records.map (·.1)
  ahead : s'.ahead = s.ahead
  stage : s'.stage = s.stage
  status : s'.status = s.status
  cancelled : s'.cancelled = s.cancelled
  entering : s'.entering <:+ s.entering
  unsettled : ∀ r, s.record? id = some r → r.status.isTerminal = false
  others : ∀ other, other ≠ id → s.Agrees s' other

variable {setup : Setup} {s s' : RunState}

theorem Sound.nodup (h : s.Sound setup) : (s.records.map (·.1)).Nodup := by
  rw [h.keys]
  exact setup.graph.nodup_ids

theorem Sound.hasNode_of_record? (h : s.Sound setup) (id : NodeId) (r : NodeRun)
    (hr : s.record? id = some r) : setup.graph.HasNode id := by
  have hkey := (Entries.mem_keys_iff id s.records).mpr ⟨r, hr⟩
  rw [Entries.keys, h.keys, setup.graph.mem_ids] at hkey
  exact hkey

theorem Touches.extend {id : NodeId} (h : s.Touches s' id) : s.Extends s' where
  record := by
    intro other r hr hterminal
    by_cases hother : other = id
    · rw [hother] at hr
      exact absurd hterminal (by rw [h.unsettled r hr]; exact Bool.false_ne_true)
    · rw [(h.others other hother).record]
      exact hr
  cancelled := by
    rw [h.cancelled]
    exact fun hcancelled => hcancelled

/-- Only the node that is touched has to be looked at. -/
theorem Touches.sound {id : NodeId} (htouches : s.Touches s' id) (h : s.Sound setup)
    (hopen : s.status = none) (hinterrupted : s'.interrupted = true → s.cancelled = true)
    (htask : s'.task? id ≠ none → id ∈ s.entering ∨ s.task? id ≠ none)
    (hstanding : ∀ node, setup.graph.node? node.id = some node → node.id = id →
      s'.Standing setup node) : s'.Sound setup where
  planned := h.planned
  keys := htouches.keys.trans h.keys
  ahead := by rw [htouches.ahead, htouches.stage, h.ahead]
  order := by
    -- Less is upcoming than before, and it is still the rest of the plan.
    refine List.IsSuffix.trans ?_ h.order
    rcases htouches.entering with ⟨before, hbefore⟩
    rw [upcoming, upcoming, htouches.ahead, ← hbefore, List.append_assoc]
    exact List.suffix_append before _
  current := by
    intro other hother
    rw [htouches.stage]
    refine h.current other ?_
    rcases hother with hentering | hworked
    · exact Or.inl (htouches.entering.subset hentering)
    · by_cases hid : other = id
      · rw [hid] at hworked ⊢
        exact htask hworked
      · rw [(htouches.others other hid).task] at hworked
        exact Or.inr hworked
  standing := by
    intro node hnode
    by_cases hid : node.id = id
    · exact hstanding node hnode hid
    · exact (h.standing node hnode).mono htouches.extend (htouches.others node.id hid)
        htouches.status
  interrupted := by
    rw [htouches.cancelled]
    exact hinterrupted
  outcome := by
    rw [htouches.status, hopen]
    exact nofun

theorem start_records (setup : Setup) (hplan : setup.graph.plan = .ok setup.plan) :
    (start setup).records =
      Entries.ofList (setup.plan.stages.flatten.map fun id =>
        (id, ((setup.graph.node? id).map NodeRun.ofNode).getD default)) := by
  rw [start]
  refine congrArg Entries.ofList ?_
  rw [← List.filterMap_eq_map]
  refine List.filterMap_congr ?_
  intro id hid
  rcases setup.graph.exists_node? id ((setup.graph.mem_stages_iff setup.plan hplan id).mp hid) with
    ⟨node, hnode, hfound⟩
  rw [hnode] at hfound
  simp only [hfound, Function.comp, Option.map_some, Option.getD_some, NodeRun.ofNode, hnode]

theorem start_keys (setup : Setup) (hplan : setup.graph.plan = .ok setup.plan) :
    (start setup).records.map (·.1) = setup.graph.ids := by
  have hordered := Entries.ordered_ofList (setup.plan.stages.flatten.map fun id =>
    (id, ((setup.graph.node? id).map NodeRun.ofNode).getD default))
  rw [start_records setup hplan]
  -- Both lists ascend, so it is enough that they have the same members.
  refine Graph.eq_of_ascending _ _ (List.pairwise_map.mpr hordered) setup.graph.pairwise_ids ?_
  intro id
  rw [setup.graph.mem_ids, ← setup.graph.mem_stages_iff setup.plan hplan id]
  refine (Entries.mem_keys_iff id _).trans ?_
  rw [Entries.ofList, Entries.find?_merge_map]
  by_cases hid : id ∈ setup.plan.stages.flatten
  · simp only [hid, if_true, Option.some.injEq, exists_eq']
  · simp only [hid, if_false, Entries.find?, reduceCtorEq, exists_false]

theorem start_record? (setup : Setup) (hplan : setup.graph.plan = .ok setup.plan) (node : Node)
    (hnode : setup.graph.node? node.id = some node) :
    (start setup).record? node.id = some (.ofNode node) := by
  have hmem : node.id ∈ setup.plan.stages.flatten :=
    (setup.graph.mem_stages_iff setup.plan hplan node.id).mpr
      ⟨node, setup.graph.mem_of_node? node.id node hnode⟩
  have hfound := Entries.find?_merge_map
    (fun id => ((setup.graph.node? id).map NodeRun.ofNode).getD default) node.id []
    setup.plan.stages.flatten
  rw [if_pos hmem, hnode] at hfound
  rw [record?, start_records setup hplan]
  exact hfound

theorem start_sound (setup : Setup) (hplan : setup.graph.plan = .ok setup.plan) :
    (start setup).Sound setup where
  planned := hplan
  keys := start_keys setup hplan
  ahead := rfl
  order := List.suffix_refl _
  current := by
    -- No stage has been entered yet.
    intro id h
    rcases h with hentering | htask
    · exact absurd hentering List.not_mem_nil
    · exact absurd rfl htask
  standing := by
    intro node hnode
    -- All nodes of the plan are still to come.
    refine .upcoming rfl (start_record? setup hplan node hnode) rfl ?_ rfl
    exact (setup.graph.mem_stages_iff setup.plan hplan node.id).mpr
      ⟨node, setup.graph.mem_of_node? node.id node hnode⟩
  interrupted := fun h => absurd h Bool.false_ne_true
  outcome := nofun

/-- Of the nodes that are not settled, none is before the current stage. -/
theorem Sound.ended_of_depth_lt (h : s.Sound setup) (id : NodeId) (i : Nat)
    (hdepth : setup.graph.Depth id i) (hlt : i + 1 < s.stage) :
    ∃ r, s.record? id = some r ∧ r.status.isTerminal = true := by
  rcases setup.graph.exists_node? id (setup.graph.depth_hasNode id i hdepth) with
    ⟨node, hid, hnode⟩
  have hnow : ¬ (id ∈ s.entering ∨ s.task? id ≠ none) := by
    intro hcurrent
    rcases h.current id hcurrent with ⟨j, hj, hdepthj⟩
    have hij := setup.graph.depth_unique id i j hdepth hdepthj
    omega
  cases h.standing node hnode with
  | upcoming _ _ _ hahead _ =>
      rw [hid, upcoming, List.mem_append] at hahead
      -- The stages that are left hold nodes of greater depth only.
      have hlater : id ∈ s.ahead.flatten := hahead.resolve_left fun hmem => hnow (Or.inl hmem)
      rw [h.ahead, List.mem_flatten] at hlater
      rcases hlater with ⟨stage, hstage, hmem⟩
      rcases List.getElem_of_mem hstage with ⟨k, hk, heq⟩
      rw [List.length_drop] at hk
      rw [List.getElem_drop] at heq
      rw [← heq] at hmem
      have hdepthk := (setup.graph.mem_stage_iff setup.plan h.planned _ (by omega) id).mp hmem
      have hik := setup.graph.depth_unique id i _ hdepth hdepthk
      omega
  | working t _ _ htask =>
      refine absurd (Or.inr ?_) hnow
      rw [← hid, htask]
      exact Option.some_ne_none t
  | settled r hrecord _ _ _ _ hsettled =>
      rw [hid] at hrecord
      exact ⟨r, hrecord, hsettled.isTerminal⟩

/-- The predecessors of a node that is launched have ended. -/
theorem Sound.ended_of_depends (h : s.Sound setup) (id : NodeId) (hentering : id ∈ s.entering) :
    ∀ p ∈ setup.plan.predecessorsOf id,
      ∃ r, s.record? p = some r ∧ r.status.isTerminal = true := by
  intro p hp
  rcases h.current id (Or.inl hentering) with ⟨i, hi, hdepth⟩
  have hdep := (setup.graph.mem_predecessorsOf setup.plan h.planned id p).mp hp
  rcases setup.graph.exists_depth_of_plan setup.plan h.planned p hdep.left with ⟨j, hdepthj⟩
  have hlt := setup.graph.depth_lt_of_depends p id j i hdep hdepthj hdepth
  exact h.ended_of_depth_lt p j hdepthj (by omega)

/-- A step that touches no node keeps a run sound when it keeps its plan. -/
theorem Sound.of_agrees (h : s.Sound setup) (hopen : s.status = none)
    (hrecords : s'.records = s.records) (hstatus : s'.status = s.status)
    (hahead : s'.ahead = setup.plan.stages.drop s'.stage) (horder : s'.upcoming = s.upcoming)
    (hcurrent : ∀ id, id ∈ s'.entering ∨ s'.task? id ≠ none →
      ∃ i, s'.stage = i + 1 ∧ setup.graph.Depth id i)
    (htask : ∀ id, s'.task? id = s.task? id) (hstarts : ∀ id, s'.starts id = s.starts id)
    (hcancelled : s.cancelled = true → s'.cancelled = true)
    (hinterrupted : s'.interrupted = true → s'.cancelled = true) : s'.Sound setup where
  planned := h.planned
  keys := by rw [hrecords, h.keys]
  ahead := hahead
  order := by rw [horder]; exact h.order
  current := hcurrent
  standing := by
    intro node hnode
    -- The records are the same, so a node stands where it stood.
    have hsame : ∀ id, s'.record? id = s.record? id := fun id => by rw [record?, record?, hrecords]
    have hext : s.Extends s' := ⟨fun id r hr _ => (hsame id).trans hr, hcancelled⟩
    refine (h.standing node hnode).mono hext ?_ hstatus
    exact ⟨hsame _, htask _, hstarts _, by rw [horder]⟩
  interrupted := hinterrupted
  outcome := by
    intro status hover
    -- The run goes on.
    rw [hstatus, hopen] at hover
    contradiction

theorem Sound.cancel (h : s.Sound setup) (hopen : s.status = none) :
    Sound setup { s with cancelled := true } :=
  h.of_agrees hopen rfl rfl h.ahead rfl h.current (fun _ => rfl) (fun _ => rfl) (fun _ => rfl)
    (fun _ => rfl)

theorem Sound.tick (h : s.Sound setup) (hopen : s.status = none) (ms : Nat) :
    Sound setup { s with nowMs := s.nowMs + ms } :=
  h.of_agrees hopen rfl rfl h.ahead rfl h.current (fun _ => rfl) (fun _ => rfl)
    (fun hcancelled => hcancelled) h.interrupted

/-- Entering a stage makes it the current one. -/
theorem Sound.enter (h : s.Sound setup) (hopen : s.status = none) (stage : List NodeId)
    (ahead : List (List NodeId)) (hentering : s.entering = []) (htasks : s.tasks = [])
    (hahead : s.ahead = stage :: ahead) :
    Sound setup ({ s with stage := s.stage + 1, ahead := ahead, entering := stage }.emit
      (.stageStarted s.stage stage)) := by
  have hdrop := h.ahead.symm.trans hahead
  have hlt : s.stage < setup.plan.stages.length := by
    by_contra hge
    rw [List.drop_eq_nil_of_le (Nat.le_of_not_lt hge)] at hdrop
    exact List.cons_ne_nil stage ahead hdrop.symm
  rw [List.drop_eq_getElem_cons hlt, List.cons.injEq] at hdrop
  refine h.of_agrees hopen rfl rfl hdrop.2.symm ?_ ?_ (fun _ => rfl)
    (fun id => starts_emit _ _ id rfl) (fun hcancelled => hcancelled) h.interrupted
  · simp only [upcoming, emit, hentering, hahead, List.flatten_cons, List.nil_append]
  -- The stage that is entered holds the nodes of its own depth.
  · intro id hid
    rcases hid with hmem | htask
    · refine ⟨s.stage, rfl, (setup.graph.mem_stage_iff setup.plan h.planned s.stage hlt id).mp ?_⟩
      rw [hdrop.1]
      exact hmem
    · exact absurd (s.task?_eq_none_of_nil id htasks) htask

/-- A node that is launched is upcoming, and is not any more afterwards. -/
theorem Sound.upcoming_of_entering (h : s.Sound setup) (node : Node) (rest : List NodeId)
    (hentering : s.entering = node.id :: rest) (hopen : s.status = none)
    (hnode : setup.graph.node? node.id = some node) :
    s.record? node.id = some (.ofNode node) ∧ s.task? node.id = none ∧ s.starts node.id = 0 ∧
      node.id ∉ (s.leave rest).upcoming := by
  have hnodup := h.order.sublist.nodup (setup.graph.nodup_stages setup.plan h.planned)
  rw [upcoming, hentering, List.cons_append, List.nodup_cons] at hnodup
  have hmem : node.id ∈ s.upcoming := by
    rw [upcoming, hentering]
    exact List.mem_cons_self
  -- It is in the stage, so it is neither worked on nor settled.
  cases h.standing node hnode with
  | upcoming _ hrecord htask _ hstarts =>
      exact ⟨hrecord, htask, hstarts, hnodup.1⟩
  | working _ _ _ _ hahead => exact absurd hmem hahead
  | settled _ _ _ _ _ hahead => exact absurd hmem (hahead hopen)

theorem mem_upcoming_leave (s : RunState) (id : NodeId) (rest : List NodeId)
    (hentering : s.entering = id :: rest) (other : NodeId) (hother : other ≠ id) :
    other ∈ (s.leave rest).upcoming ↔ other ∈ s.upcoming := by
  rw [upcoming, upcoming, hentering, List.cons_append, List.mem_cons, or_iff_right hother]
  rfl

/-- Launching a node touches no other one. -/
theorem Sound.touches_launch (h : s.Sound setup) (hopen : s.status = none) (node : Node)
    (rest : List NodeId) (hentering : s.entering = node.id :: rest)
    (hnode : setup.graph.node? node.id = some node)
    (change : NodeRun → NodeRun) (tasks : List Task) (events : List Happening)
    (htasks : ∀ other, other ≠ node.id →
      tasks.find? (fun t => t.node = other) = s.task? other)
    (hevents : ∀ other, other ≠ node.id →
      events.countP (Happening.begins other) = s.starts other) :
    s.Touches { (s.leave rest).amend node.id change with tasks := tasks, events := events }
      node.id where
  keys := keys_amend (s.leave rest) node.id change
  ahead := rfl
  stage := rfl
  status := rfl
  cancelled := rfl
  entering := by
    rw [hentering]
    exact List.suffix_cons node.id rest
  unsettled := by
    intro r hr
    -- What is to be launched has not been touched.
    rw [(h.upcoming_of_entering node rest hentering hopen hnode).1, Option.some.injEq] at hr
    rw [← hr]
    rfl
  others := fun other hother => {
    record := (record?_amend (s.leave rest) node.id other change).trans (if_neg hother)
    task := htasks other hother
    starts := hevents other hother
    upcoming := mem_upcoming_leave s node.id rest hentering other hother }

theorem record?_amend_self (s : RunState) (id : NodeId) (change : NodeRun → NodeRun) (r : NodeRun)
    (h : s.record? id = some r) : (s.amend id change).record? id = some (change r) := by
  rw [record?_amend, if_pos rfl, h, Option.map_some]

/-- A node that is blocked by a predecessor is settled. -/
theorem Sound.block (h : s.Sound setup) (hopen : s.status = none) (node : Node)
    (rest : List NodeId) (predecessor : NodeId) (status : NodeStatus)
    (hentering : s.entering = node.id :: rest) (hnode : setup.graph.node? node.id = some node)
    (hkind : node.kind.tolerant = false)
    (hblocker : s.blocker? setup node.id = some (predecessor, status)) :
    Sound setup (((s.leave rest).amend node.id (s.blockedRun setup predecessor status)).emit
      (.nodeSkipped node.id (blockedReason predecessor status))) := by
  have hstarts := fun id =>
    starts_emit s (.nodeSkipped node.id (blockedReason predecessor status)) id rfl
  have htouches := h.touches_launch hopen node rest hentering hnode
    (s.blockedRun setup predecessor status) s.tasks
    (s.emit (.nodeSkipped node.id (blockedReason predecessor status))).events (fun _ _ => rfl)
    (fun other _ => hstarts other)
  rcases h.upcoming_of_entering node rest hentering hopen hnode with
    ⟨hrecord, htask, hnone, hleft⟩
  refine htouches.sound h hopen h.interrupted (fun hworked => Or.inr hworked) ?_
  intro other hother hid
  have heq : other = node := by
    rw [hid, hnode] at hother
    exact (Option.some.inj hother).symm
  rw [heq]
  -- All its predecessors have ended, and the first that objects is the one it is blamed on.
  have hblocked := blocked_of_blocker?_eq_some node.id predecessor status
    (h.ended_of_depends node.id (by rw [hentering]; exact List.mem_cons_self))
    (setup.graph.pairwise_predecessorsOf setup.plan h.planned node.id) hblocker
  exact .settled (s.blockedRun setup predecessor status (.ofNode node))
    (record?_amend_self (s.leave rest) node.id _ _ hrecord) rfl rfl htask (fun _ => hleft)
    (.blocked predecessor status rfl rfl rfl rfl ((hstarts node.id).trans hnone) hkind
      (hblocked.mono htouches.extend))

/-- A node that is launched is worked on. -/
theorem Sound.launch (h : s.Sound setup) (hopen : s.status = none) (node : Node)
    (rest : List NodeId) (hentering : s.entering = node.id :: rest)
    (hnode : setup.graph.node? node.id = some node)
    (hfree : node.kind.tolerant = true ∨ s.blocker? setup node.id = none) :
    Sound setup ((s.leave rest).enlist node.id (s.newTask setup node node.id)) := by
  rcases h.upcoming_of_entering node rest hentering hopen hnode with
    ⟨hrecord, htask, hnone, hleft⟩
  -- One task is new, and one record is changed.
  have htasks := fun other =>
    task?_enlist (s.leave rest) node.id other (s.newTask setup node node.id) rfl htask
  have htouches := h.touches_launch hopen node rest hentering hnode NodeRun.launched
    (s.tasks ++ [s.newTask setup node node.id]) s.events
    (fun other hother => (htasks other).trans (if_neg hother)) (fun _ _ => rfl)
  have hmem : node.id ∈ s.entering := by
    rw [hentering]
    exact List.mem_cons_self
  refine htouches.sound h hopen h.interrupted (fun _ => Or.inl hmem) ?_
  intro other hother hid
  -- Only the node itself has changed.
  have heq : other = node := by
    rw [hid, hnode] at hother
    exact (Option.some.inj hother).symm
  rw [heq]
  -- It is launched, so no predecessor keeps it from being tried.
  have hfed : node.kind.tolerant = true ∨ s.Fed setup node.id :=
    hfree.imp_right (fed_of_blocker?_eq_none node.id (h.ended_of_depends node.id hmem))
  exact .working (s.newTask setup node node.id) hopen
    (record?_amend_self (s.leave rest) node.id _ _ hrecord)
    ((htasks node.id).trans (if_pos rfl)) hleft rfl hnone
    (hfed.imp_right fun hfed => hfed.mono htouches.extend)

theorem Sound.working_of_task? (h : s.Sound setup) (t : Task) (htask : s.task? t.node = some t)
    (node : Node) (hnode : setup.graph.node? node.id = some node) (hid : node.id = t.node) :
    s.record? t.node = some (NodeRun.ofNode node).launched ∧ t.node ∉ s.upcoming ∧
      t.phase.Sound s.cancelled t.attempts ∧ s.starts t.node = t.attempts ∧
      (node.kind.tolerant = true ∨ s.Fed setup t.node) := by
  -- The task is there, so the node is at work and nothing else.
  rw [← hid] at htask ⊢
  cases h.standing node hnode with
  | upcoming _ _ hnone | settled _ _ _ _ hnone =>
      rw [htask] at hnone
      exact absurd hnone (Option.some_ne_none t)
  | working t' _ hrecord htask' hahead hphase hstarts hfree =>
      rw [htask, Option.some.injEq] at htask'
      rw [← htask'] at hphase hstarts
      exact ⟨hrecord, hahead, hphase, hstarts, hfree⟩

theorem Sound.exists_node_of_task? (h : s.Sound setup) (t : Task)
    (htask : s.task? t.node = some t) :
    ∃ node, node.id = t.node ∧ setup.graph.node? node.id = some node := by
  have hworked : s.task? t.node ≠ none := by
    rw [htask]
    exact Option.some_ne_none t
  rcases h.current t.node (Or.inr hworked) with ⟨i, _, hdepth⟩
  exact setup.graph.exists_node? t.node (setup.graph.depth_hasNode t.node i hdepth)

theorem Sound.touches_task (h : s.Sound setup) (t : Task) (htask : s.task? t.node = some t)
    (hkeys : s'.records.map (·.1) = s.records.map (·.1)) (hahead : s'.ahead = s.ahead)
    (hstage : s'.stage = s.stage) (hstatus : s'.status = s.status)
    (hcancelled : s'.cancelled = s.cancelled) (hentering : s'.entering = s.entering)
    (hothers : ∀ other, other ≠ t.node → s'.record? other = s.record? other ∧
      s'.task? other = s.task? other ∧ s'.starts other = s.starts other) :
    s.Touches s' t.node where
  keys := hkeys
  ahead := hahead
  stage := hstage
  status := hstatus
  cancelled := hcancelled
  entering := by simp only [hentering, List.suffix_refl]
  unsettled := by
    intro r hr
    -- What has a task was launched, and its record is open.
    rcases h.exists_node_of_task? t htask with ⟨node, hid, hnode⟩
    rw [(h.working_of_task? t htask node hnode hid).1, Option.some.injEq] at hr
    rw [← hr]
    rfl
  others := by
    intro other hother
    rcases hothers other hother with ⟨hrecord, htask, hstarts⟩
    refine ⟨hrecord, htask, hstarts, ?_⟩
    rw [upcoming, upcoming, hentering, hahead]

/-- A task that goes on is still worked on. -/
theorem Sound.go (h : s.Sound setup) (hopen : s.status = none) (t next : Task)
    (events : List Happening) (htask : s.task? t.node = some t)
    (hgoes : t.Goes setup s next events) : (s.proceed next events).Sound setup := by
  have hput : ∀ id, (s.proceed next events).task? id =
      if id = next.node then (s.task? id).map fun _ => next else s.task? id := s.task?_put next
  have hstarts : ∀ id, (s.proceed next events).starts id =
      s.starts id + events.countP (Happening.begins id) := fun id => List.countP_append
  rw [hgoes.node] at hput
  -- Attempts of other nodes do not begin, and their tasks are not replaced.
  have htouches : s.Touches (s.proceed next events) t.node := by
    refine h.touches_task t htask rfl rfl rfl rfl rfl rfl ?_
    intro other hother
    refine ⟨rfl, (hput other).trans (if_neg hother), ?_⟩
    rw [hstarts, hgoes.countP_begins other hother, Nat.add_zero]
  have hworked : s.task? t.node ≠ none := by
    rw [htask]
    exact Option.some_ne_none t
  refine htouches.sound h hopen h.interrupted (fun _ => Or.inr hworked) ?_
  intro node hnode hid
  rcases h.working_of_task? t htask node hnode hid with ⟨hrecord, hahead, hphase, hbegun, hfree⟩
  have hnext : (s.proceed next events).task? t.node = some next := by
    rw [hput, if_pos rfl, htask, Option.map_some]
  rw [← hid] at hrecord hnext hahead hbegun hfree
  refine .working next hopen hrecord hnext hahead (hgoes.sound hphase) ?_
    (hfree.imp_right fun hfed => hfed.mono htouches.extend)
  rw [hstarts, hbegun, hgoes.attempts, hid]

/-- What is noted at the end of a task settles its node. -/
theorem settled_of_ends {t : Task} {change : NodeRun → NodeRun} {events : List Happening}
    {lost : Bool} (hends : t.Ends setup s change events lost) (node : Node)
    (hphase : t.phase.Sound s.cancelled t.attempts) (hstarts : s'.starts node.id = t.attempts)
    (hfree : node.kind.tolerant = true ∨ s'.Fed setup node.id)
    (hcancelled : s'.cancelled = s.cancelled) :
    s'.Settled setup node (change (NodeRun.ofNode node).launched) := by
  cases hends with
  | settled atMs result hnow hcalm =>
      rw [hnow] at hphase
      cases result with
      | ok output =>
          rw [← hstarts] at hphase
          exact .succeeded output rfl rfl rfl hstarts.symm hphase hfree
      | error error =>
          -- Without a cancelled run, the error of an answer is that of an attempt.
          rcases hphase with ⟨hpos, hcause⟩ | hcancel
          · rw [← hstarts] at hpos
            exact .failed error rfl rfl rfl hcause (Or.inl hstarts.symm) hpos hfree
          · exact absurd hcancel (by rw [hcalm]; exact Bool.false_ne_true)
  | discarded atMs result hnow hcancel =>
      exact .cancelled _ rfl rfl rfl rfl (hcancelled.trans hcancel)
  | missed hnow hcalm =>
      rw [hnow] at hphase
      rw [← hstarts] at hphase
      refine .failed _ rfl rfl rfl ?_ (Or.inr ⟨rfl, rfl⟩) hphase hfree
      simp only [Cause.ofAttempts, List.mem_cons, true_or, or_true]
  | dropped hnow hcancel => exact .cancelled _ rfl rfl rfl rfl (hcancelled.trans hcancel)

/-- A task that ends leaves a settled node. -/
theorem Sound.close (h : s.Sound setup) (hopen : s.status = none) (t : Task)
    (change : NodeRun → NodeRun) (events : List Happening) (lost : Bool)
    (htask : s.task? t.node = some t) (hends : t.Ends setup s change events lost) :
    (s.retire t.node change events lost).Sound setup := by
  -- One task is gone, one record is closed, and no attempt was begun.
  have hdrop : ∀ id, (s.retire t.node change events lost).task? id =
      if id = t.node then none else s.task? id := s.task?_drop t.node
  have hrecords : ∀ id, (s.retire t.node change events lost).record? id =
      if id = t.node then (s.record? id).map change else s.record? id :=
    fun id => (s.drop t.node).record?_amend t.node id change
  have hstarts : ∀ id, (s.retire t.node change events lost).starts id = s.starts id := by
    intro id
    rw [starts, retire, List.countP_append, hends.countP_begins id]
    rfl
  have htouches : s.Touches (s.retire t.node change events lost) t.node := by
    refine h.touches_task t htask (keys_amend (s.drop t.node) t.node change) rfl rfl rfl rfl rfl ?_
    intro other hother
    exact ⟨(hrecords other).trans (if_neg hother), (hdrop other).trans (if_neg hother),
      hstarts other⟩
  have hinterrupted : (s.retire t.node change events lost).interrupted = true →
      s.cancelled = true := by
    -- Only cancelling keeps anything from being done.
    intro hlost
    rcases (Bool.or_eq_true _ _).mp hlost with hbefore | hnow
    · exact h.interrupted hbefore
    · exact hends.cancelled_of_lost hnow
  refine htouches.sound h hopen hinterrupted ?_ ?_
  · intro hworked
    rw [hdrop, if_pos rfl] at hworked
    exact absurd rfl hworked
  · intro node hnode hid
    -- The node was at work, so nothing is known of it but what its task comes to.
    rcases h.working_of_task? t htask node hnode hid with ⟨hrecord, hahead, hphase, hbegun, hfree⟩
    rw [← hid] at hrecord hahead hbegun hfree
    have hended := hrecords node.id
    rw [if_pos hid, hrecord, Option.map_some] at hended
    have hkept := hends.keeps_identity (NodeRun.ofNode node).launched
    exact .settled _ hended hkept.1 hkept.2 ((hdrop node.id).trans (if_pos hid)) (fun _ => hahead)
      (settled_of_ends hends node hphase ((hstarts node.id).trans hbegun)
        (hfree.imp_right fun hfed => hfed.mono htouches.extend) rfl)

/-- Nothing is left to do between two stages: every node of the stages that
    were entered is settled, and every other one is upcoming. -/
theorem Sound.settled_or_upcoming (h : s.Sound setup) (htasks : s.tasks = []) (node : Node)
    (hnode : setup.graph.node? node.id = some node) :
    (∃ r, s.record? node.id = some r ∧ r.node = node.id ∧ r.kind = node.kind ∧
      s.Settled setup node r) ∨
    (s.record? node.id = some (.ofNode node) ∧ node.id ∈ s.upcoming ∧ s.starts node.id = 0) := by
  cases h.standing node hnode with
  | upcoming _ hrecord _ hahead hstarts => exact Or.inr ⟨hrecord, hahead, hstarts⟩
  | working t _ _ htask =>
      rw [s.task?_eq_none_of_nil node.id htasks] at htask
      exact absurd htask.symm (Option.some_ne_none t)
  | settled r hrecord hid hkind _ _ hsettled => exact Or.inl ⟨r, hrecord, hid, hkind, hsettled⟩

theorem mem_untouched_iff (s : RunState) (hkeys : (s.records.map (·.1)).Nodup) (id : NodeId) :
    id ∈ s.untouched ↔ ∃ r, s.record? id = some r ∧ r.status = .pending := by
  simp only [untouched, List.mem_map, List.mem_filter, decide_eq_true_eq, record?,
    Entries.find?_eq_some_iff s.records hkeys]
  constructor
  · rintro ⟨⟨key, r⟩, ⟨hmem, hstatus⟩, heq⟩
    rw [← heq]
    exact ⟨r, hmem, hstatus⟩
  · rintro ⟨r, hmem, hstatus⟩
    exact ⟨(id, r), ⟨hmem, hstatus⟩, rfl⟩

/-- A run is sound and has nothing left to do, and nothing but cancelling kept
    a node from being launched. -/
structure Drained (setup : Setup) (s : RunState) : Prop where
  sound : s.Sound setup
  tasks : s.tasks = []
  left : ∀ id, id ∈ s.upcoming → s.cancelled = true

/-- What is settled stays so at the end of a run. -/
theorem Drained.extend (h : s.Drained setup) : s.Extends (s.finish setup) where
  record := by
    intro id r hr hterminal
    -- A node that has ended is not pending, so it is not skipped now.
    rw [record?_finish, hr, Option.map_some, if_neg]
    rw [s.mem_untouched_iff h.sound.nodup, hr]
    rintro ⟨r', hr', hpending⟩
    rw [← Option.some.inj hr'] at hpending
    rw [hpending] at hterminal
    exact absurd hterminal Bool.false_ne_true
  cancelled := by
    rw [finish_eq]
    exact fun hcancelled => hcancelled

/-- At the end of a run every node is settled. -/
theorem Drained.standing (h : s.Drained setup) (node : Node)
    (hnode : setup.graph.node? node.id = some node) : (s.finish setup).Standing setup node := by
  have htask : (s.finish setup).task? node.id = none := by
    refine task?_eq_none_of_nil _ node.id ?_
    rw [finish_eq]
    exact h.tasks
  have hover : (s.finish setup).status = none → node.id ∉ (s.finish setup).upcoming := by
    rw [finish_eq]
    exact nofun
  rcases h.sound.settled_or_upcoming h.tasks node hnode with
    ⟨r, hr, hid, hkind, hsettled⟩ | ⟨hr, hahead, _⟩
  · exact .settled r (h.extend.record node.id r hr hsettled.isTerminal) hid hkind htask hover
      (hsettled.mono h.extend (starts_finish setup s node.id))
  -- A node that is upcoming has a fresh record, so it is skipped now.
  · have huntouched := (s.mem_untouched_iff h.sound.nodup node.id).mpr ⟨_, hr, rfl⟩
    have hskipped := record?_finish setup s node.id
    rw [hr, Option.map_some, if_pos huntouched] at hskipped
    exact .settled _ hskipped rfl rfl htask hover
      (.cancelled untouchedError rfl rfl rfl rfl (h.extend.cancelled (h.left node.id hahead)))

/-- Nothing was left untouched unless the run was cancelled. -/
theorem Drained.cancelled_of_untouched (h : s.Drained setup) (id : NodeId)
    (hid : id ∈ s.untouched) : s.cancelled = true := by
  rcases (s.mem_untouched_iff h.sound.nodup id).mp hid with ⟨r, hr, hpending⟩
  rcases setup.graph.exists_node? id (h.sound.hasNode_of_record? id r hr) with ⟨node, heq, hnode⟩
  rcases h.sound.settled_or_upcoming h.tasks node hnode with
    ⟨r', hr', _, _, hsettled⟩ | ⟨_, hahead, _⟩
  · rw [heq, hr, Option.some.injEq] at hr'
    have hterminal := hsettled.isTerminal
    rw [← hr', hpending] at hterminal
    exact absurd hterminal Bool.false_ne_true
  · exact h.left node.id hahead

theorem Drained.finish (h : s.Drained setup) : (s.finish setup).Sound setup where
  planned := h.sound.planned
  keys := (keys_finish setup s).trans h.sound.keys
  ahead := by
    rw [finish_eq]
    exact h.sound.ahead
  order := by
    rw [finish_eq]
    exact h.sound.order
  current := by
    intro id
    rw [finish_eq]
    exact h.sound.current id
  standing := h.standing
  interrupted := by
    intro hinterrupted
    refine h.extend.cancelled ?_
    rw [finish_eq] at hinterrupted
    -- It was interrupted before, or something is skipped now.
    rcases (Bool.or_eq_true _ _).mp hinterrupted with hbefore | hnow
    · exact h.sound.interrupted hbefore
    · rw [Bool.not_eq_true', List.isEmpty_eq_false_iff_exists_mem] at hnow
      rcases hnow with ⟨id, hid⟩
      exact h.cancelled_of_untouched id hid
  outcome := by
    intro status hstatus
    rw [finish_eq] at hstatus ⊢
    exact (Option.some.inj hstatus).symm

/-- Nothing is left to do after the last stage. -/
theorem Sound.drained (h : s.Sound setup) (hentering : s.entering = []) (htasks : s.tasks = [])
    (hahead : s.ahead = []) : s.Drained setup := by
  refine ⟨h, htasks, ?_⟩
  intro id hid
  rw [upcoming, hentering, hahead] at hid
  exact absurd hid List.not_mem_nil

/-- Nothing is left to do once a run that was cancelled has no more tasks. -/
theorem Sound.drained_of_cancelled (h : s.Sound setup) (hopen : s.status = none)
    (htasks : s.tasks = []) (hcancelled : s.cancelled = true) :
    Drained setup { s with interrupted := true } := by
  refine ⟨?_, htasks, fun _ _ => hcancelled⟩
  exact h.of_agrees hopen rfl rfl h.ahead rfl h.current (fun _ => rfl) (fun _ => rfl)
    (fun hcancelled => hcancelled) (fun _ => hcancelled)

/-- What is done in a run keeps it sound. -/
theorem Move.sound (hmove : s.Move setup s') (h : s.Sound setup) (hopen : s.status = none) :
    s'.Sound setup := by
  cases hmove with
  | pass id rest hentering hnone =>
      -- What is launched is in a stage, so there is a node.
      rcases h.current id (Or.inl (by rw [hentering]; exact List.mem_cons_self)) with ⟨i, _, hdepth⟩
      rcases setup.graph.exists_node? id (setup.graph.depth_hasNode id i hdepth) with
        ⟨node, hid, hnode⟩
      rw [hid, hnone] at hnode
      exact absurd hnode.symm (Option.some_ne_none node)
  | block id rest node predecessor status hentering hnode hkind hblocker =>
      have hid := (setup.graph.mem_of_node? id node hnode).2
      rw [← hid] at hentering hnode hblocker ⊢
      exact h.block hopen node rest predecessor status hentering hnode hkind hblocker
  | launch id rest node hentering hnode hfree =>
      have hid := (setup.graph.mem_of_node? id node hnode).2
      rw [← hid] at hentering hnode hfree ⊢
      exact h.launch hopen node rest hentering hnode hfree
  | go t next events htask hgoes => exact h.go hopen t next events htask hgoes
  | close t change events lost htask _ hends =>
      exact h.close hopen t change events lost htask hends
  | enter stage ahead hentering htasks hahead _ =>
      exact h.enter hopen stage ahead hentering htasks hahead
  | finish hentering htasks hahead => exact (h.drained hentering htasks hahead).finish
  | abandon _ htasks _ hcancelled => exact (h.drained_of_cancelled hopen htasks hcancelled).finish

end RunState

/-- A run is sound all along. -/
theorem Course.sound {setup : Setup} (choices : List Choice) (s : RunState)
    (h : Course setup choices s) : s.Sound setup := by
  refine Course.induction (P := fun _ s => s.Sound setup) (RunState.start_sound setup h.planned)
    ?_ choices s h
  intro _ choice u u' _ hsound hstep
  rcases RunState.does_of_step setup u u' choice hstep with ⟨hopen, hdoes⟩
  cases hdoes with
  | tick ms => exact hsound.tick hopen ms
  | cancel => exact hsound.cancel hopen
  | work _ _ _ hmove => exact hmove.sound hsound hopen

end Workflow
