import Workflow.Proofs.Density
import Workflow.Proofs.Quietness
import Workflow.Proofs.Vouching

/-!
# What One Request Leaves Behind

What a request to run or to publish a graph may change in a store that nobody
else works on meanwhile.

Running changes nothing. Publishing goes through several moments, and each of
them can be the last: the graph cannot be loaded, it is not admitted, it is not
run, its run is cancelled, or its publication is recorded. Only the last one
writes, and it writes nothing but the record (`Store.Publishes`). That the record
is then accepted is due to the run: it has left the store alone, so the version
that was loaded is still the one that is stored. Nothing else matters of whatever
carries out the run (`Spares`).

A request that is turned away has not begun to run anything. This is seen from
its result, which is the same whatever would have carried out the run (`Idle`).
Any other request is carried out, because a graph in which nothing fatal is
wrong has a plan.

The engine leaves the store alone when the handlers do. Handlers that save graphs
are clients of the store themselves, and the requests they make would be at the
same time. So the handlers are asked to save none (`Registry.Quiet`).

## Main definitions

* `Row.unmarked`: What of a row a publication leaves.
* `Store.Publishes`: What a publication comes to, and what is stored then.
* `Idle`: A request that runs nothing.
* `Spares`: What carries out runs leaves the store alone.
* `Store.Runnable`, `Store.Publishable`: A stored graph that may be run, or
  published.
* `Service.Leaves`: What a request leaves of a store.
* `Service.Gates`: What has to hold of a graph for a request to run it.

## Theorems

* `publishes_conclude`, `publishes_of_ran`, `publishes`: What a publication comes
  to.
* `store_run`, `store_runGraph`: Running leaves the store as it was.
* `leaves_of_spares`: What a request leaves of a store.
* `idle_run`, `idle_runGraph`, `idle_publish`: What is turned away runs nothing.
* `run_of_runnable`, `runGraph_of_sound`, `publish_of_publishable`: What is not
  turned away is run.
* `left_by_request`: What a request leaves behind, and what it has run.
-/

namespace Workflow

/-- What of a row a publication leaves: all of it but the record. -/
def Row.unmarked (row : Row (Option Graph)) : Row (Option Graph) := { row with publish := {} }

/-- A record that is stamped is another one. -/
theorem PublishRecord.stamp_ne (r : PublishRecord) (now : Instant) : r.stamp now ≠ r := by
  intro h
  have hcount : r.count + 1 = r.count := congrArg count h
  omega

namespace Store

variable {s s' : Store} {id : String} {result : Except WorkflowError Publication}

/-- What is known of the publishing of a graph is the record in its row. -/
theorem publishing?_eq (s : Store) (id : String) :
    s.publishing? id = (s.row? id).map Row.publish := by
  cases s with
  | memory t | text t =>
      simp only [publishing?, row?, Table.row?, Option.map_map]
      rfl

/-- What a publication comes to when nobody else works on the store, and what
    is stored then. -/
inductive Publishes (s : Store) (id : String) : Except WorkflowError Publication → Store → Prop
  /-- The graph was not loaded, not admitted or not run. -/
  | refused (e : WorkflowError) : Publishes s id (.error e) s
  /-- The run was cancelled. -/
  | cancelled (execution : Execution) (hstatus : execution.result.status = .cancelled) :
      Publishes s id (.ok ⟨none, execution⟩) s
  /-- The publication is recorded. -/
  | recorded (row : Row (Option Graph)) (now : Instant) (execution : Execution)
      (hrow : s.row? id = some row) (hstatus : execution.result.status ≠ .cancelled) :
      Publishes s id (.ok ⟨some (row.publish.stamp now), execution⟩) (s.stamp now id)

/-- Nothing but records is changed. -/
theorem Publishes.unmarked (h : s.Publishes id result s') (other : String) :
    (s'.row? other).map Row.unmarked = (s.row? other).map Row.unmarked := by
  cases h with
  | refused | cancelled => rfl
  | recorded row now execution hrow =>
      rw [row?_stamp]
      by_cases hother : id = other
      · rw [if_pos hother, ← hother, hrow]
        rfl
      · rw [if_neg hother]

/-- Nothing is changed under any other id. -/
theorem Publishes.sameAt (h : s.Publishes id result s') {other : String} (hother : other ≠ id) :
    s.SameAt s' other := by
  cases h with
  | refused | cancelled => exact SameAt.refl s other
  | recorded row now => exact s.sameAt_stamp now id hother.symm

/-- The record that is given is the stored one, stamped, and it is stored. -/
theorem Publishes.given (h : s.Publishes id result s') {record : PublishRecord}
    {execution : Execution} (hresult : result = .ok ⟨some record, execution⟩) :
    execution.result.status ≠ .cancelled ∧ ∃ old now, s.publishing? id = some old ∧
      record = old.stamp now ∧ s'.publishing? id = some record := by
  cases h with
  | refused => exact absurd hresult nofun
  | cancelled => exact absurd hresult nofun
  | recorded row now execution hrow hstatus =>
      simp only [Except.ok.injEq, Publication.mk.injEq, Option.some.injEq] at hresult
      rcases hresult with ⟨rfl, rfl⟩
      refine ⟨hstatus, row.publish, now, ?_, rfl, ?_⟩
      · rw [publishing?_eq, hrow, Option.map_some]
      · rw [publishing?_eq, row?_stamp, if_pos rfl, hrow, Option.map_some, Option.map_some]

/-- The record under the id changes just when one is given. -/
theorem Publishes.changed_iff (h : s.Publishes id result s') :
    s'.publishing? id ≠ s.publishing? id ↔
      ∃ record execution, result = .ok ⟨some record, execution⟩ := by
  constructor
  · intro hchanged
    cases h with
    | refused | cancelled => exact absurd rfl hchanged
    | recorded row now execution => exact ⟨_, execution, rfl⟩
  · rintro ⟨record, execution, hresult⟩ hsame
    rcases h.given hresult with ⟨-, old, now, hold, hstamp, hnew⟩
    rw [hsame, hold, Option.some.injEq] at hnew
    exact old.stamp_ne now (hstamp.symm.trans hnew.symm)

/-- What fails changes nothing. -/
theorem Publishes.failed (h : s.Publishes id result s') {e : WorkflowError}
    (hresult : result = .error e) : s' = s := by
  cases h with
  | refused | cancelled => rfl
  | recorded => exact absurd hresult nofun

end Store

/-- A request that runs nothing: however runs are carried out, it fails and
    leaves everything as it was. -/
def Idle {α : Type} (request : Executor → Except WorkflowError α × World) (w : World) : Prop :=
  ∃ e, ∀ execute, request execute = (.error e, w)

/-- Whatever is run, the store stays as it was. -/
def Spares (execute : Executor) (w : World) : Prop :=
  ∀ order graph, (execute order graph w).2.store = w.store

namespace Store

/-- A graph that is stored under an id and in which nothing fatal is wrong. -/
structure Runnable (s : Store) (id : String) (stored : StoredGraph) : Prop where
  load : s.load id = .ok stored
  sound : hasFatal stored.graph.audit = false

/-- A graph that is stored under an id, is not published and may be. -/
structure Publishable (rules : PublishRules) (s : Store) (id : String) (stored : StoredGraph) :
    Prop where
  load : s.load id = .ok stored
  unpublished : stored.publish.published = false
  sound : hasFatal (stored.graph.auditForPublish rules) = false

end Store

namespace Service

/-- What a request leaves of a store. Running changes nothing. Publishing changes
    the record under its own id, and does so just when it gives a record: the
    stored one, stamped once more, after a run that was not cancelled. -/
structure Leaves (execute : Executor) (rules : PublishRules) (order : RunOrder) (graph : Graph)
    (w : World) : Prop where
  run : (runWith execute order w).2.store = w.store
  runGraph : (runGraphWith execute order graph w).2.store = w.store
  unmarked : ∀ id, ((publishWith execute rules order w).2.store.row? id).map Row.unmarked =
    (w.store.row? id).map Row.unmarked
  elsewhere : ∀ id, id ≠ order.graphId →
    w.store.SameAt (publishWith execute rules order w).2.store id
  changed : (publishWith execute rules order w).2.store.publishing? order.graphId ≠
      w.store.publishing? order.graphId ↔
    ∃ record execution, (publishWith execute rules order w).1 = .ok ⟨some record, execution⟩
  given : ∀ record execution,
    (publishWith execute rules order w).1 = .ok ⟨some record, execution⟩ →
    execution.result.status ≠ .cancelled ∧
    ∃ old now, w.store.publishing? order.graphId = some old ∧
      record = ⟨true, some now, old.count + 1⟩ ∧
      (publishWith execute rules order w).2.store.publishing? order.graphId = some record
  failed : ∀ e, (publishWith execute rules order w).1 = .error e →
    (publishWith execute rules order w).2.store = w.store

/-- What has to hold of a graph for a request to run it. Otherwise nothing is
    run, and if it does hold the request is carried out. A publication gives no
    record of a run just when the run was cancelled. -/
structure Gates (s : Service) (order : RunOrder) (graph : Graph) (w : World) : Prop where
  run : (∀ stored, ¬ w.store.Runnable order.graphId stored) →
    Idle (fun execute => runWith execute order w) w
  ran : ∀ stored, w.store.Runnable order.graphId stored →
    ∃ execution, (s.engine.execute order stored.graph w).1 = .ok execution ∧
      (s.run order w).1 = .ok execution
  runGraph : hasFatal graph.audit = true →
    Idle (fun execute => runGraphWith execute order graph w) w
  ranGraph : hasFatal graph.audit = false →
    ∃ execution, (s.engine.execute order graph w).1 = .ok execution ∧
      (s.runGraph order graph w).1 = .ok execution
  publish : (∀ stored, ¬ w.store.Publishable s.rules order.graphId stored) →
    Idle (fun execute => publishWith execute s.rules order w) w
  published : ∀ stored, w.store.Publishable s.rules order.graphId stored →
    ∃ execution record, (s.engine.execute order stored.graph w).1 = .ok execution ∧
      (s.publish order w).1 = .ok ⟨record, execution⟩ ∧
      (record = none ↔ execution.result.status = .cancelled)

/-- What is admitted is a stored graph that may be published. -/
theorem passGates_eq_ok_iff (rules : PublishRules) (store : Store) (id : String)
    (stored : StoredGraph) :
    passGates rules store id = .ok stored ↔ store.Publishable rules id stored := by
  constructor
  · intro h
    rcases load_of_passGates rules store id stored h with ⟨hload, hunpublished⟩
    exact ⟨hload, hunpublished, hasFatal_of_passGates rules store id stored h⟩
  · rintro ⟨hload, hunpublished, hsound⟩
    simp only [passGates, hload, hunpublished, hsound, bind, Except.bind, pure, Except.pure,
      Bool.false_eq_true, if_false]

/-- A graph in which nothing fatal is wrong has a plan, so it is run. -/
theorem exists_execution (e : Engine) (order : RunOrder) (graph : Graph) (w : World)
    (hsound : hasFatal graph.audit = false) :
    ∃ execution, (e.execute order graph w).1 = .ok execution := by
  rcases ((graph.hasFatal_audit_iff).mp hsound).2 with ⟨plan, hplan⟩
  rw [Engine.execute, Engine.executeAfter, hplan]
  exact ⟨_, rfl⟩

/-- When a graph was loaded that is still stored, the end of its publication is
    not refused. -/
theorem publishes_conclude (w : World) (id : String) (stored : StoredGraph)
    (execution : Execution) (hload : w.store.load id = .ok stored) :
    ∃ record, (conclude w stored execution).1 = .ok ⟨record, execution⟩ ∧
      (record = none ↔ execution.result.status = .cancelled) ∧
      w.store.Publishes id (.ok ⟨record, execution⟩) (conclude w stored execution).2.store := by
  rcases w.store.row?_of_load id stored hload with ⟨rfl, row, hrow, -, hversion, -⟩
  have hconcludes := concludes w stored execution
  revert hconcludes
  generalize (conclude w stored execution).1 = result
  generalize (conclude w stored execution).2.store = after
  rintro (hcancelled | ⟨e, hgone⟩ | ⟨now, found, hkept, hfound, _⟩)
  · exact ⟨none, rfl, ⟨fun _ => hcancelled, fun _ => rfl⟩, .cancelled execution hcancelled⟩
  -- The row is there, and in the version that was loaded.
  · exact absurd hversion (hgone row hrow)
  · exact ⟨_, rfl, ⟨nofun, fun hcancelled => absurd hcancelled hkept⟩,
      .recorded found now execution hfound hkept⟩

/-- What a publication comes to whose graph was admitted and run, when the run has
    left the store alone. -/
theorem publishes_of_ran (execute : Executor) (rules : PublishRules) (order : RunOrder)
    (w : World) (stored : StoredGraph) (execution : Execution)
    (hgates : passGates rules w.store order.graphId = .ok stored)
    (hran : (execute order stored.graph w).1 = .ok execution)
    (hstore : (execute order stored.graph w).2.store = w.store) :
    ∃ record, (publishWith execute rules order w).1 = .ok ⟨record, execution⟩ ∧
      (record = none ↔ execution.result.status = .cancelled) ∧
      w.store.Publishes order.graphId (.ok ⟨record, execution⟩)
        (publishWith execute rules order w).2.store := by
  rcases hexecuted : execute order stored.graph w with ⟨result, after⟩
  rw [hexecuted] at hran hstore
  simp only at hran hstore
  have hpublish : publishWith execute rules order w = conclude after stored execution := by
    simp only [publishWith, hgates, hexecuted, hran]
  -- What was loaded is still stored.
  have hload := (load_of_passGates rules w.store order.graphId stored hgates).1
  rw [← hstore] at hload ⊢
  rw [hpublish]
  exact publishes_conclude after order.graphId stored execution hload

/-- What a publication comes to, however runs are carried out. -/
theorem publishes (execute : Executor) (rules : PublishRules) (order : RunOrder) (w : World)
    (hspares : Spares execute w) :
    w.store.Publishes order.graphId (publishWith execute rules order w).1
      (publishWith execute rules order w).2.store := by
  cases hgates : passGates rules w.store order.graphId with
  | error e =>
      simp only [publishWith, hgates]
      exact .refused e
  | ok stored =>
      have hstore := hspares order stored.graph
      cases hran : (execute order stored.graph w).1 with
      | error cycle =>
          -- What was run has no plan, which is the end of the request.
          rcases hexecuted : execute order stored.graph w with ⟨result, after⟩
          rw [hexecuted] at hran hstore
          simp only at hran hstore
          simp only [publishWith, hgates, hexecuted, hran, hstore]
          exact .refused _
      | ok execution =>
          rcases publishes_of_ran execute rules order w stored execution hgates hran hstore with
            ⟨record, hresult, -, hpublishes⟩
          rw [hresult]
          exact hpublishes

/-- Running leaves the store as it was. -/
theorem store_runGraph (execute : Executor) (order : RunOrder) (graph : Graph) (w : World)
    (hspares : Spares execute w) : (runGraphWith execute order graph w).2.store = w.store := by
  rw [runGraphWith]
  split
  · rfl
  · exact hspares order graph

theorem store_run (execute : Executor) (order : RunOrder) (w : World)
    (hspares : Spares execute w) : (runWith execute order w).2.store = w.store := by
  rw [runWith]
  cases w.store.load order.graphId with
  | error e => rfl
  | ok stored => exact store_runGraph execute order stored.graph w hspares

/-- What carries out runs has no part in what a request leaves, as long as it
    leaves the store alone. -/
theorem leaves_of_spares (execute : Executor) (rules : PublishRules) (order : RunOrder)
    (graph : Graph) (w : World) (h : Spares execute w) :
    Leaves execute rules order graph w := by
  have hpublishes := publishes execute rules order w h
  exact {
    run := store_run execute order w h
    runGraph := store_runGraph execute order graph w h
    unmarked := hpublishes.unmarked
    elsewhere := fun _ => hpublishes.sameAt
    changed := hpublishes.changed_iff
    given := fun _ _ => hpublishes.given
    failed := fun _ => hpublishes.failed }

/-- The engine leaves the store alone when the handlers do. -/
theorem spares_execute (e : Engine) (w : World) (hquiet : w.registry.Quiet) :
    Spares e.execute w :=
  fun order graph => e.store_execute order graph w hquiet

/-- What is not admitted is not run for publishing. -/
theorem idle_publish (rules : PublishRules) (order : RunOrder) (w : World)
    (h : ∀ stored, ¬ w.store.Publishable rules order.graphId stored) :
    Idle (fun execute => publishWith execute rules order w) w := by
  cases hgates : passGates rules w.store order.graphId with
  | error e =>
      refine ⟨e, fun execute => ?_⟩
      simp only [publishWith, hgates]
  | ok stored => exact absurd ((passGates_eq_ok_iff _ _ _ stored).mp hgates) (h stored)

/-- A graph in which something fatal is wrong is not run. -/
theorem idle_runGraph (order : RunOrder) (graph : Graph) (w : World)
    (h : hasFatal graph.audit = true) :
    Idle (fun execute => runGraphWith execute order graph w) w := by
  refine ⟨.invalidGraph (fatalSummary graph.audit), fun execute => ?_⟩
  simp only [runGraphWith, h, if_true]

/-- Nor is one that cannot be loaded. -/
theorem idle_run (order : RunOrder) (w : World)
    (h : ∀ stored, ¬ w.store.Runnable order.graphId stored) :
    Idle (fun execute => runWith execute order w) w := by
  cases hload : w.store.load order.graphId with
  | error e =>
      refine ⟨e, fun execute => ?_⟩
      simp only [runWith, hload]
  | ok stored =>
      -- It is loaded, so something fatal is wrong with it.
      have hfatal : hasFatal stored.graph.audit = true :=
        (Bool.not_eq_false _).mp fun hsound => h stored ⟨hload, hsound⟩
      rcases idle_runGraph order stored.graph w hfatal with ⟨e, hidle⟩
      refine ⟨e, fun execute => ?_⟩
      simp only [runWith, hload]
      exact hidle execute

/-- Any other graph is run. -/
theorem runGraph_of_sound (s : Service) (order : RunOrder) (graph : Graph) (w : World)
    (h : hasFatal graph.audit = false) :
    ∃ execution, (s.engine.execute order graph w).1 = .ok execution ∧
      (s.runGraph order graph w).1 = .ok execution := by
  rcases exists_execution s.engine order graph w h with ⟨execution, hran⟩
  refine ⟨execution, hran, ?_⟩
  simp only [runGraph, runGraphWith, h, Bool.false_eq_true, if_false, hran]
  rfl

theorem run_of_runnable (s : Service) (order : RunOrder) (w : World) (stored : StoredGraph)
    (h : w.store.Runnable order.graphId stored) :
    ∃ execution, (s.engine.execute order stored.graph w).1 = .ok execution ∧
      (s.run order w).1 = .ok execution := by
  have hrun : s.run order w = s.runGraph order stored.graph w := by
    rw [run, runWith, h.load]
    rfl
  rw [hrun]
  exact s.runGraph_of_sound order stored.graph w h.sound

/-- What is admitted is run, and the end of its publication is not refused. -/
theorem publish_of_publishable (s : Service) (order : RunOrder) (w : World)
    (hquiet : w.registry.Quiet) (stored : StoredGraph)
    (h : w.store.Publishable s.rules order.graphId stored) :
    ∃ execution record, (s.engine.execute order stored.graph w).1 = .ok execution ∧
      (s.publish order w).1 = .ok ⟨record, execution⟩ ∧
      (record = none ↔ execution.result.status = .cancelled) := by
  have hgates := (passGates_eq_ok_iff s.rules w.store order.graphId stored).mpr h
  have hsound := ((stored.graph.hasFatal_auditForPublish_iff s.rules).mp h.sound).1
  rcases exists_execution s.engine order stored.graph w hsound with ⟨execution, hran⟩
  have hstore := s.engine.store_execute order stored.graph w hquiet
  rcases publishes_of_ran s.engine.execute s.rules order w stored execution hgates hran hstore with
    ⟨record, hresult, hrecord, -⟩
  exact ⟨execution, record, hran, hresult, hrecord⟩

/-- What a request leaves behind when nobody else works on the store, and what
    it has run by then. What it leaves is the same for everything that carries out
    runs and leaves the store alone, as the engine does. -/
theorem left_by_request (s : Service) (order : RunOrder) (graph : Graph) (w : World)
    (hquiet : w.registry.Quiet) :
    Leaves s.engine.execute s.rules order graph w ∧ Gates s order graph w ∧
      ∀ execute, Spares execute w → Leaves execute s.rules order graph w := by
  refine ⟨leaves_of_spares s.engine.execute s.rules order graph w
    (spares_execute s.engine w hquiet), ?_,
    fun execute => leaves_of_spares execute s.rules order graph w⟩
  exact {
    run := idle_run order w
    ran := s.run_of_runnable order w
    runGraph := idle_runGraph order graph w
    ranGraph := s.runGraph_of_sound order graph w
    publish := idle_publish s.rules order w
    published := s.publish_of_publishable order w hquiet }

/-- Where the graph of one step was saved, with the built-in handlers. -/
def furnished : World := { shelf.world with registry := Registry.builtins {} }

/-- What is asked for when the graph is to be published there. -/
def onlyOrder : RunOrder := { run := "r", graphId := "g" }

/-- The graph is published by a client that nobody disturbs. -/
theorem left_by_request_furnished : ∃ record execution,
    ((default : Service).publish onlyOrder furnished).1 = .ok ⟨some record, execution⟩ ∧
      record.count = 1 ∧ execution.result.status ≠ .cancelled ∧
      ((default : Service).publish onlyOrder furnished).2.store.publishing? "g" =
        some record := by
  have hleaves :=
    (left_by_request default onlyOrder oneStep furnished (Registry.quiet_builtins {})).1
  have hbefore : furnished.store.publishing? "g" = some {} := by decide +kernel
  have hafter : ((default : Service).publish onlyOrder furnished).2.store.publishing? "g" ≠
      furnished.store.publishing? "g" := by decide +kernel
  rcases hleaves.changed.mp hafter with ⟨record, execution, hresult⟩
  rcases hleaves.given record execution hresult with
    ⟨hstatus, old, now, hold, hrecord, hstored⟩
  refine ⟨record, execution, hresult, ?_, hstatus, hstored⟩
  rw [onlyOrder, hbefore, Option.some.injEq] at hold
  rw [hrecord, ← hold]

end Service

end Workflow
