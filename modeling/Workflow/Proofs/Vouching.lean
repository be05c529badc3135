import Workflow.Proofs.Endings
import Workflow.Proofs.Publishing
import Workflow.Proofs.Storing

/-!
# What a Published Graph Is Worth

A graph that is marked as published is meant to be one that was checked and
run by the client that published it. Any number of clients save, delete and
publish graphs of any ids at once, and between the check and the mark there is
a whole run, in which the store may be asked for anything. What ties the mark
to the check is the version: it is the one the client has seen.

While a graph is not deleted its version only grows, and one version is one
snapshot (`Store.Follows`). So the mark is where it belongs as long as nobody
deletes the graph between the check and the mark, and this is what is proved
of every history (`vouched_of_published`). A delete breaks it. The next save
begins with version one again, and a client that has seen the old version one
marks a graph that was never checked (`published_unchecked`).

A history is a list of deeds. One that ends a publication carries what its
client was told, so that the record on a stored graph can be traced to the
client that was given it.

## Main definitions

* `Execution.Of`: An execution that a run of a graph came to.
* `Office`: The store, and the clients that are running what they have seen.
* `Deed`, `Office.Step`, `History`: What clients do, one after another.
* `Store.Follows`: One version is one snapshot.
* `Service.Concludes`: What the end of a publication comes to.
* `Seen`: What is known of a client that is running a graph.
* `Vouched`: Where the mark on a stored graph comes from.

## Theorems

* `follows_renew`, `follows_stamp`, `follows_delete`: What changes do to
  versions.
* `concludes`: What the end of a publication comes to.
* `step_follows`, `step_published`: What a deed does to versions and marks.
* `step_sound`: Every deed keeps what is known of clients and marks.
* `vouched_of_published`: Where the mark on a stored graph comes from.
* `published_unchecked`: A mark on a graph that was never checked.
-/

namespace Workflow

/-- An execution that a run of a graph came to. -/
def Execution.Of (graph : Graph) (execution : Execution) : Prop :=
  ∃ (setup : Setup) (choices : List Choice) (s : RunState), setup.graph = graph ∧
    Course setup choices s ∧ s.status ≠ none ∧ execution.result = s.result setup

/-- The store that clients work on, and the clients that are running what they
    have seen. -/
structure Office where
  world : World
  running : List (Nat × StoredGraph) := []

/-- What clients do. -/
inductive Deed
  /-- A snapshot is to be saved. -/
  | save (id title : String) (graph : Graph) (expected : Option Nat)
  /-- A graph is to be deleted. -/
  | delete (id : String)
  /-- A graph is looked at, or loaded to be run without being published. -/
  | read (id : String)
  /-- A client that wants to publish is admitted, with the graph it has seen. -/
  | start (client : Nat) (seen : StoredGraph)
  /-- A client that wants to publish is turned away. -/
  | turnAway (client : Nat) (e : WorkflowError)
  /-- The run of a client is over, and this is what it is told. -/
  | conclude (client : Nat) (seen : StoredGraph) (execution : Execution)
      (told : Except WorkflowError Publication)
  /-- Everything but the store goes on, as it does during runs. -/
  | elapse

namespace Office

/-- What a deed does. Every client that wants to publish is a new one. -/
inductive Step (rules : PublishRules) (past : List Deed) (o : Office) : Deed → Office → Prop
  | save (id title : String) (graph : Graph) (expected : Option Nat) :
      Step rules past o (.save id title graph expected)
        { o with world := (Service.save o.world id title graph expected).2 }
  | delete (id : String) :
      Step rules past o (.delete id) { o with world := (Service.delete o.world id).2 }
  | read (id : String) : Step rules past o (.read id) o
  | start (client : Nat) (id : String) (seen : StoredGraph)
      (hnew : ∀ other, .start client other ∉ past)
      (hgates : Service.passGates rules o.world.store id = .ok seen) :
      Step rules past o (.start client seen) { o with running := (client, seen) :: o.running }
  | turnAway (client : Nat) (id : String) (e : WorkflowError)
      (hgates : Service.passGates rules o.world.store id = .error e) :
      Step rules past o (.turnAway client e) o
  | conclude (client : Nat) (seen : StoredGraph) (execution : Execution)
      (hrunning : (client, seen) ∈ o.running) (hran : execution.Of seen.graph) :
      Step rules past o
        (.conclude client seen execution (Service.conclude o.world seen execution).1)
        { world := (Service.conclude o.world seen execution).2
          running := o.running.filter fun entry => entry.1 ≠ client }
  | elapse (world : World) (hstore : world.store = o.world.store) :
      Step rules past o .elapse { o with world := world }

end Office

/-- What was done since the store was empty. -/
inductive History (rules : PublishRules) : List Deed → Office → Prop
  | start (world : World) (hempty : world.store = .memory [] ∨ world.store = .text []) :
      History rules [] ⟨world, []⟩
  | step (past : List Deed) (o o' : Office) (deed : Deed) (hpast : History rules past o)
      (hstep : o.Step rules past deed o') : History rules (past ++ [deed]) o'

namespace Store

/-- While an id is not deleted its version only grows, and one version is one
    snapshot. -/
def Follows (s s' : Store) (id : String) : Prop :=
  ∀ row, s.row? id = some row → ∃ row', s'.row? id = some row' ∧ row.version ≤ row'.version ∧
    (row'.version = row.version → row'.body = row.body)

theorem Follows.of_row?_eq {s s' : Store} {id : String} (h : s'.row? id = s.row? id) :
    s.Follows s' id := by
  intro row hrow
  exact ⟨row, h.trans hrow, Nat.le_refl _, fun _ => rfl⟩

theorem follows_renew (s : Store) (now : Instant) (id title : String) (graph : Graph)
    (other : String) : s.Follows (s.renew now id title graph) other := by
  by_cases hother : id = other
  · intro row hrow
    have hnew := s.row?_renew now id title graph other
    rw [if_pos hother] at hnew
    -- The version is a new one, so nothing is asked of the snapshot.
    have hversion : s.versionOf id = row.version := by
      rw [versionOf_eq, hother, hrow]
      rfl
    refine ⟨_, hnew, ?_, ?_⟩
    · simp only
      omega
    · intro heq
      simp only at heq
      omega
  · exact .of_row?_eq ((s.row?_renew now id title graph other).trans (if_neg hother))

theorem follows_stamp (s : Store) (now : Instant) (id other : String) :
    s.Follows (s.stamp now id) other := by
  by_cases hother : id = other
  · intro row hrow
    have hnew := s.row?_stamp now id other
    rw [if_pos hother, hother, hrow, Option.map_some] at hnew
    rw [hother]
    exact ⟨_, hnew, Nat.le_refl _, fun _ => rfl⟩
  · exact .of_row?_eq ((s.row?_stamp now id other).trans (if_neg hother))

theorem follows_delete (s : Store) {id other : String} (hother : id ≠ other) :
    s.Follows (s.delete id).2 other :=
  .of_row?_eq ((s.row?_delete id other).trans (if_neg hother))

/-- What is loaded is a row that can be read. -/
theorem row?_of_load (s : Store) (id : String) (stored : StoredGraph)
    (h : s.load id = .ok stored) : stored.id = id ∧ ∃ row, s.row? id = some row ∧
      row.body = some stored.graph ∧ row.version = stored.version ∧
      row.publish = stored.publish := by
  rw [load_eq] at h
  -- What is loaded is in the row that is found.
  cases hrow : s.row? id with
  | none =>
      rw [hrow] at h
      exact absurd h (by simp only [reduceCtorEq, not_false_eq_true])
  | some row =>
      rw [hrow] at h
      cases hbody : row.body with
      | none =>
          simp only [hbody, reduceCtorEq] at h
      | some graph =>
          simp only [hbody, Except.ok.injEq] at h
          rw [← h]
          exact ⟨rfl, row, rfl, hbody, rfl, rfl⟩

end Store

namespace Service

/-- What is admitted has nothing fatal. -/
theorem hasFatal_of_passGates (rules : PublishRules) (store : Store) (id : String)
    (stored : StoredGraph) (h : passGates rules store id = .ok stored) :
    hasFatal (stored.graph.auditForPublish rules) = false := by
  rcases load_of_passGates rules store id stored h with ⟨hload, hpublished⟩
  simp only [passGates, hload, hpublished, bind, Except.bind, Bool.false_eq_true, if_false, pure,
    Except.pure] at h
  split at h
  · exact absurd h (by simp only [reduceCtorEq, not_false_eq_true])
  · rename_i hfatal
    exact (Bool.not_eq_true _).mp hfatal

/-- A save leaves the store, or replaces a row. -/
theorem store_save (w : World) (id title : String) (graph : Graph) (expected : Option Nat) :
    (save w id title graph expected).2.store = w.store ∨
      ∃ now, (save w id title graph expected).2.store = w.store.renew now id title graph := by
  have hsaves := w.store.saves (w.readClock 0).1 id title graph expected
  simp only [save, World.readClock] at hsaves ⊢
  revert hsaves
  generalize w.store.save _ id title graph expected = result
  rintro (_ | _ | _)
  · exact Or.inl rfl
  · exact Or.inl rfl
  · exact Or.inr ⟨_, rfl⟩

/-- What the end of a publication comes to, and what is stored then. -/
inductive Concludes (s : Store) (seen : StoredGraph) (execution : Execution) :
    Except WorkflowError Publication → Store → Prop
  /-- The run was cancelled. -/
  | cancelled (hstatus : execution.result.status = .cancelled) :
      Concludes s seen execution (.ok ⟨none, execution⟩) s
  /-- What was seen is not stored any more. -/
  | refused (e : WorkflowError)
      (hgone : ∀ row, s.row? seen.id = some row → row.version ≠ seen.version) :
      Concludes s seen execution (.error e) s
  /-- It is recorded. -/
  | recorded (now : Instant) (row : Row (Option Graph))
      (hstatus : execution.result.status ≠ .cancelled) (hrow : s.row? seen.id = some row)
      (hversion : row.version = seen.version) :
      Concludes s seen execution (.ok ⟨some (row.publish.stamp now), execution⟩)
        (s.stamp now seen.id)

theorem concludes (w : World) (seen : StoredGraph) (execution : Execution) :
    Concludes w.store seen execution (conclude w seen execution).1
      (conclude w seen execution).2.store := by
  rw [conclude]
  by_cases hcancelled : execution.result.status = .cancelled
  · rw [if_pos hcancelled]
    exact .cancelled hcancelled
  -- The version is compared once more, with the one that is stored by then.
  · rw [if_neg hcancelled]
    have hmarks := w.store.marks (w.readClock 0).1 seen.id seen.version
    simp only [markPublished, World.readClock] at hmarks ⊢
    revert hmarks
    generalize w.store.markPublished _ seen.id seen.version = result
    rintro (hnone | ⟨row, hrow, hother⟩ | ⟨row, hrow, hversion⟩)
    · refine .refused _ fun row hrow => ?_
      rw [hnone] at hrow
      exact absurd hrow.symm (Option.some_ne_none row)
    · refine .refused _ fun other hsame => ?_
      rw [hrow, Option.some.injEq] at hsame
      rw [← hsame]
      exact hother.symm
    · exact .recorded _ row hcancelled hrow hversion.symm

/-- The end of a publication leaves the store and gives no record, or records
    what was seen. -/
theorem store_conclude (w : World) (seen : StoredGraph) (execution : Execution) :
    (conclude w seen execution).2.store = w.store ∨
      ∃ now row, execution.result.status ≠ .cancelled ∧ w.store.row? seen.id = some row ∧
        row.version = seen.version ∧
        (conclude w seen execution).1 = .ok ⟨some (row.publish.stamp now), execution⟩ ∧
        (conclude w seen execution).2.store = w.store.stamp now seen.id := by
  have hconcludes := concludes w seen execution
  revert hconcludes
  generalize (conclude w seen execution).1 = result
  generalize (conclude w seen execution).2.store = after
  rintro (_ | _ | ⟨now, row, hkept, hrow, hversion⟩)
  · exact Or.inl rfl
  · exact Or.inl rfl
  · exact Or.inr ⟨now, row, hkept, hrow, hversion, rfl, rfl⟩

end Service

/-- What is known of a client that is running a graph: it was admitted with
    it, nothing fatal was found, and unless the graph was deleted since then
    the version it has seen still stands for it. -/
def Seen (rules : PublishRules) (past : List Deed) (s : Store) (client : Nat)
    (seen : StoredGraph) : Prop :=
  hasFatal (seen.graph.auditForPublish rules) = false ∧
    ∃ first middle, past = first ++ .start client seen :: middle ∧
      (.delete seen.id ∉ middle → ∃ row, s.row? seen.id = some row ∧
        seen.version ≤ row.version ∧ (row.version = seen.version → row.body = some seen.graph))

/-- Where the mark on what is stored under an id comes from. A client was
    admitted with a graph of this id and version, in which nothing fatal was
    found. It ran the graph, was not cancelled, and was given the record that is
    stored. The graph is the one that is stored unless it was deleted while the
    client was running it. -/
def Vouched (rules : PublishRules) (past : List Deed) (id : String)
    (row : Row (Option Graph)) : Prop :=
  ∃ client seen execution first middle last,
    past = first ++ .start client seen :: middle ++
      .conclude client seen execution (.ok ⟨some row.publish, execution⟩) :: last ∧
    seen.id = id ∧ seen.version = row.version ∧
    hasFatal (seen.graph.auditForPublish rules) = false ∧
    execution.Of seen.graph ∧ execution.result.status ≠ .cancelled ∧
    (.delete id ∉ middle → row.body = some seen.graph)

namespace Office

variable {rules : PublishRules} {past : List Deed} {o o' : Office} {deed : Deed}

/-- Every deed but a delete of the id keeps versions apart. -/
theorem step_follows (h : o.Step rules past deed o') (id : String) (hdelete : deed ≠ .delete id) :
    o.world.store.Follows o'.world.store id := by
  cases h with
  | save key title graph expected =>
      rcases Service.store_save o.world key title graph expected with hsame | ⟨now, hnew⟩
      -- A save that changes nothing leaves the row.
      · exact .of_row?_eq (by rw [hsame])
      · rw [hnew]
        exact o.world.store.follows_renew now key title graph id
  | delete key => exact o.world.store.follows_delete fun heq => hdelete (congrArg _ heq)
  | read key => exact .of_row?_eq rfl
  | start client key seen hnew hgates => exact .of_row?_eq rfl
  | turnAway client key e hgates => exact .of_row?_eq rfl
  | conclude client seen execution hrunning hran =>
      rcases Service.store_conclude o.world seen execution with
        hsame | ⟨now, row, -, -, -, -, hnew⟩
      -- So does a publication that is refused, and one that is recorded only stamps the row.
      · exact .of_row?_eq (by rw [hsame])
      · rw [hnew]
        exact o.world.store.follows_stamp now seen.id id
  | elapse world hstore => exact .of_row?_eq (by rw [hstore])

/-- What is marked after a deed was so before, or its client was told so. -/
theorem step_published (h : o.Step rules past deed o') (id : String) (row : Row (Option Graph))
    (hrow : o'.world.store.row? id = some row) (hpublished : row.publish.published = true) :
    o.world.store.row? id = some row ∨
      ∃ client seen execution before,
        deed = .conclude client seen execution (.ok ⟨some row.publish, execution⟩) ∧
        (client, seen) ∈ o.running ∧ seen.id = id ∧ execution.Of seen.graph ∧
        execution.result.status ≠ .cancelled ∧ o.world.store.row? id = some before ∧
        before.version = seen.version ∧ row.version = before.version ∧
        row.body = before.body := by
  cases h with
  | save key title graph expected =>
      rcases Service.store_save o.world key title graph expected with hsame | ⟨now, hnew⟩
      · rw [hsame] at hrow
        exact Or.inl hrow
      · rw [hnew, o.world.store.row?_renew now key title graph id] at hrow
        by_cases hid : key = id
        -- A snapshot that replaces another one is not marked.
        · rw [if_pos hid, Option.some.injEq] at hrow
          rw [← hrow] at hpublished
          exact absurd hpublished Bool.false_ne_true
        · rw [if_neg hid] at hrow
          exact Or.inl hrow
  | delete key =>
      rw [Service.delete, o.world.store.row?_delete key id] at hrow
      -- What is deleted is not found any more.
      by_cases hid : key = id
      · rw [if_pos hid] at hrow
        exact absurd hrow.symm (Option.some_ne_none row)
      · rw [if_neg hid] at hrow
        exact Or.inl hrow
  | read key => exact Or.inl hrow
  | start client key seen hnew hgates => exact Or.inl hrow
  | turnAway client key e hgates => exact Or.inl hrow
  | conclude client seen execution hrunning hran =>
      rcases Service.store_conclude o.world seen execution with
        hsame | ⟨now, before, hkept, hbefore, hversion, htold, hnew⟩
      · rw [hsame] at hrow
        exact Or.inl hrow
      · rw [hnew, o.world.store.row?_stamp now seen.id id] at hrow
        -- Only the row that was loaded is stamped, and its client is told the stamp.
        by_cases hid : seen.id = id
        · rw [if_pos hid, hbefore, Option.map_some, Option.some.injEq] at hrow
          refine Or.inr ⟨client, seen, execution, before, ?_, hrunning, hid, hran, hkept,
            hid ▸ hbefore, hversion, ?_, ?_⟩
          · rw [htold, ← hrow]
          · rw [← hrow]
          · rw [← hrow]
        · rw [if_neg hid] at hrow
          exact Or.inl hrow
  | elapse world hstore =>
      rw [hstore] at hrow
      exact Or.inl hrow

/-- Who is running something after a deed was so before, or was admitted. -/
theorem step_running (h : o.Step rules past deed o') (client : Nat) (seen : StoredGraph)
    (hrunning : (client, seen) ∈ o'.running) : (client, seen) ∈ o.running ∨
      deed = .start client seen ∧ o'.world = o.world ∧
        ∃ id, Service.passGates rules o.world.store id = .ok seen := by
  cases h with
  | save key title graph expected => exact Or.inl hrunning
  | delete key => exact Or.inl hrunning
  | read key => exact Or.inl hrunning
  | start other key stored hnew hgates =>
      -- What is under way now has just been started, or was under way before.
      rcases List.mem_cons.mp hrunning with heq | hin
      · rw [Prod.mk.injEq] at heq
        rw [heq.1, heq.2]
        exact Or.inr ⟨rfl, rfl, key, hgates⟩
      · exact Or.inl hin
  | turnAway other key e hgates => exact Or.inl hrunning
  | conclude other stored execution hother hran =>
      exact Or.inl (List.mem_of_mem_filter hrunning)
  | elapse world hstore => exact Or.inl hrunning

/-- What is known of all clients and of all marks. -/
structure Sound (rules : PublishRules) (past : List Deed) (o : Office) : Prop where
  seen : ∀ client seen, (client, seen) ∈ o.running → Seen rules past o.world.store client seen
  vouched : ∀ id row, o.world.store.row? id = some row → row.publish.published = true →
    Vouched rules past id row

/-- What is known of a client that goes on running a graph. -/
theorem Sound.seen_step (hsound : o.Sound rules past) (h : o.Step rules past deed o')
    (client : Nat) (seen : StoredGraph) (hrunning : (client, seen) ∈ o.running) :
    Seen rules (past ++ [deed]) o'.world.store client seen := by
  rcases hsound.seen client seen hrunning with ⟨hfatal, first, middle, hpast, hkept⟩
  refine ⟨hfatal, first, middle ++ [deed], ?_, fun hdelete => ?_⟩
  · rw [hpast, List.append_assoc, List.cons_append]
  · have hmiddle : .delete seen.id ∉ middle := fun hin => hdelete (List.mem_append_left _ hin)
    have hdeed : deed ≠ .delete seen.id := fun heq =>
      hdelete (List.mem_append_right _ (heq ▸ List.mem_cons_self))
    rcases hkept hmiddle with ⟨row, hrow, hle, hbody⟩
    rcases step_follows h seen.id hdeed row hrow with ⟨row', hrow', hle', hbody'⟩
    refine ⟨row', hrow', Nat.le_trans hle hle', fun heq => ?_⟩
    -- A version that is the old one again was not left in between.
    have hsame : row.version = seen.version := by omega
    rw [hbody' (by omega), hbody hsame]

/-- What is known of a client that was admitted just now. -/
theorem seen_of_passGates (client : Nat) (id : String) (seen : StoredGraph)
    (hgates : Service.passGates rules o.world.store id = .ok seen) :
    Seen rules (past ++ [.start client seen]) o.world.store client seen := by
  have hload := (Service.load_of_passGates rules o.world.store id seen hgates).1
  rcases o.world.store.row?_of_load id seen hload with ⟨hid, row, hrow, hbody, hversion, -⟩
  refine ⟨Service.hasFatal_of_passGates rules o.world.store id seen hgates, past, [], rfl, ?_⟩
  intro _
  refine ⟨row, ?_, Nat.le_of_eq hversion.symm, fun _ => hbody⟩
  rw [hid]
  exact hrow

/-- Every deed keeps what is known of clients and marks. -/
theorem step_sound (hsound : o.Sound rules past) (h : o.Step rules past deed o') :
    o'.Sound rules (past ++ [deed]) where
  seen := by
    intro client seen hrunning
    rcases step_running h client seen hrunning with hin | ⟨hdeed, hworld, id, hgates⟩
    · exact hsound.seen_step h client seen hin
    · rw [hdeed, hworld]
      exact seen_of_passGates client id seen hgates
  vouched := by
    intro id row hrow hpublished
    rcases step_published h id row hrow hpublished with hbefore | hnew
    · rcases hsound.vouched id row hbefore hpublished with
        ⟨client, seen, execution, first, middle, last, hpast, hrest⟩
      -- An earlier publication is in the longer history as well.
      refine ⟨client, seen, execution, first, middle, last ++ [deed], ?_, hrest⟩
      rw [hpast, List.append_assoc, List.cons_append]
    · rcases hnew with ⟨client, seen, execution, before, hdeed, hrunning, hid, hran, hkept,
        hbefore, hversion, hsame, hbody⟩
      -- A new one goes back to where its client has loaded the graph.
      rcases hsound.seen client seen hrunning with ⟨hfatal, first, middle, hpast, hseen⟩
      refine ⟨client, seen, execution, first, middle, [], ?_, hid, ?_, hfatal, hran, hkept, ?_⟩
      · rw [hpast, hdeed]
      · omega
      · intro hdelete
        rw [← hid] at hdelete hbefore
        rcases hseen hdelete with ⟨found, hfound, -, hgraph⟩
        rw [hbefore, Option.some.injEq] at hfound
        rw [hbody, hfound, hgraph (hfound ▸ hversion)]

end Office

namespace History

variable {rules : PublishRules} {past : List Deed} {o : Office}

theorem sound (h : History rules past o) : o.Sound rules past := by
  induction h with
  | start world hempty =>
      refine ⟨fun client seen hrunning => absurd hrunning List.not_mem_nil, ?_⟩
      intro id row hrow
      rcases hempty with hempty | hempty <;>
      · rw [hempty] at hrow
        exact absurd hrow.symm (Option.some_ne_none row)
  | step past o o' deed hpast hstep ih => exact Office.step_sound ih hstep

/-- Where the mark on a stored graph comes from, in every history of an empty
    store. -/
theorem vouched_of_published (h : History rules past o) (id : String) (stored : StoredGraph)
    (hload : o.world.store.load id = .ok stored) (hpublished : stored.publish.published = true) :
    ∃ client seen execution first middle last,
      past = first ++ .start client seen :: middle ++
        .conclude client seen execution (.ok ⟨some stored.publish, execution⟩) :: last ∧
      seen.id = id ∧ seen.version = stored.version ∧
      hasFatal (seen.graph.auditForPublish rules) = false ∧
      execution.Of seen.graph ∧ execution.result.status ≠ .cancelled ∧
      (.delete id ∉ middle → stored.graph = seen.graph) := by
  rcases o.world.store.row?_of_load id stored hload with
    ⟨-, row, hrow, hbody, hversion, hpublish⟩
  rw [← hpublish] at hpublished ⊢
  rcases h.sound.vouched id row hrow hpublished with
    ⟨client, seen, execution, first, middle, last, hpast, hid, hseen, hfatal, hran, hkept,
      hgraph⟩
  refine ⟨client, seen, execution, first, middle, last, hpast, hid, hseen.trans hversion, hfatal,
    hran, hkept, fun hdelete => ?_⟩
  -- What is loaded is the body of the row.
  exact Option.some.inj (hbody.symm.trans (hgraph hdelete))

end History

/-- A run of a graph of one step. -/
def oneStepSetup : Setup where
  run := "r"
  graphId := "g"
  graph := oneStep
  plan := ⟨[["a"]], [("a", [])]⟩
  workers := 1
  budget := fun _ => 0
  restMs := fun _ _ => 0
  start := ⟨0, 0⟩

/-- What the run comes to when its only step succeeds. -/
def oneStepRun : Execution :=
  match (RunState.start oneStepSetup).follow oneStepSetup
    [.advance, .launch, .grant "a", .answer "a" (.ok .null), .collect "a", .advance] with
  | some s => ⟨s.result oneStepSetup, [], s.nowMs⟩
  | none => default

theorem oneStepRun_of : oneStepRun.Of oneStep := by
  rcases Course.exists_of_observed oneStepSetup
    [.advance, .launch, .grant "a", .answer "a" (.ok .null), .collect "a", .advance]
    RunState.status (some .succeeded) rfl rfl with ⟨s, hcourse, hstatus⟩
  refine ⟨oneStepSetup, _, s, rfl, hcourse, ?_, ?_⟩
  · rw [hstatus]
    exact Option.some_ne_none _
  · rw [oneStepRun, hcourse.followed]

/-- The graph of one step was saved. -/
def savedOnce : World := (Service.save {} "g" "t" oneStep none).2

/-- What a client sees that is admitted then. -/
def seenOnce : StoredGraph := ⟨"g", "t", oneStep, 1, {}, ⟨0, 0⟩⟩

/-- A client is admitted once the graph was saved. -/
theorem history_admitted : History {} [.save "g" "t" oneStep none, .start 1 seenOnce]
    ⟨savedOnce, [(1, seenOnce)]⟩ := by
  have hstart : History {} [] ⟨{}, []⟩ := .start {} (Or.inl rfl)
  have hsaved := hstart.step _ _ _ _ (.save "g" "t" oneStep none)
  refine hsaved.step _ _ _ _ (.start 1 "g" seenOnce ?_ ?_)
  · intro other hin
    exact absurd (List.mem_singleton.mp hin) (by simp only [reduceCtorEq, not_false_eq_true])
  · decide +kernel

/-- While the client is running the graph, another graph is saved. -/
def savedOther : World := (Service.save savedOnce "h" "u" {} none).2

/-- What was done until the client has published the graph. -/
def undisturbed : List Deed :=
  [.save "g" "t" oneStep none, .start 1 seenOnce, .save "h" "u" {} none,
    .conclude 1 seenOnce oneStepRun (Service.conclude savedOther seenOnce oneStepRun).1]

theorem vouched_of_published_undisturbed :
    ∃ client seen, .start client seen ∈ undisturbed ∧ seen.graph = oneStep ∧
      hasFatal (seen.graph.auditForPublish {}) = false := by
  have hsaved := history_admitted.step _ _ _ _ (.save "h" "u" {} none)
  have hdone : History {} undisturbed _ :=
    hsaved.step _ _ _ _ (.conclude 1 seenOnce oneStepRun List.mem_cons_self oneStepRun_of)
  have hload : (Service.conclude savedOther seenOnce oneStepRun).2.store.load "g" =
      .ok ⟨"g", "t", oneStep, 1, ⟨true, some ⟨0, 2⟩, 1⟩, ⟨0, 0⟩⟩ := by decide +kernel
  rcases hdone.vouched_of_published "g" _ hload rfl with
    ⟨client, seen, execution, first, middle, last, hpast, -, -, hfatal, -, -, hgraph⟩
  refine ⟨client, seen, ?_, (hgraph ?_).symm, hfatal⟩
  · rw [hpast]
    exact List.mem_append_left _ (List.mem_append_right _ List.mem_cons_self)
  · intro hin
    have hdelete : .delete "g" ∈ undisturbed := by
      rw [hpast]
      exact List.mem_append_left _ (List.mem_append_right _ (List.mem_cons_of_mem _ hin))
    simp only [undisturbed, List.mem_cons, reduceCtorEq, List.not_mem_nil, or_self] at hdelete

/-- While the client is running the graph, it is deleted, and one without any
    steps is saved in its place. -/
def savedAnew : World :=
  (Service.save (Service.delete savedOnce "g").2 "g" "t" {} none).2

/-- A version does not say which of two lifetimes of a graph it is from: a graph
    without a trigger, which may not be published, is marked as published by a
    client that was admitted with the graph that was deleted. -/
theorem published_unchecked :
    ¬ ∀ (rules : PublishRules) (past : List Deed) (o : Office), History rules past o →
      ∀ (id : String) (stored : StoredGraph), o.world.store.load id = .ok stored →
        stored.publish.published = true →
          hasFatal (stored.graph.auditForPublish rules) = false ∧
            ∃ client seen execution, .start client seen ∈ past ∧
              .conclude client seen execution (.ok ⟨some stored.publish, execution⟩) ∈ past ∧
              execution.Of stored.graph ∧ execution.result.status ≠ .cancelled := by
  intro hclaim
  have hdeleted := history_admitted.step _ _ _ _ (.delete "g")
  have hanew := hdeleted.step _ _ _ _ (.save "g" "t" {} none)
  have hdone := hanew.step _ _ _ _ (.conclude 1 seenOnce oneStepRun List.mem_cons_self
    oneStepRun_of)
  have hload : (Service.conclude savedAnew seenOnce oneStepRun).2.store.load "g" =
      .ok ⟨"g", "t", {}, 1, ⟨true, some ⟨0, 2⟩, 1⟩, ⟨0, 1⟩⟩ := by decide +kernel
  have hfatal : hasFatal (({} : Graph).auditForPublish {}) = true := by decide +kernel
  have hsound := (hclaim {} _ _ hdone "g" _ hload rfl).1
  exact absurd (hfatal.symm.trans hsound) Bool.true_eq_false.mp

end Workflow
