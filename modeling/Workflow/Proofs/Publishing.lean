import Workflow.Service

/-!
# Publishing Side by Side

Several clients publish and save the same graph at once. Publishing is not one
step for the others: the stored graph is admitted, then it is run, and then
the outcome is concluded, and in between the store may be asked for anything
else. A client that was admitted holds a ticket with the snapshot it saw.

What is checked at the end is the version on the ticket, not whether the
snapshot was published meanwhile. So two clients that hold tickets for the
same snapshot are both recorded (`two_records_of_one_snapshot`). What does hold
is decided at the beginning: once a snapshot is recorded as published, nobody
else is admitted until a save changes it, and the count of publications is
that of the records that were given (`records_of_steady`). A second record
therefore always goes to a client that was admitted before the first one was
given.

## Main definitions

* `Ticket`, `Desk`: Clients that were admitted, and the store they work on.
* `Request`, `Answer`: What clients ask for, and what they get.
* `Desk.serve`: One request.
* `Desk.Steady`: Requests among which no save changes the stored graph.

## Theorems

* `publishing?_of_load`, `publishing?_of_markPublished`: What is known of the
  publishing of a stored graph.
* `serve_publishing`: What one request does to it.
* `records_of_steady`: What a published snapshot admits and counts.
* `two_records_of_one_snapshot`: A snapshot that is recorded twice.
-/

namespace Workflow

namespace Store

/-- What is known of the publishing of a graph. -/
def publishing? (s : Store) (id : String) : Option PublishRecord :=
  match s with
  | memory t => (Entries.find? id t).map Row.publish
  | text t => (Entries.find? id t).map Row.publish

end Store

namespace Table

variable {β : Type}

theorem publish_of_load (f : Format β) (t : Table β) (id : String) (stored : StoredGraph)
    (h : t.load f id = .ok stored) :
    stored.id = id ∧ (Entries.find? id t).map Row.publish = some stored.publish := by
  rw [load] at h
  cases hrow : Entries.find? id t with
  | none =>
      rw [hrow] at h
      exact absurd h (by simp only [reduceCtorEq, not_false_eq_true])
  | some row =>
      rw [hrow] at h
      simp only at h
      split at h
      · exact absurd h (by simp only [reduceCtorEq, not_false_eq_true])
      · rw [Except.ok.injEq] at h
        rw [← h]
        exact ⟨rfl, rfl⟩

/-- A version that is recorded as published is stamped once more. -/
theorem publish_of_markPublished (t t' : Table β) (now : Instant) (id : String) (version : Nat)
    (record : PublishRecord) (h : t.markPublished now id version = .ok (record, t')) :
    ∃ old, (Entries.find? id t).map Row.publish = some old ∧ record = old.stamp now ∧
      (Entries.find? id t').map Row.publish = some record := by
  rw [markPublished] at h
  -- The version has to be that of a stored row.
  cases hrow : Entries.find? id t with
  | none =>
      rw [hrow] at h
      exact absurd h (by simp only [reduceCtorEq, not_false_eq_true])
  | some row =>
      rw [hrow] at h
      cases hcheck : checkVersion id row.version (some version) with
      | error e =>
          simp only [hcheck, bind, Except.bind, reduceCtorEq] at h
      | ok _ =>
          simp only [hcheck, bind, Except.bind, pure, Except.pure, Except.ok.injEq,
            Prod.mk.injEq] at h
          refine ⟨row.publish, rfl, h.1.symm, ?_⟩
          rw [← h.2, Entries.find?_insert, if_pos rfl, Option.map_some, h.1]

end Table

namespace Store

theorem publishing?_of_load (s : Store) (id : String) (stored : StoredGraph)
    (h : s.load id = .ok stored) : stored.id = id ∧ s.publishing? id = some stored.publish := by
  cases s with
  | memory t => exact t.publish_of_load .inMemory id stored h
  | text t => exact t.publish_of_load .asText id stored h

theorem publishing?_of_markPublished (s s' : Store) (now : Instant) (id : String) (version : Nat)
    (record : PublishRecord) (h : s.markPublished now id version = .ok (record, s')) :
    ∃ old, s.publishing? id = some old ∧ record = old.stamp now ∧
      s'.publishing? id = some record := by
  cases s with
  | memory t | text t =>
      cases hmark : t.markPublished now id version with
      | error e =>
          simp only [markPublished, hmark, Except.map, reduceCtorEq] at h
      | ok marked =>
          simp only [markPublished, hmark, Except.map, Except.ok.injEq, Prod.mk.injEq] at h
          rw [← h.1, ← h.2]
          exact t.publish_of_markPublished marked.2 now id version marked.1 hmark

end Store

namespace Service

/-- What is admitted is stored under the id, and is not published. -/
theorem load_of_passGates (rules : PublishRules) (store : Store) (id : String)
    (stored : StoredGraph) (h : passGates rules store id = .ok stored) :
    store.load id = .ok stored ∧ stored.publish.published = false := by
  rw [passGates] at h
  cases hload : store.load id with
  | error e => simp only [hload, bind, Except.bind, reduceCtorEq] at h
  | ok found =>
      -- A published snapshot is refused before anything else is looked at.
      cases hpublished : found.publish.published with
      | true =>
          have hrefused : passGates rules store id = .error (.alreadyPublished id) :=
            passGates_published hload hpublished
          rw [passGates] at hrefused
          rw [hrefused] at h
          exact absurd h (by simp only [reduceCtorEq, not_false_eq_true])
      | false =>
          simp only [hload, hpublished, bind, Except.bind, Bool.false_eq_true, if_false, pure,
            Except.pure] at h
          split at h
          · exact absurd h (by simp only [reduceCtorEq, not_false_eq_true])
          · rw [Except.ok.injEq] at h
            rw [← h]
            exact ⟨rfl, hpublished⟩

/-- A published snapshot is not admitted, whether it can be loaded or not. -/
theorem passGates_of_published (rules : PublishRules) (store : Store) (id : String)
    (record : PublishRecord) (hrecord : store.publishing? id = some record)
    (hpublished : record.published = true) : ∃ e, passGates rules store id = .error e := by
  cases hgates : passGates rules store id with
  | error e => exact ⟨e, rfl⟩
  | ok stored =>
      rcases load_of_passGates rules store id stored hgates with ⟨hload, hnot⟩
      have hknown := (store.publishing?_of_load id stored hload).2
      rw [hrecord, Option.some.injEq] at hknown
      rw [hknown, hnot] at hpublished
      exact absurd hpublished Bool.false_ne_true

theorem publishing?_of_markPublished (w : World) (id : String) (version : Nat) :
    (∃ record, (markPublished w id version).1 = .ok record ∧
      ∃ old now, w.store.publishing? id = some old ∧
        (markPublished w id version).2.store.publishing? id = some (old.stamp now)) ∨
    (∃ e, (markPublished w id version).1 = .error e) ∧
      (markPublished w id version).2.store = w.store := by
  simp only [markPublished, World.readClock]
  split
  · rename_i e _
    exact Or.inr ⟨⟨e, rfl⟩, rfl⟩
  · rename_i record store hmark
    rcases w.store.publishing?_of_markPublished store _ id version record hmark with
      ⟨old, hold, hstamp, hnew⟩
    rw [hstamp] at hnew
    exact Or.inl ⟨record, rfl, old, _, hold, hnew⟩

/-- What the conclusion of a run does to it. -/
theorem publishing?_of_conclude (w : World) (stored : StoredGraph) (execution : Execution) :
    (∃ publication, (conclude w stored execution).1 = .ok publication ∧
      publication.record.isSome = true ∧ ∃ old now, w.store.publishing? stored.id = some old ∧
        (conclude w stored execution).2.store.publishing? stored.id = some (old.stamp now)) ∨
    ((∀ publication, (conclude w stored execution).1 = .ok publication →
      publication.record = none) ∧ (conclude w stored execution).2.store = w.store) := by
  rw [conclude]
  by_cases hcancelled : execution.result.status = .cancelled
  · rw [if_pos hcancelled]
    -- Nothing is recorded of a run that was cancelled.
    refine Or.inr ⟨fun publication h => ?_, rfl⟩
    rw [← Except.ok.inj h]
  · rw [if_neg hcancelled]
    rcases publishing?_of_markPublished w stored.id stored.version with
      ⟨record, hresult, hstamp⟩ | ⟨⟨e, hresult⟩, hstore⟩
    -- The record is written if the store accepts it, and the request fails if not.
    · refine Or.inl ⟨⟨some record, execution⟩, ?_, rfl, hstamp⟩
      exact congrArg (Except.map fun r => (⟨some r, execution⟩ : Publication)) hresult
    · refine Or.inr ⟨fun publication h => ?_, hstore⟩
      have hfailed := congrArg (Except.map fun r => (⟨some r, execution⟩ : Publication)) hresult
      exact absurd (hfailed.symm.trans h)
        (by simp only [Except.map, reduceCtorEq, not_false_eq_true])

end Service

/-- A client that was admitted, with the snapshot it saw. -/
structure Ticket (id : String) where
  client : Nat
  stored : StoredGraph
  named : stored.id = id

/-- The store that clients work on, and those of them that were admitted. -/
structure Desk (id : String) where
  world : World
  tickets : List (Ticket id) := []

/-- What clients ask for. -/
inductive Request
  /-- A snapshot is to be saved. -/
  | save (title : String) (graph : Graph) (expected : Option Nat)
  /-- A client begins to publish. -/
  | start (client : Nat)
  /-- The run of a client that was admitted is over. -/
  | conclude (client : Nat) (execution : Execution)
  /-- Everything but the store goes on, as it does during a run. -/
  | elapse (world : World)

/-- What clients get. -/
inductive Answer
  | saved (result : Except WorkflowError Nat)
  | admission (result : Except WorkflowError StoredGraph)
  | conclusion (result : Except WorkflowError Publication)
  | none

namespace Answer

/-- Whether a client learns that its publication was recorded. -/
def isRecord : Answer → Bool
  | conclusion (.ok publication) => publication.record.isSome
  | _ => false

end Answer

namespace Desk

variable {id : String}

/-- The ticket of a client. -/
def ticket? (d : Desk id) (client : Nat) : Option (Ticket id) :=
  d.tickets.find? fun t => t.client = client

/-- One request. -/
def serve (rules : PublishRules) (d : Desk id) : Request → Answer × Desk id
  | .save title graph expected =>
      let (result, world) := Service.save d.world id title graph expected
      (.saved result, { d with world := world })
  | .start client =>
      match h : Service.passGates rules d.world.store id with
      | .ok stored =>
          let named := (d.world.store.publishing?_of_load id stored
            (Service.load_of_passGates rules d.world.store id stored h).1).1
          (.admission (.ok stored), { d with tickets := ⟨client, stored, named⟩ :: d.tickets })
      | .error e => (.admission (.error e), d)
  | .conclude client execution =>
      match d.ticket? client with
      | some ticket =>
          let (result, world) := Service.conclude d.world ticket.stored execution
          (.conclusion result,
            { world := world, tickets := d.tickets.filter fun t => t.client ≠ client })
      | none => (.none, d)
  | .elapse world => (.none, { d with world := { world with store := d.world.store } })

/-- What is known of the publishing of the graph. -/
def publishing? (d : Desk id) : Option PublishRecord := d.world.store.publishing? id

/-- How often the graph was published. -/
def count (d : Desk id) : Nat := (d.publishing?.map PublishRecord.count).getD 0

/-- Requests among which no save changes the stored graph. -/
inductive Steady (rules : PublishRules) : Desk id → List (Request × Answer) → Desk id → Prop
  | nil (d : Desk id) : Steady rules d [] d
  | cons (d d' d'' : Desk id) (request : Request) (answer : Answer)
      (rest : List (Request × Answer)) (hserve : d.serve rules request = (answer, d'))
      (hsame : ∀ title graph expected, request = .save title graph expected →
        d'.world.store = d.world.store)
      (hrest : Steady rules d' rest d'') : Steady rules d ((request, answer) :: rest) d''

/-- What one request does to what is known of the publishing: a record that is
    given is counted, and nothing else changes it. -/
theorem serve_publishing (rules : PublishRules) (d d' : Desk id) (request : Request)
    (answer : Answer) (hserve : d.serve rules request = (answer, d'))
    (hsame : ∀ title graph expected, request = .save title graph expected →
      d'.world.store = d.world.store) :
    (answer.isRecord = true ∧ ∃ old now, d.publishing? = some old ∧
      d'.publishing? = some (old.stamp now)) ∨
    (answer.isRecord = false ∧ d'.publishing? = d.publishing?) := by
  cases request with
  | save title graph expected =>
      have hstore := hsame title graph expected rfl
      simp only [serve, Prod.mk.injEq] at hserve
      refine Or.inr ⟨?_, by rw [publishing?, publishing?, hstore]⟩
      rw [← hserve.1]
      rfl
  | start client =>
      rw [serve] at hserve
      split at hserve <;>
      · rw [Prod.mk.injEq] at hserve
        rw [← hserve.1, ← hserve.2]
        exact Or.inr ⟨rfl, rfl⟩
  | elapse world =>
      rw [serve, Prod.mk.injEq] at hserve
      rw [← hserve.1, ← hserve.2]
      exact Or.inr ⟨rfl, rfl⟩
  | conclude client execution =>
      rw [serve] at hserve
      cases hticket : d.ticket? client with
      | none =>
          rw [hticket, Prod.mk.injEq] at hserve
          rw [← hserve.1, ← hserve.2]
          exact Or.inr ⟨rfl, rfl⟩
      | some ticket =>
          simp only [hticket, Prod.mk.injEq] at hserve
          -- The ticket is one for this graph, so the conclusion is about it.
          have hconclude := Service.publishing?_of_conclude d.world ticket.stored execution
          simp only [ticket.named] at hconclude
          rw [← hserve.1, ← hserve.2]
          rcases hconclude with ⟨publication, hresult, hrecord, hstamp⟩ | ⟨hnone, hstore⟩
          · rw [hresult]
            exact Or.inl ⟨hrecord, hstamp⟩
          · refine Or.inr ⟨?_, congrArg (fun store => store.publishing? id) hstore⟩
            cases hresult : (Service.conclude d.world ticket.stored execution).1 with
            | error e => rfl
            | ok publication =>
                rw [Answer.isRecord, hnone publication hresult]
                rfl

theorem Steady.of_append {rules : PublishRules} (first second : List (Request × Answer))
    {d d'' : Desk id} (h : d.Steady rules (first ++ second) d'') :
    ∃ d', d.Steady rules first d' ∧ d'.Steady rules second d'' := by
  induction first generalizing d with
  | nil => exact ⟨d, .nil d, h⟩
  | cons entry rest ih =>
      rw [List.cons_append] at h
      cases h with
      | cons _ d₁ _ request answer _ hserve hsame hrest =>
          rcases ih hrest with ⟨d', hfirst, hsecond⟩
          exact ⟨d', .cons d d₁ d' request answer rest hserve hsame hfirst, hsecond⟩

/-- Every record that is given is counted, and no other publication is. -/
theorem Steady.count {rules : PublishRules} {d d' : Desk id} {trace : List (Request × Answer)}
    (h : d.Steady rules trace d') :
    d'.count = d.count + trace.countP fun entry => entry.2.isRecord := by
  induction h with
  | nil d => rfl
  | cons d d₁ d' request answer rest hserve hsame _ ih =>
      rw [ih, List.countP_cons]
      rcases serve_publishing rules d d₁ request answer hserve hsame with
        ⟨hrecord, old, now, hold, hnew⟩ | ⟨hnone, hkept⟩
      · rw [Desk.count, Desk.count, hold, hnew, if_pos hrecord]
        simp only [Option.map_some, Option.getD_some, PublishRecord.stamp]
        omega
      · rw [Desk.count, Desk.count, hkept, if_neg (by rw [hnone]; exact Bool.false_ne_true)]
        omega

/-- The graph is known to be published. -/
def Published (d : Desk id) : Prop :=
  ∃ record, d.publishing? = some record ∧ record.published = true

/-- Once a snapshot is published, nobody is admitted until a save changes it. -/
theorem Steady.refused {rules : PublishRules} {d d' : Desk id}
    {trace : List (Request × Answer)} (h : d.Steady rules trace d') (hpublished : d.Published) :
    d'.Published ∧ ∀ client answer, (.start client, answer) ∈ trace →
      ∃ e, answer = .admission (.error e) := by
  induction h with
  | nil d => exact ⟨hpublished, fun _ _ hmem => absurd hmem List.not_mem_nil⟩
  | cons d d₁ d' request answer rest hserve hsame _ ih =>
      -- A record only makes a snapshot published, and nothing takes that back.
      have hkept : d₁.Published := by
        rcases serve_publishing rules d d₁ request answer hserve hsame with
          ⟨_, old, now, _, hnew⟩ | ⟨_, hkept⟩
        · exact ⟨old.stamp now, hnew, rfl⟩
        · rw [Published, hkept]
          exact hpublished
      refine ⟨(ih hkept).1, fun client other hmem => ?_⟩
      rcases List.mem_cons.mp hmem with heq | hrest
      · rw [Prod.mk.injEq] at heq
        rw [← heq.1, serve] at hserve
        rcases hpublished with ⟨record, hrecord, hset⟩
        rcases Service.passGates_of_published rules d.world.store id record hrecord hset with
          ⟨e, hrefused⟩
        refine ⟨e, ?_⟩
        rw [heq.2]
        split at hserve
        · rename_i stored hgates
          rw [hrefused] at hgates
          exact absurd hgates (by simp only [reduceCtorEq, not_false_eq_true])
        · rename_i e' hgates
          rw [hrefused, Except.error.injEq] at hgates
          rw [hgates]
          exact (congrArg Prod.fst hserve).symm
      · exact (ih hkept).2 client other hrest

/-- A client was admitted and has not concluded. -/
def Holds (d : Desk id) (client : Nat) : Prop := ∃ t ∈ d.tickets, t.client = client

/-- A client that holds a ticket after a request held it before, or was just
    admitted. -/
theorem holds_of_serve (rules : PublishRules) (d d' : Desk id) (request : Request)
    (answer : Answer) (hserve : d.serve rules request = (answer, d')) (client : Nat)
    (h : d'.Holds client) :
    d.Holds client ∨ request = .start client ∧ ∃ stored, answer = .admission (.ok stored) := by
  cases request with
  | save title graph expected | elapse world =>
      rw [serve, Prod.mk.injEq] at hserve
      rw [← hserve.2] at h
      exact Or.inl h
  | start other =>
      rw [serve] at hserve
      split at hserve
      · rename_i stored hgates
        rw [Prod.mk.injEq] at hserve
        rw [← hserve.2] at h
        -- A ticket is given to who asks for it, and only if he is admitted.
        rcases h with ⟨t, ht, hclient⟩
        rcases List.mem_cons.mp ht with heq | hold
        · rw [heq] at hclient
          exact Or.inr ⟨congrArg Request.start hclient, stored, hserve.1.symm⟩
        · exact Or.inl ⟨t, hold, hclient⟩
      · rw [Prod.mk.injEq] at hserve
        rw [← hserve.2] at h
        exact Or.inl h
  | conclude other execution =>
      rw [serve] at hserve
      cases hticket : d.ticket? other with
      | none =>
          rw [hticket, Prod.mk.injEq] at hserve
          rw [← hserve.2] at h
          exact Or.inl h
      | some ticket =>
          simp only [hticket, Prod.mk.injEq] at hserve
          rw [← hserve.2] at h
          -- What is concluded gives a ticket back.
          rcases h with ⟨t, ht, hclient⟩
          exact Or.inl ⟨t, (List.mem_filter.mp ht).1, hclient⟩

theorem holds_of_record (rules : PublishRules) (d d' : Desk id) (client : Nat)
    (execution : Execution) (answer : Answer)
    (hserve : d.serve rules (.conclude client execution) = (answer, d'))
    (hrecord : answer.isRecord = true) : d.Holds client := by
  rw [serve] at hserve
  cases hticket : d.ticket? client with
  | none =>
      rw [hticket, Prod.mk.injEq] at hserve
      rw [← hserve.1] at hrecord
      exact absurd hrecord Bool.false_ne_true
  | some ticket =>
      rw [ticket?] at hticket
      have hfound := List.find?_some hticket
      exact ⟨ticket, List.mem_of_find?_eq_some hticket, of_decide_eq_true hfound⟩

/-- A client that holds a ticket held it at the beginning, or was admitted. -/
theorem Steady.holds {rules : PublishRules} {d d' : Desk id} {trace : List (Request × Answer)}
    (h : d.Steady rules trace d') (client : Nat) (hholds : d'.Holds client) :
    d.Holds client ∨ ∃ stored, (.start client, .admission (.ok stored)) ∈ trace := by
  induction h with
  | nil d => exact Or.inl hholds
  | cons d d₁ d' request answer rest hserve _ _ ih =>
      rcases ih hholds with hlater | ⟨stored, hmem⟩
      · rcases holds_of_serve rules d d₁ request answer hserve client hlater with
          hbefore | ⟨hrequest, stored, hanswer⟩
        · exact Or.inl hbefore
        · rw [hrequest, hanswer]
          exact Or.inr ⟨stored, List.mem_cons_self⟩
      · exact Or.inr ⟨stored, List.mem_cons_of_mem _ hmem⟩

/-- What a snapshot admits and counts while no save changes it. Publications
    are counted when they are recorded, and not otherwise. After the first record
    nobody is admitted any more, so another record goes to a client that was
    admitted before it. -/
theorem records_of_steady (rules : PublishRules) (d d' : Desk id)
    (trace : List (Request × Answer)) (h : d.Steady rules trace d') :
    d'.count = d.count + trace.countP (fun entry => entry.2.isRecord) ∧
    ∀ before client execution answer after,
      trace = before ++ (.conclude client execution, answer) :: after → answer.isRecord = true →
      (∀ other later, (.start other, later) ∈ after → ∃ e, later = .admission (.error e)) ∧
      ∀ other execution' later, (.conclude other execution', later) ∈ after →
        later.isRecord = true →
        d.Holds other ∨ ∃ stored, (.start other, .admission (.ok stored)) ∈ before := by
  refine ⟨h.count, ?_⟩
  intro before client execution answer after htrace hrecord
  rw [htrace] at h
  rcases h.of_append before with ⟨d₁, hbefore, hafter⟩
  cases hafter with
  | cons _ d₂ _ _ _ _ hserve hsame hrest =>
      have hpublished : d₂.Published := by
        rcases serve_publishing rules d₁ d₂ _ answer hserve hsame with
          ⟨_, old, now, _, hnew⟩ | ⟨hnone, _⟩
        · exact ⟨old.stamp now, hnew, rfl⟩
        · exact absurd (hnone.symm.trans hrecord) Bool.false_ne_true
      refine ⟨(hrest.refused hpublished).2, ?_⟩
      -- The client of a later record held its ticket at the first one: nobody was admitted in
      -- between.
      intro other execution' later hmem hlater
      rcases List.append_of_mem hmem with ⟨middle, last, heq⟩
      rw [heq] at hrest
      rcases hrest.of_append middle with ⟨d₃, hmiddle, hlast⟩
      cases hlast with
      | cons _ d₄ _ _ _ _ hserve' _ _ =>
          have hholds := holds_of_record rules d₃ d₄ other execution' later hserve' hlater
          rcases hmiddle.holds other hholds with hnow | ⟨stored, hadmitted⟩
          · rcases holds_of_serve rules d₁ d₂ _ answer hserve other hnow with
              hearlier | ⟨hrequest, _⟩
            · exact hbefore.holds other hearlier
            · exact absurd hrequest nofun
          · rcases (hmiddle.refused hpublished).2 other _ hadmitted with ⟨e, he⟩
            exact absurd he nofun

/-- Requests served one after the other. -/
def serveAll (rules : PublishRules) (d : Desk id) : List Request → List (Request × Answer) × Desk id
  | [] => ([], d)
  | request :: rest =>
      let (answer, d) := d.serve rules request
      let (trace, d) := serveAll rules d rest
      ((request, answer) :: trace, d)

theorem steady_serveAll (rules : PublishRules) (d : Desk id) (requests : List Request)
    (h : ∀ title graph expected, .save title graph expected ∉ requests) :
    d.Steady rules (d.serveAll rules requests).1 (d.serveAll rules requests).2 := by
  induction requests generalizing d with
  | nil => exact .nil d
  | cons request rest ih =>
      refine .cons d (d.serve rules request).2 _ request (d.serve rules request).1 _ rfl ?_
        (ih _ ?_)
      · intro title graph expected hrequest
        rw [hrequest] at h
        exact absurd List.mem_cons_self (h title graph expected)
      · exact fun title graph expected hmem => h title graph expected (List.mem_cons_of_mem _ hmem)

end Desk

/-- A graph of one step. -/
def oneStep : Graph := ⟨[Node.new "a" .trigger], []⟩

/-- Where the graph was saved. -/
def shelf : Desk "g" := ⟨(Service.save {} "g" "t" oneStep none).2, []⟩

/-- A run of the graph by a service that knows no handlers. -/
def bareRun : Execution :=
  match ((default : Engine).execute { run := "r", graphId := "g" } oneStep shelf.world).1 with
  | .ok execution => execution
  | .error _ => default

/-- Two clients are admitted before either concludes. -/
def overlapping : List Request :=
  [.start 1, .start 2, .conclude 1 bareRun, .conclude 2 bareRun]

/-- The version on a ticket does not say whether the snapshot was published
    meanwhile: two overlapping publications of one snapshot are both recorded. -/
theorem two_records_of_one_snapshot :
    ¬ ∀ (id : String) (rules : PublishRules) (d d' : Desk id) (trace : List (Request × Answer)),
      d.Steady rules trace d' →
        (trace.countP fun entry => entry.2.isRecord) ≤ 1 ∧ d'.count ≤ d.count + 1 := by
  intro hclaim
  have hsteady := shelf.steady_serveAll {} overlapping (by
    simp only [overlapping, List.mem_cons, reduceCtorEq, List.not_mem_nil, or_self,
      not_false_eq_true, implies_true])
  have htwo : ((shelf.serveAll {} overlapping).1.countP fun entry => entry.2.isRecord) = 2 := by
    decide +kernel
  have hone := (hclaim "g" {} shelf _ _ hsteady).1
  omega

/-- One client publishes after the other. -/
def consecutive : List Request :=
  [.start 1, .conclude 1 bareRun, .start 2, .conclude 2 bareRun]

theorem records_of_steady_consecutive :
    (shelf.serveAll {} consecutive).2.count = 1 ∧
    ∀ other later, (.start other, later) ∈ (shelf.serveAll {} consecutive).1.drop 2 →
      ∃ e, later = .admission (.error e) := by
  have hsteady := shelf.steady_serveAll {} consecutive (by
    simp only [consecutive, List.mem_cons, reduceCtorEq, List.not_mem_nil, or_self,
      not_false_eq_true, implies_true])
  have h := Desk.records_of_steady {} shelf _ _ hsteady
  constructor
  · rw [h.1]
    decide +kernel
  · exact (h.2 ((shelf.serveAll {} consecutive).1.take 1) 1 bareRun
      ((shelf.serve {} (.start 1)).2.serve {} (.conclude 1 bareRun)).1
      ((shelf.serveAll {} consecutive).1.drop 2) rfl (by decide +kernel)).1

end Workflow
