import Mathlib.Data.List.Induction
import Workflow.Store.Table

/-!
# What a Store Does

A store keeps graphs or texts, but what can be asked of it is the same for
both. Here both are looked at through one window, `row?`: what is stored under
an id, with the graph that loading it would give. Loading is reading that
window, and every change is a change of one row.

The three operations that change something check before they do. What can come
of the checks and the change is said once for each (`Saves`, `Marks` and
`row?_delete`), and nothing later opens an operation again. A save may be
refused because of its version; it may find the snapshot it brings; or it
replaces the row, with the next version and a record that is out of date.

A history of a store is a list of timed operations, and its `turns` are the
operations with the stores they found.

## Main definitions

* `Store.row?`: What is stored under an id.
* `Store.versionOf`, `Store.publishOf`: The version and the record under an id.
* `Store.holds`: A snapshot is the one that is stored, as the store compares.
* `Store.Saves`, `Store.Marks`: What a save and a publication come to.
* `Row.content`: What of a row only a save changes.
* `Store.SameAt`: Two stores keep the same under an id.
* `Operation`, `Response`, `Store.perform`: What is asked of a store.
* `Turn`, `Store.turns`, `Store.after`: Operations one after another.

## Theorems

* `load_eq`: Loading is reading a row.
* `saves`, `marks`: What a save and a publication come to.
* `content_of_save_text`, `load_of_content`: What is stored and what is loaded
  when a save has answered.
* `row?_renew`, `row?_stamp`, `row?_delete`: What is stored after a change.
* `forall_stamp`, `forall_delete`: What all rows have in common after a change.
* `sameAt_perform`: An operation touches no id but its own.
* `perform_refused`: What is refused changes nothing.
* `turn_induction`: What every operation keeps is kept by all of them.
-/

namespace Workflow

namespace Entries

variable {β : Type}

/-- What is found after a key was removed. -/
theorem find?_erase (key other : String) (entries : Entries β) :
    find? other (erase key entries) = if key = other then none else find? other entries := by
  induction entries with
  | nil => simp only [erase, List.filter_nil, find?, ite_self]
  | cons entry rest ih =>
      rw [erase] at ih
      rw [erase, List.filter_cons]
      by_cases hkey : entry.1 = key
      -- The entry goes, so it matters only whether its key was asked for.
      · rw [if_neg (by simp only [hkey, ne_eq, not_true_eq_false, decide_false,
          Bool.false_eq_true, not_false_eq_true]), ih, find?, hkey]
        by_cases hother : key = other
        · rw [if_pos hother, if_pos hother]
        · rw [if_neg hother, if_neg hother, if_neg hother]
      · rw [if_pos (by simp only [hkey, ne_eq, not_false_eq_true, decide_true]), find?, find?, ih]
        by_cases hother : entry.1 = other
        · have hne : ¬ key = other := fun h => hkey (hother.trans h.symm)
          rw [if_pos hother, if_neg hne, if_pos hother]
        · rw [if_neg hother, if_neg hother]

end Entries

namespace Row

variable {β : Type}

/-- A row with the graph that loading it would give. -/
def opened (f : Format β) (row : Row β) : Row (Option Graph) :=
  ⟨row.title, f.recover row.body, row.nodes, row.edges, row.version, row.publish, row.updatedAt⟩

/-- What of a row only a save changes. -/
def content (row : Row (Option Graph)) : String × Option Graph × Nat :=
  (row.title, row.body, row.version)

end Row

namespace Table

variable {β : Type}

/-- What is stored under an id, with the graph that loading it would give. -/
def row? (f : Format β) (t : Table β) (id : String) : Option (Row (Option Graph)) :=
  (Entries.find? id t).map (Row.opened f)

/-- A snapshot is the one that is stored under an id. -/
def holds (f : Format β) (t : Table β) (id title : String) (graph : Graph) : Bool :=
  match Entries.find? id t with
  | some row => f.same row.body (f.keep graph) && row.title == title
  | none => false

/-- What is stored of a snapshot that replaces what was stored before. -/
def renewed (f : Format β) (t : Table β) (now : Instant) (id title : String) (graph : Graph) :
    Row β where
  title := title
  body := f.keep graph
  nodes := graph.nodes.length
  edges := graph.edges.length
  version := versionOf t id + 1
  publish := match Entries.find? id t with
    | some row => row.publish.outdate
    | none => {}
  updatedAt := now

/-- The table when a snapshot has replaced what was stored. -/
def renew (f : Format β) (t : Table β) (now : Instant) (id title : String) (graph : Graph) :
    Table β :=
  Entries.insert id (t.renewed f now id title graph) t

/-- The table when what is stored under an id was published. -/
def stamp (t : Table β) (now : Instant) (id : String) : Table β :=
  match Entries.find? id t with
  | none => t
  | some row => Entries.insert id { row with publish := row.publish.stamp now } t

/-- A save is refused, or finds its snapshot, or replaces the row. -/
theorem save_eq (f : Format β) (t : Table β) (now : Instant) (id title : String) (graph : Graph)
    (expected : Option Nat) : t.save f now id title graph expected =
      (checkVersion id (versionOf t id) expected).bind fun _ =>
        if t.holds f id title graph then .ok (versionOf t id, t)
        else .ok (versionOf t id + 1, t.renew f now id title graph) := by
  rw [save]
  cases checkVersion id (versionOf t id) expected with
  | error e => rfl
  | ok _ =>
      rw [holds]
      cases hrow : Entries.find? id t with
      | none => simp only [bind, Except.bind, pure, Except.pure, renew, renewed, hrow]
      | some row => simp only [bind, Except.bind, pure, Except.pure, renew, renewed, hrow]

/-- The record of a publication is refused without a row and for another
    version; otherwise the row is stamped. -/
theorem markPublished_eq (t : Table β) (now : Instant) (id : String) (version : Nat) :
    t.markPublished now id version =
      match Entries.find? id t with
      | none => .error (.graphNotFound id)
      | some row =>
          (checkVersion id row.version (some version)).map fun _ =>
            (row.publish.stamp now, t.stamp now id) := by
  rw [markPublished, stamp]
  cases Entries.find? id t with
  | none => rfl
  | some row =>
      simp only
      cases checkVersion id row.version (some version) <;> rfl

/-- What is loaded is what the row says. -/
theorem load_eq (f : Format β) (t : Table β) (id : String) : t.load f id =
    match t.row? f id with
    | none => .error (.graphNotFound id)
    | some row =>
        match row.body with
        | none => .error (.malformed "stored graph cannot be read")
        | some graph => .ok ⟨id, row.title, graph, row.version, row.publish, row.updatedAt⟩ := by
  rw [load, row?]
  cases Entries.find? id t <;> rfl

theorem versionOf_eq (f : Format β) (t : Table β) (id : String) :
    t.versionOf id = ((t.row? f id).map Row.version).getD 0 := by
  rw [versionOf, row?]
  cases Entries.find? id t <;> rfl

/-- A snapshot that replaces a row is stored under its id, with the next
    version and the old record out of date. -/
theorem row?_renew (f : Format β) (t : Table β) (now : Instant) (id title : String)
    (graph : Graph) (other : String) : (t.renew f now id title graph).row? f other =
      if id = other then some {
        title := title
        body := f.recover (f.keep graph)
        nodes := graph.nodes.length
        edges := graph.edges.length
        version := versionOf t id + 1
        publish := (((t.row? f id).map Row.publish).getD {}).outdate
        updatedAt := now }
      else t.row? f other := by
  rw [row?, renew, Entries.find?_insert]
  by_cases hother : id = other
  · rw [if_pos hother, if_pos hother, Option.map_some, row?]
    cases hrow : Entries.find? id t with
    | none => simp only [Row.opened, renewed, hrow, Option.map_none, Option.getD_none,
        PublishRecord.outdate]
    | some row => simp only [Row.opened, renewed, hrow, Option.map_some, Option.getD_some]
  · rw [if_neg hother, if_neg hother, row?]

/-- A publication changes the record of a row and nothing else. -/
theorem row?_stamp (f : Format β) (t : Table β) (now : Instant) (id other : String) :
    (t.stamp now id).row? f other =
      if id = other then
        (t.row? f id).map fun row => { row with publish := row.publish.stamp now }
      else t.row? f other := by
  rw [row?, stamp]
  cases hrow : Entries.find? id t with
  | none =>
      by_cases hother : id = other
      · rw [if_pos hother, ← hother, row?, hrow, Option.map_none, Option.map_none]
      · rw [if_neg hother, row?]
  | some row =>
      simp only
      rw [Entries.find?_insert]
      by_cases hother : id = other
      · rw [if_pos hother, if_pos hother, row?, hrow, Option.map_some, Option.map_some,
          Option.map_some, Row.opened, Row.opened]
      · rw [if_neg hother, if_neg hother, row?]

/-- What all rows have in common, they have in common after a publication, when a
    row keeps it that is stamped. -/
theorem forall_stamp {p : String × Row β → Prop} {t : Table β} (h : ∀ entry ∈ t, p entry)
    (now : Instant) (id : String)
    (hstamp : ∀ row, p (id, row) → p (id, { row with publish := row.publish.stamp now })) :
    ∀ entry ∈ t.stamp now id, p entry := by
  rw [stamp]
  cases hrow : Entries.find? id t with
  | none => exact h
  | some row =>
      exact Entries.forall_insert h (hstamp row (h (id, row) (Entries.mem_of_find? hrow)))

theorem forall_delete {p : String × Row β → Prop} {t : Table β} (h : ∀ entry ∈ t, p entry)
    (id : String) : ∀ entry ∈ (t.delete id).2, p entry :=
  fun entry hentry => h entry (List.mem_filter.mp hentry).1

theorem row?_erase (f : Format β) (t : Table β) (id other : String) :
    Table.row? f (Entries.erase id t) other = if id = other then none else t.row? f other := by
  rw [row?, row?, Entries.find?_erase]
  by_cases hother : id = other
  · rw [if_pos hother, if_pos hother, Option.map_none]
  · rw [if_neg hother, if_neg hother]

end Table

/-- A version is the expected one, or it is said which one it is. -/
theorem checkVersion_cases (id : String) (current : Nat) (expected : Option Nat) :
    (∃ v, expected = some v ∧ v ≠ current ∧
      checkVersion id current expected = .error (.conflict id v current)) ∨
    (∀ v, expected = some v → v = current) ∧ checkVersion id current expected = .ok () := by
  cases expected with
  | none => exact Or.inr ⟨nofun, rfl⟩
  | some v =>
      rw [checkVersion]
      by_cases hv : v = current
      · rw [if_pos hv]
        exact Or.inr ⟨fun _ h => (Option.some.inj h).symm.trans hv, rfl⟩
      · rw [if_neg hv]
        exact Or.inl ⟨v, rfl, hv, rfl⟩

namespace Store

/-- What is stored under an id, with the graph that loading it would give. -/
def row? (s : Store) (id : String) : Option (Row (Option Graph)) :=
  match s with
  | memory t => t.row? .inMemory id
  | text t => t.row? .asText id

/-- The version that is stored under an id; of an id that is not there, zero. -/
def versionOf (s : Store) (id : String) : Nat :=
  match s with
  | memory t => t.versionOf id
  | text t => t.versionOf id

/-- What is known of the publishing of an id; of an id that is not there,
    nothing. -/
def publishOf (s : Store) (id : String) : PublishRecord := ((s.row? id).map Row.publish).getD {}

/-- A snapshot is the one that is stored under an id, as the store compares
    them. -/
def holds (s : Store) (id title : String) (graph : Graph) : Bool :=
  match s with
  | memory t => t.holds .inMemory id title graph
  | text t => t.holds .asText id title graph

/-- The graph that loading gives when a graph was saved. -/
def recovered (s : Store) (graph : Graph) : Option Graph :=
  match s with
  | memory _ => some graph
  | text _ => Graph.ofText? graph.toJson.compact

/-- The store when a snapshot has replaced what was stored. -/
def renew (s : Store) (now : Instant) (id title : String) (graph : Graph) : Store :=
  match s with
  | memory t => memory (t.renew .inMemory now id title graph)
  | text t => text (t.renew .asText now id title graph)

/-- The store when what is stored under an id was published. -/
def stamp (s : Store) (now : Instant) (id : String) : Store :=
  match s with
  | memory t => memory (t.stamp now id)
  | text t => text (t.stamp now id)

/-- Loading is reading a row. -/
theorem load_eq (s : Store) (id : String) : s.load id =
    match s.row? id with
    | none => .error (.graphNotFound id)
    | some row =>
        match row.body with
        | none => .error (.malformed "stored graph cannot be read")
        | some graph => .ok ⟨id, row.title, graph, row.version, row.publish, row.updatedAt⟩ := by
  cases s with
  | memory t => exact t.load_eq .inMemory id
  | text t => exact t.load_eq .asText id

/-- The version of an id is the version of its row. -/
theorem versionOf_eq (s : Store) (id : String) :
    s.versionOf id = ((s.row? id).map Row.version).getD 0 := by
  cases s with
  | memory t => exact t.versionOf_eq .inMemory id
  | text t => exact t.versionOf_eq .asText id

/-- What is stored when a snapshot has replaced a row. -/
theorem row?_renew (s : Store) (now : Instant) (id title : String) (graph : Graph)
    (other : String) : (s.renew now id title graph).row? other =
      if id = other then some {
        title := title
        body := s.recovered graph
        nodes := graph.nodes.length
        edges := graph.edges.length
        version := s.versionOf id + 1
        publish := (s.publishOf id).outdate
        updatedAt := now }
      else s.row? other := by
  cases s with
  | memory t => exact t.row?_renew .inMemory now id title graph other
  | text t => exact t.row?_renew .asText now id title graph other

/-- What is stored when what is stored under an id was published. -/
theorem row?_stamp (s : Store) (now : Instant) (id other : String) :
    (s.stamp now id).row? other =
      if id = other then
        (s.row? id).map fun row => { row with publish := row.publish.stamp now }
      else s.row? other := by
  cases s with
  | memory t => exact t.row?_stamp .inMemory now id other
  | text t => exact t.row?_stamp .asText now id other

/-- What is stored after a graph was deleted. -/
theorem row?_delete (s : Store) (id other : String) :
    (s.delete id).2.row? other = if id = other then none else s.row? other := by
  cases s with
  | memory t => exact t.row?_erase .inMemory id other
  | text t => exact t.row?_erase .asText id other

/-- What a save comes to. -/
inductive Saves (s : Store) (now : Instant) (id title : String) (graph : Graph)
    (expected : Option Nat) : Except WorkflowError (Nat × Store) → Prop
  /-- It was made from another version. -/
  | refused (v : Nat) (hexpected : expected = some v) (hother : v ≠ s.versionOf id) :
      Saves s now id title graph expected (.error (.conflict id v (s.versionOf id)))
  /-- Its snapshot is stored already. -/
  | unchanged (hversion : ∀ v, expected = some v → v = s.versionOf id)
      (hholds : s.holds id title graph = true) :
      Saves s now id title graph expected (.ok (s.versionOf id, s))
  /-- Its snapshot replaces what was stored. -/
  | changed (hversion : ∀ v, expected = some v → v = s.versionOf id)
      (hholds : s.holds id title graph = false) :
      Saves s now id title graph expected (.ok (s.versionOf id + 1, s.renew now id title graph))

/-- What the record of a publication comes to. -/
inductive Marks (s : Store) (now : Instant) (id : String) (version : Nat) :
    Except WorkflowError (PublishRecord × Store) → Prop
  /-- There is nothing to publish. -/
  | unknown (hrow : s.row? id = none) : Marks s now id version (.error (.graphNotFound id))
  /-- What is stored is another version. -/
  | outdated (row : Row (Option Graph)) (hrow : s.row? id = some row)
      (hother : version ≠ row.version) :
      Marks s now id version (.error (.conflict id version row.version))
  /-- It is recorded. -/
  | recorded (row : Row (Option Graph)) (hrow : s.row? id = some row)
      (hversion : version = row.version) :
      Marks s now id version (.ok (row.publish.stamp now, s.stamp now id))

/-- A save is refused, or finds its snapshot, or replaces the row. -/
theorem save_eq (s : Store) (now : Instant) (id title : String) (graph : Graph)
    (expected : Option Nat) : s.save now id title graph expected =
      (checkVersion id (s.versionOf id) expected).bind fun _ =>
        if s.holds id title graph then .ok (s.versionOf id, s)
        else .ok (s.versionOf id + 1, s.renew now id title graph) := by
  cases s with
  | memory t | text t =>
      rw [save, Table.save_eq, versionOf, holds]
      cases checkVersion id (t.versionOf id) expected with
      | error e => rfl
      | ok _ =>
          simp only [Except.bind]
          split <;> rfl

/-- The record of a publication is refused without a row and for another
    version; otherwise the row is stamped. -/
theorem markPublished_eq (s : Store) (now : Instant) (id : String) (version : Nat) :
    s.markPublished now id version =
      match s.row? id with
      | none => .error (.graphNotFound id)
      | some row =>
          (checkVersion id row.version (some version)).map fun _ =>
            (row.publish.stamp now, s.stamp now id) := by
  cases s with
  | memory t | text t =>
      rw [markPublished, Table.markPublished_eq, row?, Table.row?]
      cases Entries.find? id t with
      | none => rfl
      | some row =>
          simp only [Option.map_some, Row.opened]
          cases checkVersion id row.version (some version) <;> rfl

/-- What a save comes to. -/
theorem saves (s : Store) (now : Instant) (id title : String) (graph : Graph)
    (expected : Option Nat) :
    s.Saves now id title graph expected (s.save now id title graph expected) := by
  rw [save_eq]
  rcases checkVersion_cases id (s.versionOf id) expected with
    ⟨v, hexpected, hother, hcheck⟩ | ⟨hversion, hcheck⟩
  · rw [hcheck]
    exact .refused v hexpected hother
  · rw [hcheck, Except.bind]
    by_cases hholds : s.holds id title graph = true
    · rw [if_pos hholds]
      exact .unchanged hversion hholds
    · rw [if_neg hholds]
      exact .changed hversion ((Bool.not_eq_true _).mp hholds)

/-- What the record of a publication comes to. -/
theorem marks (s : Store) (now : Instant) (id : String) (version : Nat) :
    s.Marks now id version (s.markPublished now id version) := by
  rw [markPublished_eq]
  cases hrow : s.row? id with
  | none => exact .unknown hrow
  | some row =>
      simp only
      rcases checkVersion_cases id row.version (some version) with
        ⟨v, hv, hother, hcheck⟩ | ⟨hversion, hcheck⟩
      · rw [hcheck]
        have hv' : version = v := Option.some.inj hv
        rw [← hv'] at hother ⊢
        exact .outdated row hrow hother
      · rw [hcheck]
        exact .recorded row hrow (hversion version rfl)

/-- What is stored under an id when a save has answered, in a store that keeps
    texts. -/
theorem content_of_save_text (t : Table String) (now : Instant) (id title : String) (g : Graph)
    (expected : Option Nat) (version : Nat) (s : Store)
    (h : (text t).save now id title g expected = .ok (version, s)) :
    (s.row? id).map Row.content = some (title, Graph.ofText? g.toJson.compact, version) := by
  -- A save that was not refused has either found this text or written it.
  have hsaves := (text t).saves now id title g expected
  rw [h] at hsaves
  cases hsaves with
  | unchanged _ hholds =>
      -- What is stored is the text of the graph, since texts are compared.
      rw [holds, Table.holds] at hholds
      rw [row?, Table.row?, versionOf, Table.versionOf]
      cases hrow : Entries.find? id t with
      | none =>
          rw [hrow] at hholds
          exact absurd hholds Bool.false_ne_true
      | some row =>
          rw [hrow] at hholds
          simp only [Bool.and_eq_true, beq_iff_eq, Format.asText] at hholds
          simp only [Option.map_some, Row.content, Row.opened, Format.asText, hholds.1, hholds.2]
  | changed =>
      rw [row?_renew, if_pos rfl]
      rfl

/-- What is loaded is what is stored, if it can be read. -/
theorem load_of_content (s : Store) (id title : String) (version : Nat) (body : Option Graph)
    (h : (s.row? id).map Row.content = some (title, body, version)) :
    (∀ graph, body = some graph → ∃ stored, s.load id = .ok stored ∧ stored.graph = graph ∧
        stored.title = title ∧ stored.version = version) ∧
      (body = none → s.load id = .error (.malformed "stored graph cannot be read")) := by
  rcases Option.map_eq_some_iff.mp h with ⟨row, hrow, hcontent⟩
  simp only [Row.content, Prod.mk.injEq] at hcontent
  rcases hcontent with ⟨htitle, hbody, hversion⟩
  rw [load_eq, hrow]
  constructor
  · rintro graph rfl
    simp only [hbody]
    exact ⟨_, rfl, rfl, htitle, hversion⟩
  · rintro rfl
    simp only [hbody]

/-- Two stores of one kind keep the same under an id. -/
def SameAt (s s' : Store) (id : String) : Prop :=
  match s, s' with
  | memory t, memory t' => Entries.find? id t' = Entries.find? id t
  | text t, text t' => Entries.find? id t' = Entries.find? id t
  | _, _ => False

theorem SameAt.refl (s : Store) (id : String) : s.SameAt s id := by
  cases s <;> rfl

/-- What is kept alike is stored alike. -/
theorem SameAt.row?_eq {s s' : Store} {id : String} (h : s.SameAt s' id) :
    s'.row? id = s.row? id := by
  cases s <;> cases s' <;> simp only [SameAt] at h <;>
    simp only [row?, Table.row?, h]

/-- Replacing a row touches no other id. -/
theorem sameAt_renew (s : Store) (now : Instant) (id title : String) (graph : Graph)
    {other : String} (hother : id ≠ other) : s.SameAt (s.renew now id title graph) other := by
  cases s with
  | memory t | text t => exact (Entries.find?_insert id other _ t).trans (if_neg hother)

/-- Recording a publication touches no other id. -/
theorem sameAt_stamp (s : Store) (now : Instant) (id : String) {other : String}
    (hother : id ≠ other) : s.SameAt (s.stamp now id) other := by
  cases s with
  | memory t | text t =>
      simp only [SameAt, stamp, Table.stamp]
      cases Entries.find? id t with
      | none => rfl
      | some row => exact (Entries.find?_insert id other _ t).trans (if_neg hother)

/-- Deleting touches no other id. -/
theorem sameAt_delete (s : Store) {id other : String} (hother : id ≠ other) :
    s.SameAt (s.delete id).2 other := by
  cases s with
  | memory t | text t => exact (Entries.find?_erase id other t).trans (if_neg hother)

end Store

/-- What can be asked of a store. -/
inductive Operation
  | load (id : String)
  | save (id title : String) (graph : Graph) (expected : Option Nat)
  | list
  | delete (id : String)
  | markPublished (id : String) (version : Nat)

/-- The id that an operation is on. -/
def Operation.id? : Operation → Option String
  | load id => some id
  | save id _ _ _ => some id
  | list => none
  | delete id => some id
  | markPublished id _ => some id

/-- What a store answers. -/
inductive Response
  | loaded (stored : StoredGraph)
  | saved (version : Nat)
  | listed (lines : List Summary)
  | deleted (found : Bool)
  | recorded (record : PublishRecord)
  | refused (error : WorkflowError)
deriving DecidableEq, Repr

/-- The operation was done. -/
def Response.done : Response → Bool
  | refused _ => false
  | _ => true

namespace Store

/-- A store answers, and is another one then. -/
def perform (s : Store) (now : Instant) : Operation → Response × Store
  | .load id =>
      match s.load id with
      | .ok stored => (.loaded stored, s)
      | .error e => (.refused e, s)
  | .save id title graph expected =>
      match s.save now id title graph expected with
      | .ok (version, s') => (.saved version, s')
      | .error e => (.refused e, s)
  | .list => (.listed s.list, s)
  | .delete id => (.deleted (s.delete id).1, (s.delete id).2)
  | .markPublished id version =>
      match s.markPublished now id version with
      | .ok (record, s') => (.recorded record, s')
      | .error e => (.refused e, s)

end Store

/-- An operation, and the store that it finds. -/
structure Turn where
  before : Store
  now : Instant
  operation : Operation

namespace Turn

/-- What the store answers. -/
def answer (t : Turn) : Response := (t.before.perform t.now t.operation).1

/-- The store that the operation leaves. -/
def after (t : Turn) : Store := (t.before.perform t.now t.operation).2

end Turn

namespace Store

/-- Operations one after another. -/
def turns (s : Store) : List (Instant × Operation) → List Turn
  | [] => []
  | (now, operation) :: rest => ⟨s, now, operation⟩ :: (s.perform now operation).2.turns rest

/-- The store that operations leave. -/
def after (s : Store) : List (Instant × Operation) → Store
  | [] => s
  | (now, operation) :: rest => (s.perform now operation).2.after rest

theorem turns_append (s : Store) (first last : List (Instant × Operation)) :
    s.turns (first ++ last) = s.turns first ++ (s.after first).turns last := by
  induction first generalizing s with
  | nil => rfl
  | cons entry rest ih => rw [List.cons_append, turns, turns, ih, after, List.cons_append]

theorem after_append (s : Store) (first last : List (Instant × Operation)) :
    s.after (first ++ last) = (s.after first).after last := by
  induction first generalizing s with
  | nil => rfl
  | cons entry rest ih => rw [List.cons_append, after, ih, after]

/-- What holds at the start and is kept by every operation of a history holds
    of its turns and of the store that they leave. -/
theorem turn_induction (Inv : List Turn → Store → Prop) (s : Store)
    (ops : List (Instant × Operation)) (start : Inv [] s)
    (step : ∀ (past : List Turn) (turn : Turn), (turn.now, turn.operation) ∈ ops →
      Inv past turn.before → Inv (past ++ [turn]) turn.after) :
    Inv (s.turns ops) (s.after ops) := by
  induction ops using List.reverseRecOn with
  | nil => exact start
  | append_singleton first entry ih =>
      rw [turns_append, after_append]
      refine step (s.turns first) ⟨s.after first, entry.1, entry.2⟩
        (List.mem_append_right _ List.mem_cons_self) ?_
      exact ih fun past turn hturn => step past turn (List.mem_append_left _ hturn)

/-- What is refused changes nothing. -/
theorem perform_refused (s : Store) (now : Instant) (operation : Operation)
    (h : (s.perform now operation).1.done = false) : (s.perform now operation).2 = s := by
  cases operation with
  | load id =>
      rw [perform]
      cases s.load id <;> rfl
  | save id title graph expected =>
      rw [perform] at h ⊢
      cases hsave : s.save now id title graph expected with
      | ok r => exact absurd (hsave ▸ h) (by simp only [Response.done, Bool.true_eq_false,
          not_false_eq_true])
      | error e => rfl
  | list => rfl
  | delete id => exact absurd h (by simp only [perform, Response.done, Bool.true_eq_false,
      not_false_eq_true])
  | markPublished id version =>
      rw [perform] at h ⊢
      cases hmark : s.markPublished now id version with
      | ok r => exact absurd (hmark ▸ h) (by simp only [Response.done, Bool.true_eq_false,
          not_false_eq_true])
      | error e => rfl

/-- An operation touches no id but its own. -/
theorem sameAt_perform (s : Store) (now : Instant) (operation : Operation) {other : String}
    (hother : operation.id? ≠ some other) : s.SameAt (s.perform now operation).2 other := by
  cases operation with
  | load id =>
      rw [perform]
      cases s.load id <;> exact SameAt.refl s other
  | save id title graph expected =>
      have hne : id ≠ other := fun h => hother (congrArg some h)
      have hsaves := s.saves now id title graph expected
      rw [perform]
      revert hsaves
      rcases s.save now id title graph expected with e | ⟨version, s'⟩
      -- What is refused leaves everything, and so does a snapshot that is there already.
      · exact fun _ => SameAt.refl s other
      · rintro (_ | _ | _)
        · exact SameAt.refl s other
        · exact s.sameAt_renew now id title graph hne
  | list => exact SameAt.refl s other
  | delete id => exact s.sameAt_delete fun h => hother (congrArg some h)
  | markPublished id version =>
      have hne : id ≠ other := fun h => hother (congrArg some h)
      have hmarks := s.marks now id version
      rw [perform]
      revert hmarks
      rcases s.markPublished now id version with e | ⟨record, s'⟩
      -- What is refused leaves everything.
      · exact fun _ => SameAt.refl s other
      · rintro (_ | _ | _)
        exact s.sameAt_stamp now id hne

end Store

end Workflow
