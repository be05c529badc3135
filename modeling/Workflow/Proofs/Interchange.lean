import Workflow.Proofs.Sameness
import Workflow.Proofs.Storing

/-!
# One Store for the Other

What is asked of a store in memory and of one that keeps texts, from the start
on, and when the two give the same answers.

The text of a table in memory is a table of texts (`Table.written`), and every
operation on the one is matched by the operation on the other. What one store
loads as it is, the other reads from a text, so the graphs must be such as are
found again in their texts; graphs that were accepted are. And one store
compares graphs, the other texts. Texts are the same only for the same graphs,
but graphs are also taken for the same when they differ in the sign of a zero.
A save that brings a graph like that (`Turn.blurs`) changes nothing in memory,
and makes a new version where texts are kept.

Listing is done in two ways as well: one store counts the nodes and edges of its
graphs, and the other one has noted their numbers. The lines are the same because
every number was noted when its graph was saved (`Row.Counted`).

That is the only difference (`answers_agree_iff`), and there is one
(`answers_differ`).

## Main definitions

* `Row.Counted`: What was noted of a graph is what can be counted in it.
* `Table.written`: The table of the texts of the graphs in a table.
* `Table.All`: A property of all graphs in a table, whose numbers were noted.
* `Operation.graph?`, `Operation.graphs`: The graphs that operations bring.
* `Turn.blurs`: A save finds its snapshot, but it is not the same graph.

## Theorems

* `Graph.same_self`: A graph is the same as itself.
* `row?_written`, `renew_written`, `stamp_written`, `delete_written`: What
  rows and their changes are where texts are kept.
* `listNotes_written`: Counting and noting give the same listings.
* `perform_written`, `perform_blurs`: One operation on both stores.
* `answers_agree_from`: Operations on stores that are alike.
* `sharp_from`: Where nothing is blurred.
* `answers_agree_iff`: When the two stores give the same answers.
* `answers_agree_of_unsigned`: They do where there is no negative zero.
* `answers_differ`: Two saves that are told apart by one store only.
-/

namespace Workflow

namespace Entries

variable {β γ : Type}

theorem insert_map (change : β → γ) (key : String) (value : β) (entries : Entries β) :
    insert key (change value) (entries.map fun entry => (entry.1, change entry.2)) =
      (insert key value entries).map fun entry => (entry.1, change entry.2) := by
  induction entries with
  | nil => rfl
  | cons entry rest ih =>
      rw [List.map_cons, insert, insert, ih]
      split
      · rfl
      · split <;> rfl

theorem erase_map (change : β → γ) (key : String) (entries : Entries β) :
    erase key (entries.map fun entry => (entry.1, change entry.2)) =
      (erase key entries).map fun entry => (entry.1, change entry.2) := by
  rw [erase, erase, List.filter_map]
  rfl

end Entries

namespace Row

/-- The numbers that are noted of a graph in memory are its own. -/
def Counted (row : Row Graph) : Prop :=
  row.nodes = row.body.nodes.length ∧ row.edges = row.body.edges.length

/-- Then a line with these numbers is the one that counting gives. -/
theorem Counted.line {row : Row Graph} (h : row.Counted) (id : String) :
    row.line id = Summary.ofStored (row.stored id row.body) := by
  rw [Row.line, Summary.ofStored, h.1, h.2]
  rfl

/-- What is kept of a row where texts are kept. -/
def written (row : Row Graph) : Row String :=
  ⟨row.title, Format.asText.keep row.body, row.nodes, row.edges, row.version, row.publish,
    row.updatedAt⟩

end Row

namespace Table

/-- The table of the texts of the graphs in a table. -/
def written (t : Table Graph) : Table String := t.map fun entry => (entry.1, entry.2.written)

/-- Every graph in a table has a property, and its numbers are noted. -/
def All (p : Graph → Prop) (t : Table Graph) : Prop :=
  ∀ entry ∈ t, p entry.2.body ∧ entry.2.Counted

theorem All.body {p : Graph → Prop} {t : Table Graph} (h : t.All p) {id : String}
    {row : Row Graph} (hrow : Entries.find? id t = some row) : p row.body :=
  (h (id, row) (Entries.mem_of_find? hrow)).1

theorem find?_written (t : Table Graph) (id : String) :
    Entries.find? id t.written = (Entries.find? id t).map Row.written :=
  Entries.find?_mapValues (fun _ (row : Row Graph) => row.written) id t

theorem row?_written (t : Table Graph) (hall : t.All Graph.Recovers) (id : String) :
    t.written.row? .asText id = t.row? .inMemory id := by
  rw [row?, row?, find?_written]
  cases hrow : Entries.find? id t with
  | none => rfl
  | some row =>
      have hbody := hall.body hrow
      rw [Option.map_some, Option.map_some, Option.map_some, Option.some.injEq, Row.opened,
        Row.opened, Row.mk.injEq]
      exact ⟨rfl, hbody, rfl, rfl, rfl, rfl, rfl⟩

theorem versionOf_written (t : Table Graph) (id : String) :
    t.written.versionOf id = t.versionOf id := by
  rw [versionOf, versionOf, find?_written]
  cases Entries.find? id t <;> rfl

/-- Both ways to list a table give the same, when what was noted of the graphs is
    what can be counted in them. -/
theorem listNotes_written {p : Graph → Prop} (t : Table Graph) (hall : t.All p) :
    t.written.listNotes = t.listGraphs := by
  rw [listNotes, listGraphs, written, List.map_map]
  refine congrArg (List.mergeSort · Summary.before) (List.map_congr_left fun entry hentry => ?_)
  exact (hall entry hentry).2.line entry.1

theorem delete_written (t : Table Graph) (id : String) :
    t.written.delete id = ((t.delete id).1, Table.written (t.delete id).2) := by
  have hfound : Entries.contains id t.written = Entries.contains id t := by
    rw [Entries.contains, Entries.contains, find?_written, Option.isSome_map]
  rw [delete, delete, hfound, written, Entries.erase_map]
  rfl

theorem renew_written (t : Table Graph) (now : Instant) (id title : String) (graph : Graph) :
    t.written.renew .asText now id title graph =
      (t.renew .inMemory now id title graph).written := by
  have hrow : t.written.renewed .asText now id title graph =
      (t.renewed .inMemory now id title graph).written := by
    rw [renewed, renewed, versionOf_written, find?_written]
    cases Entries.find? id t <;> rfl
  rw [renew, renew, hrow, written, Entries.insert_map, written]

theorem stamp_written (t : Table Graph) (now : Instant) (id : String) :
    t.written.stamp now id = (t.stamp now id).written := by
  rw [stamp, stamp, find?_written]
  cases Entries.find? id t with
  | none => rfl
  | some row =>
      rw [Option.map_some]
      exact Entries.insert_map Row.written id { row with publish := row.publish.stamp now } t

/-- Publishing does the same where texts are kept. -/
theorem markPublished_written (t : Table Graph) (now : Instant) (id : String) (version : Nat) :
    t.written.markPublished now id version =
      (t.markPublished now id version).map fun r => (r.1, Table.written r.2) := by
  rw [markPublished_eq, markPublished_eq, find?_written, stamp_written]
  cases Entries.find? id t with
  | none => rfl
  | some row =>
      have hversion : row.written.version = row.version := rfl
      simp only [Option.map_some, hversion]
      cases checkVersion id row.version (some version) <;> rfl

/-- A graph is found where graphs are kept when one is stored that is the same. -/
theorem holds_iff (t : Table Graph) (id title : String) (graph : Graph) :
    t.holds .inMemory id title graph = true ↔
      ∃ row, Entries.find? id t = some row ∧ row.body.same graph = true ∧ row.title = title := by
  rw [holds]
  cases Entries.find? id t with
  | none => simp only [Bool.false_eq_true, reduceCtorEq, false_and, exists_false]
  | some row =>
      simp only [Bool.and_eq_true, beq_iff_eq, Option.some.injEq, exists_eq_left']
      exact Iff.rfl

/-- A graph is found where texts are kept when it is the one that is stored. -/
theorem holds_written_iff (t : Table Graph) (hall : t.All Graph.Recovers) (id title : String)
    (graph : Graph) (hgraph : graph.Recovers) :
    t.written.holds .asText id title graph = true ↔
      ∃ row, Entries.find? id t = some row ∧ row.body = graph ∧ row.title = title := by
  rw [holds, find?_written]
  cases hrow : Entries.find? id t with
  | none => simp only [Option.map_none, Bool.false_eq_true, reduceCtorEq, false_and, exists_false]
  | some row =>
      have htext := row.body.compact_eq_iff graph (hall.body hrow) hgraph
      simp only [Option.map_some, Row.written, Format.asText, Bool.and_eq_true, beq_iff_eq,
        Option.some.injEq, exists_eq_left', htext]

/-- A graph that is the stored one is found in both. -/
theorem holds_of_written (t : Table Graph) (hall : t.All Graph.Recovers) (id title : String)
    (graph : Graph) (hgraph : graph.Recovers)
    (h : t.written.holds .asText id title graph = true) :
    t.holds .inMemory id title graph = true := by
  rcases (t.holds_written_iff hall id title graph hgraph).mp h with ⟨row, hrow, hbody, htitle⟩
  refine (t.holds_iff id title graph).mpr ⟨row, hrow, ?_, htitle⟩
  rw [hbody]
  exact graph.same_self

end Table

namespace Operation

/-- The graph that an operation brings. -/
def graph? : Operation → Option Graph
  | save _ _ graph _ => some graph
  | _ => none

/-- The graphs that operations bring. -/
def graphs (ops : List (Instant × Operation)) : List Graph :=
  ops.filterMap fun entry => entry.2.graph?

/-- What all graphs have in common that operations bring, the first one has and
    the others. -/
theorem forall_graph?_of_cons (p : Graph → Prop) (now : Instant) (operation : Operation)
    (rest : List (Instant × Operation))
    (h : ∀ graph ∈ graphs ((now, operation) :: rest), p graph) :
    (∀ graph, operation.graph? = some graph → p graph) ∧ ∀ graph ∈ graphs rest, p graph := by
  constructor
  · intro graph hbrings
    exact h graph (List.mem_filterMap.mpr ⟨(now, operation), List.mem_cons_self, hbrings⟩)
  · intro graph hin
    rcases List.mem_filterMap.mp hin with ⟨entry, hentry, hbrings⟩
    exact h graph (List.mem_filterMap.mpr ⟨entry, List.mem_cons_of_mem _ hentry, hbrings⟩)

end Operation

/-- A save may be made and finds its snapshot stored, but loading what is
    stored gives another graph. -/
def Turn.blurs (t : Turn) : Bool :=
  match t.operation with
  | .save id title graph expected =>
      expected.all (fun v => v == t.before.versionOf id) && t.before.holds id title graph &&
        (t.before.row? id).any fun row => row.body != some graph
  | _ => false

namespace Store

/-- Where graphs are kept, a save blurs a graph that is the same as the stored
    one without being it. -/
theorem blurs_save_iff (t : Table Graph) (now : Instant) (id title : String) (graph : Graph)
    (expected : Option Nat) :
    (Turn.mk (memory t) now (.save id title graph expected)).blurs = true ↔
      (∀ v, expected = some v → v = t.versionOf id) ∧ t.holds .inMemory id title graph = true ∧
        ∀ row, Entries.find? id t = some row → row.body ≠ graph := by
  -- A save may be made when it names the stored version, or none.
  have hversion : expected.all (fun v => v == t.versionOf id) = true ↔
      ∀ v, expected = some v → v = t.versionOf id := by
    cases expected with
    | none => simp only [Option.all_none, reduceCtorEq, false_implies, implies_true]
    | some v => simp only [Option.all_some, beq_iff_eq, Option.some.injEq, forall_eq']
  -- In memory a row gives back what it holds.
  have hrow : t.holds .inMemory id title graph = true →
      ((t.row? .inMemory id).any (fun row => row.body != some graph) = true ↔
        ∀ row, Entries.find? id t = some row → row.body ≠ graph) := by
    intro hholds
    rcases (t.holds_iff id title graph).mp hholds with ⟨row, hrow, -⟩
    have hbody : (row.opened .inMemory).body = some row.body := rfl
    simp only [Table.row?, hrow, Option.map_some, Option.any_some, hbody, bne_iff_ne, ne_eq,
      Option.some.injEq, forall_eq']
  simp only [Turn.blurs, versionOf, holds, row?, Bool.and_eq_true, hversion, and_assoc]
  exact and_congr_right fun _ => and_congr_right hrow

/-- Where a save may be made and blurs nothing, both stores find the same
    snapshots. -/
theorem holds_written (t : Table Graph) (hall : t.All Graph.Recovers) (now : Instant)
    (id title : String) (graph : Graph) (expected : Option Nat)
    (hgraph : graph.Recovers)
    (hversion : ∀ v, expected = some v → v = t.versionOf id)
    (hsharp : (Turn.mk (memory t) now (.save id title graph expected)).blurs = false) :
    (text t.written).holds id title graph = (memory t).holds id title graph := by
  rw [holds, holds, Bool.eq_iff_iff]
  constructor
  · exact t.holds_of_written hall id title graph hgraph
  · intro hholds
    rcases (t.holds_iff id title graph).mp hholds with ⟨row, hrow, -, htitle⟩
    refine (t.holds_written_iff hall id title graph hgraph).mpr ⟨row, hrow, ?_, htitle⟩
    -- A stored graph that is the same but another one would be blurred.
    by_contra hne
    have hblurs := (blurs_save_iff t now id title graph expected).mpr
      ⟨hversion, hholds, fun other hother => Option.some.inj (hrow.symm.trans hother) ▸ hne⟩
    exact absurd (hblurs.symm.trans hsharp) Bool.true_eq_false.mp

/-- Where nothing is blurred, both stores answer the same and stay alike. What
    all graphs have in common that are stored or brought, they keep. -/
theorem perform_written (p : Graph → Prop) (hp : ∀ g, p g → g.Recovers) (t : Table Graph)
    (hall : t.All p) (now : Instant) (operation : Operation)
    (hgraph : ∀ graph, operation.graph? = some graph → p graph)
    (hsharp : (Turn.mk (memory t) now operation).blurs = false) :
    ∃ t' : Table Graph, t'.All p ∧ ((memory t).perform now operation).2 = memory t' ∧
      (text t.written).perform now operation =
        (((memory t).perform now operation).1, text t'.written) := by
  have hrecovers : t.All Graph.Recovers := fun entry hentry => (hall entry hentry).imp_left (hp _)
  cases operation with
  | load id =>
      -- What is loaded is the same, since the texts can be read again.
      have hload : (text t.written).load id = (memory t).load id := by
        rw [load_eq, load_eq, row?, row?, t.row?_written hrecovers]
      refine ⟨t, hall, ?_, ?_⟩
      · rw [perform]
        cases (memory t).load id <;> rfl
      · rw [perform, perform, hload]
        cases (memory t).load id <;> rfl
  | save id title graph expected =>
      have hholds := holds_written t hrecovers now id title graph expected
        (hp graph (hgraph graph rfl))
      rw [perform, perform, save_eq, save_eq, versionOf, versionOf, t.versionOf_written]
      rcases checkVersion_cases id (t.versionOf id) expected with
        ⟨v, -, -, hcheck⟩ | ⟨hversion, hcheck⟩
      -- The version is not the one that was asked for, and nothing is stored.
      · rw [hcheck]
        exact ⟨t, hall, rfl, rfl⟩
      · rw [hcheck, hholds hversion hsharp, renew, renew, t.renew_written, Except.bind, Except.bind]
        -- Either both stores find the snapshot, or both make a new version of it.
        by_cases hfound : (memory t).holds id title graph = true
        · rw [if_pos hfound, if_pos hfound]
          exact ⟨t, hall, rfl, rfl⟩
        · rw [if_neg hfound, if_neg hfound]
          exact ⟨_, Entries.forall_insert hall ⟨hgraph graph rfl, rfl, rfl⟩, rfl, rfl⟩
  | list =>
      refine ⟨t, hall, rfl, ?_⟩
      rw [perform, perform, list, list, t.listNotes_written hall]
  | delete id =>
      refine ⟨(t.delete id).2, Table.forall_delete hall id, rfl, ?_⟩
      rw [perform, perform, delete, delete, t.delete_written]
  | markPublished id version =>
      rw [perform, perform, markPublished, markPublished, t.markPublished_written,
        Table.markPublished_eq]
      cases Entries.find? id t with
      | none => exact ⟨t, hall, rfl, rfl⟩
      | some row =>
          simp only
          cases checkVersion id row.version (some version) with
          | error e => exact ⟨t, hall, rfl, rfl⟩
          | ok _ => exact ⟨_, Table.forall_stamp hall now id fun _ hrow => hrow, rfl, rfl⟩

/-- Where a graph is blurred, texts make a version of it, and memory does not. -/
theorem perform_blurs (t : Table Graph) (hall : t.All Graph.Recovers) (now : Instant)
    (operation : Operation)
    (hgraph : ∀ graph, operation.graph? = some graph →
      graph.Recovers)
    (hblurs : (Turn.mk (memory t) now operation).blurs = true) :
    ((text t.written).perform now operation).1 ≠ ((memory t).perform now operation).1 := by
  cases operation with
  | load id | list | delete id | markPublished id version => exact absurd hblurs nofun
  | save id title graph expected =>
      rcases (blurs_save_iff t now id title graph expected).mp hblurs with
        ⟨hversion, hholds, hother⟩
      -- Another graph has another text, so the snapshot is not found where texts are kept.
      have hnot : ¬ (text t.written).holds id title graph = true := by
        intro hfound
        rcases (t.holds_written_iff hall id title graph (hgraph graph rfl)).mp hfound with
          ⟨row, hrow, hbody, -⟩
        exact hother row hrow hbody
      rcases checkVersion_cases id (t.versionOf id) expected with
        ⟨v, hexpected, hne, -⟩ | ⟨-, hcheck⟩
      · exact absurd (hversion v hexpected) hne
      · have hfound : (memory t).holds id title graph = true := hholds
        rw [perform, perform, save_eq, save_eq, versionOf, versionOf, t.versionOf_written, hcheck,
          Except.bind, Except.bind, if_pos hfound, if_neg hnot]
        -- Then the version there is one that memory does not reach.
        intro heq
        have hsame := Response.saved.inj heq
        omega

/-- From tables that are alike, the answers are the same as long as nothing is
    blurred, and differ where something is. -/
theorem answers_agree_from (ops : List (Instant × Operation)) (t : Table Graph)
    (hall : t.All Graph.Recovers)
    (hgraphs : ∀ graph ∈ Operation.graphs ops, graph.Recovers) :
    ((text t.written).turns ops).map Turn.answer = ((memory t).turns ops).map Turn.answer ↔
      ∀ turn ∈ (memory t).turns ops, turn.blurs = false := by
  induction ops generalizing t with
  | nil => exact ⟨fun _ turn hturn => absurd hturn List.not_mem_nil, fun _ => rfl⟩
  | cons entry rest ih =>
      rcases entry with ⟨now, operation⟩
      rcases Operation.forall_graph?_of_cons Graph.Recovers now operation rest hgraphs with
        ⟨hgraph, hrest⟩
      rw [turns, turns, List.map_cons, List.map_cons, List.cons.injEq, List.forall_mem_cons]
      -- After a blurred save the stores are not alike any more, but then the
      -- answers to it have told them apart already.
      by_cases hblurs : (Turn.mk (memory t) now operation).blurs = true
      · have hdiffer := perform_blurs t hall now operation hgraph hblurs
        constructor
        · exact fun h => absurd h.1 hdiffer
        · exact fun h => absurd (hblurs.symm.trans h.1) Bool.true_eq_false.mp
      · have hsharp := (Bool.not_eq_true _).mp hblurs
        rcases perform_written Graph.Recovers (fun _ h => h) t hall now operation hgraph hsharp with
          ⟨t', hall', hmemory, htext⟩
        have hanswer : (Turn.mk (text t.written) now operation).answer =
            (Turn.mk (memory t) now operation).answer := by
          rw [Turn.answer, htext, Turn.answer]
        rw [htext, hmemory, ih t' hall' hrest]
        exact ⟨fun h => ⟨hsharp, h.2⟩, fun h => ⟨hanswer, h.2⟩⟩

/-- Where graphs are equal when they are the same, nothing is blurred. -/
theorem sharp_from (p : Graph → Prop) (hp : ∀ g, p g → g.Recovers)
    (hsame : ∀ g h, p g → p h → g.same h = true → g = h) (ops : List (Instant × Operation))
    (t : Table Graph) (hall : t.All p) (hgraphs : ∀ graph ∈ Operation.graphs ops, p graph) :
    ∀ turn ∈ (memory t).turns ops, turn.blurs = false := by
  induction ops generalizing t with
  | nil => exact fun turn hturn => absurd hturn List.not_mem_nil
  | cons entry rest ih =>
      rcases entry with ⟨now, operation⟩
      have hgraph := Operation.forall_graph?_of_cons p now operation rest hgraphs
      have hsharp : (Turn.mk (memory t) now operation).blurs = false := by
        cases operation with
        | load id | list | delete id | markPublished id version => rfl
        | save id title graph expected =>
            -- A save finds the graph that it brings only if it is equal to it.
            rw [← Bool.not_eq_true, blurs_save_iff]
            rintro ⟨-, hholds, hother⟩
            rcases (t.holds_iff id title graph).mp hholds with ⟨row, hrow, hbody, -⟩
            exact hother row hrow
              (hsame row.body graph (hall.body hrow) (hgraph.1 graph rfl) hbody)
      rcases perform_written p hp t hall now operation hgraph.1 hsharp with
        ⟨t', hall', hmemory, -⟩
      rw [turns, List.forall_mem_cons, hmemory]
      exact ⟨hsharp, ih t' hall' hgraph.2⟩

theorem all_empty (p : Graph → Prop) : Table.All p [] :=
  fun _ hentry => absurd hentry List.not_mem_nil

/-- Graphs that were accepted, with numbers that are found again, are found
    again. -/
theorem recovers_of_accepted (g : Graph) (haccepted : ∃ source, Graph.ofText? source = some g)
    (hback : g.ReadsBack) : g.Recovers := by
  rcases haccepted with ⟨source, hsource⟩
  exact g.recovers_of_kept (Graph.kept_of_ofText? source g hsource) hback

/-- The two stores give the same answers to everything, from the start on,
    exactly when no save brings a graph that is taken for the stored one
    although it is another. The graphs are such as were accepted from a text,
    and their binary64 numbers are found again in their texts. -/
theorem answers_agree_iff (ops : List (Instant × Operation))
    (haccepted : ∀ graph ∈ Operation.graphs ops, ∃ source, Graph.ofText? source = some graph)
    (hback : ∀ graph ∈ Operation.graphs ops, graph.ReadsBack) :
    ((text []).turns ops).map Turn.answer = ((memory []).turns ops).map Turn.answer ↔
      ∀ turn ∈ (memory []).turns ops, turn.blurs = false :=
  answers_agree_from ops [] (all_empty _) fun graph hgraph =>
    recovers_of_accepted graph (haccepted graph hgraph) (hback graph hgraph)

/-- The two stores give the same answers to everything, from the start on, as
    long as there is no negative zero in a graph. -/
theorem answers_agree_of_unsigned (ops : List (Instant × Operation))
    (haccepted : ∀ graph ∈ Operation.graphs ops, ∃ source, Graph.ofText? source = some graph)
    (hback : ∀ graph ∈ Operation.graphs ops, graph.ReadsBack)
    (hunsigned : ∀ graph ∈ Operation.graphs ops,
      .real (Binary64.zero true) ∉ graph.toJson.numbers) :
    ((text []).turns ops).map Turn.answer = ((memory []).turns ops).map Turn.answer := by
  have hrecovers : ∀ graph ∈ Operation.graphs ops, graph.Recovers := fun graph hgraph =>
    recovers_of_accepted graph (haccepted graph hgraph) (hback graph hgraph)
  refine (answers_agree_from ops [] (all_empty _) hrecovers).mpr ?_
  apply sharp_from (fun g => g.Recovers ∧ .real (Binary64.zero true) ∉ g.toJson.numbers)
    (fun g hg => hg.1) (fun g h hg hh heq => g.eq_of_same h heq hg.2 hh.2) ops [] (all_empty _)
  exact fun graph hgraph => ⟨hrecovers graph hgraph, hunsigned graph hgraph⟩

end Store

/-- A graph of one step that lies somewhere on the canvas. -/
def placed (x : Binary64) : Graph where
  nodes := [{ id := "a", kind := .wait, position := ⟨x, Binary64.zero false⟩, title := "a" }]

theorem placed_readsBack (x : Binary64) (h : (Number.real x).ReadsBack) :
    (placed x).ReadsBack := by
  have hzero : (Number.real (Binary64.zero false)).ReadsBack := by decide +kernel
  intro y hy
  have hnumbers : (placed x).toJson.numbers = [.real x, .real (Binary64.zero false)] := rfl
  rw [hnumbers] at hy
  rcases List.mem_cons.mp hy with heq | hy
  · rw [heq]
    exact h
  · rw [List.mem_singleton.mp hy]
    exact hzero

theorem placed_accepted (x : Binary64) (h : (Number.real x).ReadsBack) :
    ∃ source, Graph.ofText? source = some (placed x) := by
  have hkept : (placed x).Kept := by
    intro n hn
    rw [List.mem_singleton.mp hn]
    exact ⟨List.Pairwise.nil, trivial⟩
  exact ⟨_, (placed x).recovers_of_kept hkept (placed_readsBack x h)⟩

/-- A step is saved, moved, published and deleted. -/
def movedAside : List (Instant × Operation) :=
  [(⟨0, 0⟩, .save "g" "t" (placed (Binary64.zero false)) (some 0)),
    (⟨0, 1⟩, .save "g" "t" (placed (Binary64.zero false)) none),
    (⟨0, 2⟩, .save "g" "t" (placed Binary64.half) (some 1)), (⟨0, 3⟩, .load "g"),
    (⟨0, 4⟩, .markPublished "g" 2), (⟨0, 5⟩, .list), (⟨0, 6⟩, .delete "g"), (⟨0, 7⟩, .load "g")]

theorem answers_agree_movedAside :
    ((Store.text []).turns movedAside).map Turn.answer =
      ((Store.memory []).turns movedAside).map Turn.answer := by
  have hplaces : ∀ graph ∈ Operation.graphs movedAside,
      ∃ x ∈ [Binary64.zero false, Binary64.half], graph = placed x := by decide +kernel
  have hback : ∀ x ∈ [Binary64.zero false, Binary64.half], (Number.real x).ReadsBack := by
    decide +kernel
  refine (Store.answers_agree_iff movedAside ?_ ?_).mpr (by decide +kernel)
  · intro graph hgraph
    rcases hplaces graph hgraph with ⟨x, hx, rfl⟩
    exact placed_accepted x (hback x hx)
  · intro graph hgraph
    rcases hplaces graph hgraph with ⟨x, hx, rfl⟩
    exact placed_readsBack x (hback x hx)

/-- A step is moved from one zero to the other. -/
def movedAcross : List (Instant × Operation) :=
  [(⟨0, 0⟩, .save "g" "t" (placed (Binary64.zero false)) none),
    (⟨0, 1⟩, .save "g" "t" (placed (Binary64.zero true)) none)]

/-- One store finds the same snapshot again, and the other makes a version of
    it. -/
theorem answers_differ :
    ¬ ∀ ops : List (Instant × Operation),
      (∀ graph ∈ Operation.graphs ops, ∃ source, Graph.ofText? source = some graph) →
        (∀ graph ∈ Operation.graphs ops, graph.ReadsBack) →
          ((Store.text []).turns ops).map Turn.answer =
            ((Store.memory []).turns ops).map Turn.answer := by
  intro hclaim
  -- Both graphs are at the origin, on either side of it.
  have hplaces : ∀ graph ∈ Operation.graphs movedAcross,
      ∃ negative, graph = placed (Binary64.zero negative) := by decide +kernel
  have hback : ∀ negative, (Number.real (Binary64.zero negative)).ReadsBack := by decide +kernel
  have hanswers := hclaim movedAcross ?_ ?_
  · revert hanswers
    decide +kernel
  · intro graph hgraph
    rcases hplaces graph hgraph with ⟨negative, rfl⟩
    exact placed_accepted _ (hback negative)
  · intro graph hgraph
    rcases hplaces graph hgraph with ⟨negative, rfl⟩
    exact placed_readsBack _ (hback negative)

end Workflow
