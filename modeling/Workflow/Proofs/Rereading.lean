import Workflow.Proofs.Interchange

/-!
# Writing What Was Read

A graph that was read from a text survives in every form in which it is written.

A text may say the same graph in many ways, and none of them is what is written
of it. The text that is laid out for people, the one that is stored and the one
that was read are three texts of one graph (`accepted_preserved`). It stays the
same in all that belongs to it: the nodes and the edges in their order, and of
every node its id, its kind, its place, its title, its description and each
value in its config. Only how a binary64 number is printed and read is left to
the numbers that the graph holds.

The reader opens a limited number of arrays and objects at once, and what is
written must not ask for more. What it has kept is not nested deeper than it had
room for (`depth_le_of_kept`), and the records around it take as many when they
are written as they took when they were read.

What is stored is found again when a save has answered, whether the save wrote
the text or found the same text there (`load_of_save`).

## Main definitions

* `Graph.Preserved`: A graph survives in every form in which it is written.

## Theorems

* `Json.depth_le_of_kept`: What is kept is not nested deeper than the reader has
  room for.
* `Graph.depth_toJson_le`: What is written of a graph can be read.
* `Store.load_of_save`: What was saved as a text is loaded.
* `Graph.accepted_preserved`: What was read from a text is preserved.
-/

namespace Workflow

namespace Json

mutual

/-- What is kept is not nested deeper than the reader has room for. -/
theorem depth_le_of_kept (room : Nat) (v : Json) (h : v.Kept room) : v.depth ≤ room := by
  match v with
  | .null | .bool _ | .number _ | .string _ => exact Nat.zero_le room
  | .array items =>
      cases room with
      | zero => exact absurd h id
      | succ room => exact Nat.succ_le_succ (depthItems_le_of_kept room items h)
  | .object members =>
      cases room with
      | zero => exact absurd h id
      | succ room => exact Nat.succ_le_succ (depthMembers_le_of_kept room members h.2)
termination_by sizeOf v

theorem depthItems_le_of_kept (room : Nat) (items : List Json) (h : KeptItems room items) :
    depthItems items ≤ room := by
  match items with
  | [] => exact Nat.zero_le room
  | item :: rest =>
      exact Nat.max_le.mpr ⟨depth_le_of_kept room item h.1, depthItems_le_of_kept room rest h.2⟩
termination_by sizeOf items

theorem depthMembers_le_of_kept (room : Nat) (members : List (String × Json))
    (h : KeptMembers room members) : depthMembers members ≤ room := by
  match members with
  | [] => exact Nat.zero_le room
  | (_, value) :: rest =>
      exact Nat.max_le.mpr
        ⟨depth_le_of_kept room value h.1, depthMembers_le_of_kept room rest h.2⟩
termination_by sizeOf members

end

/-- An array is as deep as the deepest of its items. -/
theorem depthItems_le (bound : Nat) (items : List Json) (h : ∀ item ∈ items, item.depth ≤ bound) :
    depthItems items ≤ bound := by
  induction items with
  | nil => exact Nat.zero_le bound
  | cons item rest ih =>
      rw [List.forall_mem_cons] at h
      exact Nat.max_le.mpr ⟨h.1, ih h.2⟩

end Json

namespace Graph

/-- What is written of a node is its record around its config. -/
theorem depth_node_le (room : Nat) (n : Node) (h : n.Kept room) : n.toJson.depth ≤ room + 2 := by
  have hconfig := Json.depthMembers_le_of_kept room n.config h.2
  simp only [Node.toJson, Position.toJson, Json.depth, Json.depthMembers]
  omega

/-- What is written of a graph can be read: it is not nested deeper than the
    reader has room for. -/
theorem depth_toJson_le (g : Graph) (h : g.Kept) : g.toJson.depth ≤ Scope.text.room := by
  have hnodes : Json.depthItems (g.nodes.map Node.toJson) ≤ configRoom + 2 := by
    refine Json.depthItems_le _ _ fun item hitem => ?_
    rcases List.mem_map.mp hitem with ⟨n, hn, heq⟩
    rw [← heq]
    exact depth_node_le configRoom n (h n hn)
  have hedges : Json.depthItems (g.edges.map Edge.toJson) ≤ 1 := by
    refine Json.depthItems_le _ _ fun item hitem => ?_
    rcases List.mem_map.mp hitem with ⟨e, _, heq⟩
    rw [← heq]
    exact Nat.le_refl 1
  -- Four are open around a value: the graph, its nodes, the node and its config.
  have hroom : Scope.text.room = configRoom + 4 := rfl
  simp only [toJson, Json.depth, Json.depthMembers, hroom]
  omega

/-- A graph survives in every form in which it is written: it is read from the
    text that is laid out for people and from the text that is stored, neither
    of which is nested too deep, and it is loaded where it was saved. -/
structure Preserved (g : Graph) : Prop where
  pretty : ofText? g.toText = some g
  compact : ofText? g.toJson.compact = some g
  nested : g.toJson.depth ≤ Scope.text.room
  stored : ∀ (t : Table String) (now : Instant) (id title : String) (expected : Option Nat)
    (version : Nat) (s : Store), (Store.text t).save now id title g expected = .ok (version, s) →
      ∃ stored, s.load id = .ok stored ∧ stored.graph = g ∧ stored.title = title ∧
        stored.version = version

end Graph

namespace Store

/-- What was saved as a text is loaded, whether it was written or found there. -/
theorem load_of_save (t : Table String) (now : Instant) (id title : String) (g : Graph)
    (expected : Option Nat) (version : Nat) (s : Store) (hback : g.Recovers)
    (h : (text t).save now id title g expected = .ok (version, s)) :
    ∃ stored, s.load id = .ok stored ∧ stored.graph = g ∧ stored.title = title ∧
      stored.version = version :=
  (s.load_of_content id title version _
    (content_of_save_text t now id title g expected version s h)).1 g hback

end Store

/-- What was read from a text is preserved, when the binary64 numbers in it are
    found again in their texts. -/
theorem Graph.accepted_preserved (source : String) (g : Graph)
    (haccepted : ofText? source = some g) (hback : g.ReadsBack) : g.Preserved := by
  have hkept := kept_of_ofText? source g haccepted
  have hrecovers := g.recovers_of_kept hkept hback
  exact {
    pretty := g.ofText?_toText hkept hback
    compact := hrecovers
    nested := g.depth_toJson_le hkept
    stored := fun t now id title expected version s hsave =>
      Store.load_of_save t now id title g expected version s hrecovers hsave }

/-- A text that no graph is written as. Records are arrays, a kind is an object,
    fields are unknown, out of order or left out, a key is repeated, and there are
    escapes and numbers in several spellings. -/
def strewn : String :=
  "[[[\"b\\u00e9\",\x7b\"Wait\":null\x7d," ++
    "\x7b\"k\":0,\"k\":[1,-0,1e2,\x7b\"z\":null,\"a\":\"\\\"\"\x7d]\x7d]," ++
    "\x7b\"kind\":\"Email\",\"more\":[[\"\\ud800\"]],\"id\":\"c\",\"position\":[1,2.5]\x7d]," ++
    "[[\"bé\",\"c\"]]]"

theorem accepted_preserved_strewn : ∃ g, Graph.ofText? strewn = some g ∧
    g.edges = [⟨"bé", "c"⟩] ∧ g.toJson.compact ≠ strewn ∧ g.Preserved := by
  have hseen : (Graph.ofText? strewn).map (fun g => (g.edges, decide (g.toJson.compact = strewn),
      decide (∀ m ∈ g.toJson.numbers, m.ReadsBack))) =
        some ([⟨"bé", "c"⟩], false, true) := by
    decide +kernel
  rcases Option.map_eq_some_iff.mp hseen with ⟨g, hg, hall⟩
  simp only [Prod.mk.injEq, decide_eq_false_iff_not, decide_eq_true_eq] at hall
  rcases hall with ⟨hedges, hother, hback⟩
  exact ⟨g, hg, hedges, hother, g.accepted_preserved strewn hg fun x hx => hback _ hx⟩

end Workflow
