import Workflow.Graph.Document
import Workflow.Proofs.ReadBack

/-!
# Graphs That Are Read Back

What a text makes of a graph, and what is read from the text of the graph.

A graph that was accepted from a text is written as other text: fields that
were left out are filled in, a record that was an array becomes an object, the
keys of a config are put in order and fields that nobody knows are gone. Read
again, that text gives the same graph. What the reader has kept of the configs
is what makes it so (`Graph.Kept`): there is as much room for them in the text
that is written as there was in the one that was read.

## Main definitions

* `Graph.Kept`: The configs of a graph are such as a reader keeps.
* `Graph.Recovers`: A graph is found again in its text.
* `Graph.ReadsBack`: The binary64 numbers of a graph are found again.

## Theorems

* `kept_of_ofText?`: What is accepted is kept.
* `decode_toJson`: What is kept is read from the document of the graph.
* `compact_eq_iff`: Texts tell graphs apart.
* `recovers_of_kept`, `ofText?_toText`: What is kept is read from either text.
-/

namespace Workflow

namespace Decoder

variable {α : Type}

/-- A record is read with room for one array or object less. -/
theorem exists_of_record (names : List String) (read : Fields → Option α) (scope : Scope)
    (d : Document) (a : α) (h : record names read scope d = some a) :
    ∃ inner slots, scope.enter? = some inner ∧ read ⟨inner, slots⟩ = some a := by
  cases d with
  | object members =>
      rcases Option.bind_eq_some_iff.mp h with ⟨inner, hinner, h⟩
      rcases Option.bind_eq_some_iff.mp h with ⟨slots, -, h⟩
      exact ⟨inner, slots, hinner, h⟩
  | array items =>
      rcases Option.bind_eq_some_iff.mp h with ⟨inner, hinner, h⟩
      split at h
      · exact absurd h nofun
      · exact ⟨inner, _, hinner, h⟩
  | null | bool _ | number _ | string _ => exact absurd h nofun

theorem exists_of_defaulted (fields : Fields) (name : String) (read : Decoder α) (default a : α)
    (h : fields.defaulted name read default = some a) :
    a = default ∨ ∃ d, read fields.scope d = some a := by
  rw [Fields.defaulted] at h
  split at h
  · exact Or.inr ⟨_, h⟩
  · exact Or.inl (Option.some.inj h).symm

/-- Every item that is read is read from something. -/
theorem exists_of_mapM {β : Type} (read : β → Option α) (sources : List β) (items : List α)
    (h : sources.mapM read = some items) (item : α) (hitem : item ∈ items) :
    ∃ source, read source = some item := by
  induction sources generalizing items with
  | nil =>
      rw [← Option.some.inj h] at hitem
      exact absurd hitem List.not_mem_nil
  | cons source rest ih =>
      rw [List.mapM_cons] at h
      -- What was read of the list are the first item and the others.
      rcases Option.bind_eq_some_iff.mp h with ⟨first, hfirst, h⟩
      rcases Option.bind_eq_some_iff.mp h with ⟨others, hothers, h⟩
      rw [← Option.some.inj h] at hitem
      rcases List.mem_cons.mp hitem with rfl | hmem
      · exact ⟨source, hfirst⟩
      · exact ih others hothers hmem

/-- What is found of every item alone is found of the items together. -/
theorem mapM_map_of_some {β γ : Type} (read : β → Option α) (write : γ → β) (found : γ → α)
    (items : List γ) (h : ∀ item ∈ items, read (write item) = some (found item)) :
    (items.map write).mapM read = some (items.map found) := by
  induction items with
  | nil => rfl
  | cons item rest ih =>
      have hrest := ih fun other hother => h other (List.mem_cons_of_mem _ hother)
      rw [List.map_cons, List.mapM_cons, h item List.mem_cons_self, hrest]
      rfl

/-- Items that are each found again are found again together. -/
theorem mapM_map {β : Type} (read : β → Option α) (write : α → β) (items : List α)
    (h : ∀ item ∈ items, read (write item) = some item) :
    (items.map write).mapM read = some items := by
  rw [mapM_map_of_some read write id items h, List.map_id]

theorem exists_of_array (read : Decoder α) (scope : Scope) (d : Document) (items : List α)
    (h : array read scope d = some items) :
    ∃ inner, scope.enter? = some inner ∧ ∀ item ∈ items, ∃ d, read inner d = some item := by
  cases d with
  | array documents =>
      rcases Option.bind_eq_some_iff.mp h with ⟨inner, hinner, h⟩
      exact ⟨inner, hinner, exists_of_mapM _ documents items h⟩
  | null | bool _ | number _ | string _ | object _ => exact absurd h nofun

/-- What is read as a free-form object is in order, and is kept. -/
theorem kept_of_entries (scope : Scope) (d : Document) (found : Entries Json)
    (h : entries json scope d = some found) :
    ∃ inner, scope.enter? = some inner ∧ found.Ordered ∧ Json.KeptMembers inner.room found := by
  cases d with
  | object members =>
      rcases Option.bind_eq_some_iff.mp h with ⟨inner, hinner, h⟩
      rcases Option.bind_eq_some_iff.mp h with ⟨list, hlist, h⟩
      rw [← Option.some.inj h]
      -- Later values for a key replace earlier ones, but all of them were read.
      refine ⟨inner, hinner, Entries.ordered_ofList list, Json.keptMembers_ofList _ _ ?_⟩
      rw [Json.keptMembers_iff]
      intro member hmember
      rcases exists_of_mapM _ members list hlist member hmember with ⟨source, hsource⟩
      rcases Option.bind_eq_some_iff.mp hsource with ⟨key, -, hsource⟩
      rcases Option.bind_eq_some_iff.mp hsource with ⟨value, hvalue, hmember⟩
      rw [← Option.some.inj hmember]
      exact Document.kept_of_toJson? inner.room source.2 value hvalue
  | null | bool _ | number _ | string _ | array _ => exact absurd h nofun

end Decoder

namespace Scope

theorem room_of_enter? (scope inner : Scope) (h : scope.enter? = some inner) :
    scope.room = inner.room + 1 := by
  rw [enter?] at h
  split at h
  · contradiction
  · rename_i room hroom
    rw [← Option.some.inj h]
    exact hroom

end Scope

namespace Node

/-- The config of a node is such as a reader keeps that has room for so many
    arrays and objects in a value. -/
def Kept (room : Nat) (n : Node) : Prop := n.config.Ordered ∧ Json.KeptMembers room n.config

/-- Inside of a node, its record and its config are open. -/
theorem kept_of_decode (scope : Scope) (d : Document) (n : Node) (h : decode scope d = some n)
    (room : Nat) (hroom : scope.room = room + 2) : n.Kept room := by
  rcases Decoder.exists_of_record _ _ scope d n h with ⟨inner, slots, hinner, h⟩
  have hleft := scope.room_of_enter? inner hinner
  simp only [Option.bind_eq_bind, Option.bind_eq_some_iff] at h
  rcases h with ⟨id, -, kind, -, config, hconfig, position, -, title, -, description, -, h⟩
  rw [← Option.some.inj h]
  -- A node without a configuration has the empty one.
  rcases Decoder.exists_of_defaulted _ _ _ _ _ hconfig with hnone | ⟨source, hsource⟩
  · rw [hnone]
    exact ⟨List.Pairwise.nil, trivial⟩
  · rcases Decoder.kept_of_entries inner source config hsource with
      ⟨innermost, hinnermost, hordered, hkept⟩
    have hlast := inner.room_of_enter? innermost hinnermost
    -- Two levels were entered on the way to the configuration.
    have heq : innermost.room = room := by omega
    rw [heq] at hkept
    exact ⟨hordered, hkept⟩

end Node

namespace Graph

/-- How deep a value in the config of a node may be nested in a text of a
    graph. The graph, the list of its nodes, the node and its config are open
    around it. -/
def configRoom : Nat := 123

/-- The configs of a graph are such as a reader keeps. -/
def Kept (g : Graph) : Prop := ∀ n ∈ g.nodes, n.Kept configRoom

/-- What is accepted is kept. -/
theorem kept_of_ofText? (text : String) (g : Graph) (h : ofText? text = some g) : g.Kept := by
  rcases Option.bind_eq_some_iff.mp h with ⟨d, -, h⟩
  rcases Decoder.exists_of_record _ _ Scope.text d g h with ⟨inner, slots, hinner, h⟩
  have hleft := Scope.text.room_of_enter? inner hinner
  simp only [Option.bind_eq_bind, Option.bind_eq_some_iff] at h
  rcases h with ⟨nodes, hnodes, edges, -, h⟩
  rw [← Option.some.inj h]
  intro n hn
  -- A graph without nodes has nothing to keep.
  rcases Decoder.exists_of_defaulted _ _ _ _ _ hnodes with hnone | ⟨source, hsource⟩
  · rw [hnone] at hn
    exact absurd hn List.not_mem_nil
  · rcases Decoder.exists_of_array _ _ source nodes hsource with ⟨innermost, hinnermost, hitems⟩
    have hlast := inner.room_of_enter? innermost hinnermost
    rcases hitems n hn with ⟨item, hitem⟩
    -- Each value is read in what is left of the room for texts.
    have htext : Scope.text.room = configRoom + 4 := rfl
    exact Node.kept_of_decode innermost item n hitem configRoom (by omega)

end Graph

namespace Json

theorem documentsOfItems_eq (items : List Json) : documentsOfItems items = items.map document := by
  induction items with
  | nil => rfl
  | cons item rest ih => rw [documentsOfItems, ih, List.map_cons]

theorem documentsOfMembers_eq (members : List (String × Json)) :
    documentsOfMembers members = members.map fun member => (some member.1, member.2.document) := by
  induction members with
  | nil => rfl
  | cons member rest ih => rw [documentsOfMembers, ih, List.map_cons]

theorem mem_numbersOfItems_iff (items : List Json) (n : Number) :
    n ∈ numbersOfItems items ↔ ∃ item ∈ items, n ∈ item.numbers := by
  induction items with
  | nil => simp only [numbersOfItems, List.not_mem_nil, false_and, exists_false]
  | cons item rest ih =>
      rw [numbersOfItems, List.mem_append, ih]
      simp only [List.mem_cons, exists_eq_or_imp]

theorem mem_numbersOfMembers_iff (members : List (String × Json)) (n : Number) :
    n ∈ numbersOfMembers members ↔ ∃ member ∈ members, n ∈ member.2.numbers := by
  induction members with
  | nil => simp only [numbersOfMembers, List.not_mem_nil, false_and, exists_false]
  | cons member rest ih =>
      rw [numbersOfMembers, List.mem_append, ih]
      simp only [List.mem_cons, exists_eq_or_imp]

end Json

namespace Decoder

theorem real_literal (scope : Scope) (x : Binary64) (h : (Number.real x).ReadsBack) :
    real scope (.number (Number.real x).literal) = some x := by
  have hvalue := h.2
  rw [Literal.number?] at hvalue
  rw [real]
  -- The literal is not that of an integer, or else it would be read as one.
  cases hl : (Number.real x).literal.integer? with
  | some i =>
      rw [hl] at hvalue
      have hother := Option.some.inj hvalue
      contradiction
  | none =>
      rw [hl] at hvalue
      rcases Option.map_eq_some_iff.mp hvalue with ⟨y, hy, heq⟩
      rw [hy, Number.real.inj heq]

/-- What is found of every value alone is found of the values together, under
    their keys. -/
theorem entries_of_some {β : Type} (read : Decoder α) (scope inner : Scope) (write : β → Json)
    (found : β → α) (members : Entries β) (hscope : scope.enter? = some inner)
    (hordered : members.Ordered)
    (h : ∀ member ∈ members, read inner (write member.2).document = some (found member.2)) :
    entries read scope
        (.object (Json.documentsOfMembers (members.map fun member => (member.1, write member.2)))) =
      some (members.map fun member => (member.1, found member.2)) := by
  have hall := mapM_map_of_some
    (fun member : Option String × Document => do return ((← member.1), ← read inner member.2))
    (fun member : String × β => (some member.1, (write member.2).document))
    (fun member => (member.1, found member.2)) members (by
      intro member hmember
      simp only [h member hmember]
      rfl)
  -- The keys are those that were written, so they are in order.
  have hfound : Entries.Ordered (members.map fun member => (member.1, found member.2)) :=
    List.pairwise_map.mpr hordered
  rw [entries, hscope, Option.bind_eq_bind, Option.bind_some, Json.documentsOfMembers_eq,
    List.map_map]
  exact (congrArg (Option.bind · fun list => some (Entries.ofList list)) hall).trans
    (congrArg some (Entries.ofList_of_ordered _ hfound))

/-- A free-form object that is kept is found again. -/
theorem entries_document (scope inner : Scope) (members : Entries Json)
    (hscope : scope.enter? = some inner) (hordered : members.Ordered)
    (hkept : Json.KeptMembers inner.room members)
    (hback : ∀ n ∈ Json.numbersOfMembers members, n.ReadsBack) :
    entries json scope (.object (Json.documentsOfMembers members)) = some members := by
  have hall := entries_of_some json scope inner id id members hscope hordered (by
    intro member hmember
    have hnumbers : ∀ n ∈ member.2.numbers, n.ReadsBack := fun n hn =>
      hback n ((Json.mem_numbersOfMembers_iff _ _).mpr ⟨member, hmember, hn⟩)
    exact Json.toJson?_document inner.room member.2
      ((Json.keptMembers_iff _ _).mp hkept member hmember) hnumbers)
  have hsame : (members.map fun member => (member.1, id member.2)) = members := List.map_id members
  rw [hsame] at hall
  exact hall

end Decoder

namespace Position

theorem decode_toJson (scope inner : Scope) (p : Position) (hscope : scope.enter? = some inner)
    (hback : ∀ n ∈ p.toJson.numbers, n.ReadsBack) : decode scope p.toJson.document = some p := by
  have hx := Decoder.real_literal inner p.x (hback _ List.mem_cons_self)
  have hy := Decoder.real_literal inner p.y (hback _ (List.mem_cons_of_mem _ List.mem_cons_self))
  have hfields : decode scope p.toJson.document = do
      let inner ← scope.enter?
      return ⟨← Decoder.real inner (.number (Number.real p.x).literal),
        ← Decoder.real inner (.number (Number.real p.y).literal)⟩ := rfl
  rw [hfields, hscope, Option.bind_eq_bind, Option.bind_some, hx, hy]
  rfl

end Position

namespace Node

/-- The numbers in a node are those of its config and its place. -/
theorem mem_numbers_iff (node : Node) (n : Number) :
    n ∈ node.toJson.numbers ↔
      n ∈ Json.numbersOfMembers node.config ∨ n ∈ node.position.toJson.numbers := by
  have hnumbers : node.toJson.numbers = Json.numbersOfMembers node.config ++
      (node.position.toJson.numbers ++ []) := rfl
  rw [hnumbers, List.append_nil, List.mem_append]

/-- The document of a node has each field where it is looked for. -/
theorem decode_document (room : Nat) (surplus : Bool) (n : Node) :
    decode ⟨room + 2, surplus⟩ n.toJson.document = do
      return {
        id := n.id
        kind := ← Kind.ofLabel? n.kind.label
        config := ← Decoder.entries Decoder.json ⟨room + 1, surplus⟩
          (.object (Json.documentsOfMembers n.config))
        position := ← Position.decode ⟨room + 1, surplus⟩ n.position.toJson.document
        title := n.title
        description := n.description } :=
  rfl

/-- A node that is kept is found again. -/
theorem decode_toJson (room : Nat) (surplus : Bool) (n : Node) (hkept : n.Kept room)
    (hback : ∀ m ∈ n.toJson.numbers, m.ReadsBack) :
    decode ⟨room + 2, surplus⟩ n.toJson.document = some n := by
  have hconfig := Decoder.entries_document ⟨room + 1, surplus⟩ ⟨room, surplus⟩ n.config rfl
    hkept.1 hkept.2 fun m hm => hback m ((n.mem_numbers_iff m).mpr (Or.inl hm))
  have hposition := Position.decode_toJson ⟨room + 1, surplus⟩ ⟨room, surplus⟩ n.position rfl
    fun m hm => hback m ((n.mem_numbers_iff m).mpr (Or.inr hm))
  rw [decode_document, Kind.ofLabel?_label, hconfig, hposition]
  rfl

end Node

namespace Graph

/-- A graph is found again in the text that is stored. -/
def Recovers (g : Graph) : Prop := ofText? g.toJson.compact = some g

/-- Graphs that are found again are told apart by their texts. -/
theorem compact_eq_iff (g h : Graph) (hg : g.Recovers) (hh : h.Recovers) :
    g.toJson.compact = h.toJson.compact ↔ g = h := by
  constructor
  · intro heq
    rw [Recovers, heq] at hg
    exact Option.some.inj (hg.symm.trans hh)
  · intro heq
    rw [heq]

/-- Every binary64 number in a graph is found again in its text. -/
def ReadsBack (g : Graph) : Prop :=
  ∀ x, .real x ∈ g.toJson.numbers → (Number.real x).ReadsBack

/-- The numbers in a graph are those of its nodes. -/
theorem mem_numbers_iff (g : Graph) (m : Number) :
    m ∈ g.toJson.numbers ↔ ∃ n ∈ g.nodes, m ∈ n.toJson.numbers := by
  have hedges : ∀ edges : List Edge, Json.numbersOfItems (edges.map Edge.toJson) = [] := by
    intro edges
    induction edges with
    | nil => rfl
    | cons edge rest ih => exact ih
  have hnumbers : g.toJson.numbers = Json.numbersOfItems (g.nodes.map Node.toJson) ++
      (Json.numbersOfItems (g.edges.map Edge.toJson) ++ []) := rfl
  rw [hnumbers, hedges, List.append_nil, List.append_nil, Json.mem_numbersOfItems_iff]
  simp only [List.mem_map, exists_exists_and_eq_and]

/-- The numbers in a graph are found again when the integers in its configs
    fit. -/
theorem numbers_readBack_of_fits (g : Graph)
    (hfits : ∀ n ∈ g.nodes, ∀ m ∈ Json.numbersOfMembers n.config, m.Fits) (hback : g.ReadsBack) :
    ∀ m ∈ g.toJson.numbers, m.ReadsBack := by
  intro m hm
  rcases (g.mem_numbers_iff m).mp hm with ⟨n, hn, hnode⟩
  have hreal : ∀ x, m = .real x → (Number.real x).ReadsBack := fun x hx => hback x (hx ▸ hm)
  rcases (n.mem_numbers_iff m).mp hnode with hconfig | hposition
  · exact m.readsBack_of_fits (hfits n hn m hconfig) hreal
  -- The place of a node has no integers.
  · cases m with
    | real x => exact hreal x rfl
    | int i =>
        have hplace : n.position.toJson.numbers = [.real n.position.x, .real n.position.y] := rfl
        rw [hplace] at hposition
        simp only [List.mem_cons, reduceCtorEq, List.not_mem_nil, or_self] at hposition

theorem numbers_readBack (g : Graph) (hkept : g.Kept) (hback : g.ReadsBack) :
    ∀ m ∈ g.toJson.numbers, m.ReadsBack :=
  g.numbers_readBack_of_fits (fun n hn => Json.fits_of_keptMembers _ _ (hkept n hn).2) hback

/-- The document of a graph has its nodes and its edges where they are looked
    for. -/
theorem decode_document (g : Graph) :
    decode Scope.text g.toJson.document = do
      return ⟨← (Json.documentsOfItems (g.nodes.map Node.toJson)).mapM
          (Node.decode ⟨configRoom + 2, false⟩),
        ← (Json.documentsOfItems (g.edges.map Edge.toJson)).mapM
          (Edge.decode ⟨configRoom + 2, false⟩)⟩ :=
  rfl

/-- A graph that is kept is read from its document. -/
theorem decode_toJson (g : Graph) (hkept : g.Kept) (hback : g.ReadsBack) :
    decode Scope.text g.toJson.document = some g := by
  have hall := g.numbers_readBack hkept hback
  have hnodes : (Json.documentsOfItems (g.nodes.map Node.toJson)).mapM
      -- Each node and each edge is read again on its own.
      (Node.decode ⟨configRoom + 2, false⟩) = some g.nodes := by
    rw [Json.documentsOfItems_eq, List.map_map]
    apply Decoder.mapM_map
    intro n hn
    exact n.decode_toJson configRoom false (hkept n hn) fun m hm =>
      hall m ((g.mem_numbers_iff m).mpr ⟨n, hn, hm⟩)
  have hedges : (Json.documentsOfItems (g.edges.map Edge.toJson)).mapM
      (Edge.decode ⟨configRoom + 2, false⟩) = some g.edges := by
    rw [Json.documentsOfItems_eq, List.map_map]
    exact Decoder.mapM_map _ _ _ fun e _ => rfl
  rw [decode_document, hnodes, hedges]
  rfl

theorem isLiteral_of_mem_numbers (g : Graph) (hkept : g.Kept) (hback : g.ReadsBack) :
    ∀ m ∈ g.toJson.numbers, m.IsLiteral :=
  fun m hm => (g.numbers_readBack hkept hback m hm).1

/-- A graph that is kept is read from the text that is stored. -/
theorem recovers_of_kept (g : Graph) (hkept : g.Kept) (hback : g.ReadsBack) : g.Recovers := by
  rw [Recovers, ofText?, Decoder.ofText?,
    Json.read?_compact g.toJson (g.isLiteral_of_mem_numbers hkept hback), Option.bind_eq_bind,
    Option.bind_some]
  exact g.decode_toJson hkept hback

/-- A graph that is kept is read from the text that is laid out for people. -/
theorem ofText?_toText (g : Graph) (hkept : g.Kept) (hback : g.ReadsBack) :
    ofText? g.toText = some g := by
  rw [ofText?, toText, Decoder.ofText?,
    Json.read?_pretty g.toJson (g.isLiteral_of_mem_numbers hkept hback), Option.bind_eq_bind,
    Option.bind_some]
  exact g.decode_toJson hkept hback

end Graph

end Workflow
