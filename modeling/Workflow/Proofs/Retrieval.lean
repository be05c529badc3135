import Workflow.Proofs.Editing
import Workflow.Proofs.Nesting

/-!
# Saved Graphs That Are Not Found Again

What is loaded of a graph that was saved from an editing session.

A config comes into a session as a value of its own, and nothing there asks how
deep it is nested. In the text that is stored, four more arrays and objects are
open around each value of a config, and the reader opens a limited number. So
whether a saved graph is found again is a question of room (`Graph.FitsRoom`),
and of nothing else: whatever edits a session has seen, its configs hold values
that a program can hold (`Held.proper`), and such values are read from their
text when there is room for them.

A save does not ask the question. It accepts any graph, and a graph for which
there is no room is lost by it where texts are kept, though not where graphs are
(`Held.found_iff`, `boxing_lost`). It stays lost until it is saved again, for
nothing but a save or a removal changes what a load reads (`content_after`).

## Main definitions

* `Config.Proper`, `Graph.Proper`: The configs hold values that a program can
  hold.
* `Graph.FitsRoom`: There is room for every value of a config.
* `Session.Edit.Proper`: An edit brings such values.
* `Session.Held`: The sessions that such edits lead to.
* `Operation.overwrites`: An operation changes what is loaded.

## Theorems

* `Graph.kept_iff`: What a reader keeps of a graph.
* `Graph.Proper.recovers`, `Graph.Proper.unreadable`: When a graph is read from
  its text, and when nothing is.
* `perform_proper`, `Held.proper`: Edits keep configs proper.
* `Store.exists_saved`: A save does not ask for room.
* `Store.content_after`: What is stored stays until it is overwritten.
* `Store.content_of_save_memory`: What is stored where graphs are kept.
* `Held.found_iff`: When a saved graph is found again.
* `boxing_lost`: A graph that is saved and lost.
-/

namespace Workflow

namespace Config

/-- A config holds values that a program can hold. -/
def Proper (config : Config) : Prop :=
  config.Ordered ∧ ∀ member ∈ config, member.2.Proper

end Config

namespace Graph

/-- The configs of a graph are proper. -/
def Proper (g : Graph) : Prop := ∀ n ∈ g.nodes, n.config.Proper

/-- There is room in the text of a graph for every value of a config. -/
def FitsRoom (g : Graph) : Prop :=
  ∀ n ∈ g.nodes, ∀ member ∈ n.config, member.2.depth ≤ configRoom

instance (g : Graph) : Decidable g.FitsRoom :=
  inferInstanceAs (Decidable (∀ n ∈ g.nodes, ∀ member ∈ n.config, member.2.depth ≤ configRoom))

theorem kept_iff (g : Graph) : g.Kept ↔ g.Proper ∧ g.FitsRoom := by
  have hnode : ∀ n : Node, n.Kept configRoom ↔
      n.config.Proper ∧ ∀ member ∈ n.config, member.2.depth ≤ configRoom := by
    intro n
    simp only [Node.Kept, Json.keptMembers_iff, Json.kept_iff, Config.Proper, forall_and,
      and_assoc]
  simp only [Kept, Proper, FitsRoom, hnode, forall_and]

/-- The numbers in a graph with proper configs are found again. -/
theorem Proper.numbers_readBack {g : Graph} (hg : g.Proper) (hback : g.ReadsBack) :
    ∀ m ∈ g.toJson.numbers, m.ReadsBack := by
  refine g.numbers_readBack_of_fits (fun n hn m hm => ?_) hback
  rcases (Json.mem_numbersOfMembers_iff _ _).mp hm with ⟨member, hmember, hnumber⟩
  exact ((hg n hn).2 member hmember).fits m hnumber

/-- A node is not read when a value in its config is nested too deep. -/
theorem depth_le_of_decode_node (room : Nat) (surplus : Bool) (n other : Node)
    (h : Node.decode ⟨room + 2, surplus⟩ n.toJson.document = some other) :
    ∀ member ∈ n.config, member.2.depth ≤ room := by
  rw [Node.decode_document] at h
  rcases Option.bind_eq_some_iff.mp h with ⟨_, -, h⟩
  rcases Option.bind_eq_some_iff.mp h with ⟨config, hconfig, -⟩
  exact Decoder.depth_le_of_entries room surplus n.config config hconfig

/-- A graph is not read when a value in a config is nested too deep. -/
theorem fitsRoom_of_decode (g other : Graph)
    (h : decode Scope.text g.toJson.document = some other) : g.FitsRoom := by
  rw [decode_document] at h
  rcases Option.bind_eq_some_iff.mp h with ⟨nodes, hnodes, -⟩
  rw [Json.documentsOfItems_eq, List.map_map] at hnodes
  intro n hn
  rcases Decoder.item_of_mapM _ _ _ hnodes _ (List.mem_map_of_mem hn) with ⟨node, hnode⟩
  exact depth_le_of_decode_node configRoom false n node hnode

/-- A graph whose configs are proper is read from its text when there is room for
    it there. -/
theorem Proper.recovers {g : Graph} (hg : g.Proper) (hback : g.ReadsBack) (hroom : g.FitsRoom) :
    g.Recovers :=
  g.recovers_of_kept (g.kept_iff.mpr ⟨hg, hroom⟩) hback

/-- When there is no room for it, nothing is read from its text. -/
theorem Proper.unreadable {g : Graph} (hg : g.Proper) (hback : g.ReadsBack)
    (hroom : ¬ g.FitsRoom) : ofText? g.toJson.compact = none := by
  have hliteral : ∀ m ∈ g.toJson.numbers, m.IsLiteral := fun m hm =>
    (hg.numbers_readBack hback m hm).1
  rw [ofText?, Decoder.ofText?, Json.read?_compact g.toJson hliteral, Option.bind_eq_bind,
    Option.bind_some]
  cases h : decode Scope.text g.toJson.document with
  | none => rfl
  | some other => exact absurd (g.fitsRoom_of_decode other h) hroom

end Graph

namespace Kind

/-- What is set for a new node is proper. -/
theorem proper_defaultConfig (k : Kind) : Config.Proper k.defaultConfig := by
  have hdefaults : ∀ k ∈ all, ∀ member ∈ k.defaultConfig,
      member.2.document.toJson? 0 = some member.2 := by
    decide +kernel
  refine ⟨Entries.ordered_ofList _, fun member hmember => ⟨0, ?_⟩⟩
  exact Document.kept_of_toJson? 0 _ _ (hdefaults k k.mem_all member hmember)

end Kind

namespace Config

/-- A proper config stays proper when proper values are added. -/
theorem Proper.merge {config : Config} (h : config.Proper) (added : List (String × Json))
    (hadded : ∀ member ∈ added, member.2.Proper) : Proper (Entries.merge config added) := by
  refine ⟨Entries.ordered_merge h.1 added, fun member hmember => ?_⟩
  rcases Entries.mem_of_mem_merge config added member hmember with hold | hnew
  · exact h.2 member hold
  · exact hadded member hnew

end Config

namespace Session

/-- An edit brings proper values. -/
def Edit.Proper : Edit → Prop
  | addNode _ _ config => ∀ member ∈ config, member.2.Proper
  | insertNode n => n.config.Proper
  | updateConfig _ config => config.Proper
  | _ => True

/-- The sessions that edits with proper values lead to, from a new one or from
    one over a stored graph. -/
inductive Held : Session → Prop
  | new : Held {}
  | loaded (g : Graph) (s : Session) (hg : g.Proper) (h : ofGraph g = .ok s) : Held s
  | edited (s : Session) (e : Edit) (h : Held s) (he : e.Proper) : Held (s.after e)

theorem mem_changeFirst (id : NodeId) (change : Node → Node) (nodes : List Node) (n : Node)
    (h : n ∈ changeFirst id change nodes) : n ∈ nodes ∨ ∃ m ∈ nodes, n = change m := by
  induction nodes with
  | nil => exact Or.inl h
  | cons first rest ih =>
      rw [changeFirst] at h
      by_cases hid : first.id = id
      · rw [if_pos hid] at h
        rcases List.mem_cons.mp h with heq | hrest
        · exact Or.inr ⟨first, List.mem_cons_self, heq⟩
        · exact Or.inl (List.mem_cons_of_mem _ hrest)
      · rw [if_neg hid] at h
        rcases List.mem_cons.mp h with heq | hrest
        · exact Or.inl (heq ▸ List.mem_cons_self)
        · rcases ih hrest with hold | ⟨m, hm, heq⟩
          · exact Or.inl (List.mem_cons_of_mem _ hold)
          · exact Or.inr ⟨m, List.mem_cons_of_mem _ hm, heq⟩

theorem insertNode_proper (s s' : Session) (hs : s.graph.Proper) (n : Node)
    (hn : n.config.Proper) (h : s.insertNode n = .ok s') : s'.graph.Proper := by
  rw [insertNode] at h
  -- The id and the kind may be refused, the config is not looked at.
  split at h
  · cases h
  · cases hkind : s.graph.checkKind n.kind with
    | error r =>
        rw [hkind] at h
        cases h
    | ok _ =>
        rw [hkind] at h
        rw [← Except.ok.inj h]
        intro m hm
        rcases List.mem_append.mp hm with hold | hnew
        · exact hs m hold
        · rw [List.mem_singleton.mp hnew]
          exact hn

/-- A node that is changed gets a proper config when it has one. -/
theorem changeNode_proper (s s' : Session) (hs : s.graph.Proper) (id : NodeId)
    (change : Node → Node) (hchange : ∀ n : Node, n.config.Proper → (change n).config.Proper)
    (h : s.changeNode id change = .ok s') : s'.graph.Proper := by
  rw [changeNode] at h
  split at h
  · rw [← Except.ok.inj h]
    intro n hn
    rcases mem_changeFirst id change s.graph.nodes n hn with hold | ⟨m, hm, heq⟩
    · exact hs n hold
    · rw [heq]
      exact hchange m (hs m hm)
  · cases h

/-- An edit with proper values keeps the configs proper. -/
theorem perform_proper (s s' : Session) (hs : s.graph.Proper) (e : Edit) (he : e.Proper)
    (h : s.perform e = .ok s') : s'.graph.Proper := by
  cases e with
  | addNode fresh kind config =>
      exact s.insertNode_proper s' hs _ (kind.proper_defaultConfig.merge config he) h
  | insertNode n => exact s.insertNode_proper s' hs n he h
  | removeNode id =>
      -- Nodes are taken away at most.
      rw [← Except.ok.inj h, removeNode]
      split
      · exact fun n hn => hs n (List.mem_of_mem_filter hn)
      · exact hs
  | addEdge source target =>
      -- An edge changes no node.
      rw [perform, addEdge] at h
      cases hedge : s.graph.checkEdge source target with
      | error r =>
          rw [hedge] at h
          cases h
      | ok _ =>
          rw [hedge] at h
          rw [← Except.ok.inj h]
          exact hs
  | removeEdge source target =>
      rw [← Except.ok.inj h]
      exact hs
  | updateConfig id config =>
      exact s.changeNode_proper s' hs id (fun n => { n with config := config }) (fun _ _ => he) h
  | moveNode id position =>
      exact s.changeNode_proper s' hs id (fun n => { n with position := position })
        (fun _ hn => hn) h

/-- The configs in a session are proper, whatever was done to it. -/
theorem Held.proper {s : Session} (h : Held s) : s.graph.Proper := by
  induction h with
  | new => exact fun n hn => absurd hn List.not_mem_nil
  | loaded g s hg hload =>
      rw [((ofGraph_eq_ok_iff g s).mp hload).2]
      exact hg
  | edited s e _ he ih =>
      rw [after, s.call_eq e]
      cases hperform : s.perform e with
      | ok s' => exact s.perform_proper s' ih e he hperform
      | error r => exact ih

/-- Many edits lead from one session to another. -/
theorem Held.foldl (edits : List Edit) (hedits : ∀ e ∈ edits, e.Proper) (s : Session)
    (h : Held s) : Held (edits.foldl after s) := by
  induction edits generalizing s with
  | nil => exact h
  | cons e rest ih =>
      rw [List.forall_mem_cons] at hedits
      exact ih hedits.2 (s.after e) (.edited s e h hedits.1)

end Session

/-- An operation changes what is stored under an id. -/
def Operation.overwrites (id : String) : Operation → Prop
  | save other _ _ _ | delete other => other = id
  | _ => False

namespace Store

/-- What is stored under an id stays when it is not overwritten. -/
theorem content_perform (s : Store) (now : Instant) (operation : Operation) (id : String)
    (h : ¬ operation.overwrites id) :
    ((s.perform now operation).2.row? id).map Row.content = (s.row? id).map Row.content := by
  by_cases hid : operation.id? = some id
  · cases operation with
    | load other =>
        rw [perform]
        cases s.load other <;> rfl
    | save other title graph expected => exact absurd (Option.some.inj hid) h
    | list => rfl
    | delete other => exact absurd (Option.some.inj hid) h
    | markPublished other version =>
        have hmarks := s.marks now other version
        rw [perform]
        revert hmarks
        rcases s.markPublished now other version with e | ⟨record, s'⟩
        · exact fun _ => rfl
        -- Publishing changes the record of a row, and nothing of its content.
        · rintro (_ | _ | _)
          rw [s.row?_stamp, Option.some.inj hid, if_pos rfl, Option.map_map]
          rfl
  · rw [(s.sameAt_perform now operation hid).row?_eq]

theorem content_after (s : Store) (ops : List (Instant × Operation)) (id : String)
    (h : ∀ entry ∈ ops, ¬ entry.2.overwrites id) :
    ((s.after ops).row? id).map Row.content = (s.row? id).map Row.content := by
  induction ops generalizing s with
  | nil => rfl
  | cons entry rest ih =>
      rw [List.forall_mem_cons] at h
      rw [after, ih _ h.2, s.content_perform entry.1 entry.2 id h.1]

/-- A save is accepted that was made from no other version, whatever it brings. -/
theorem exists_saved (s : Store) (now : Instant) (id title : String) (g : Graph)
    (expected : Option Nat) (h : ∀ v, expected = some v → v = s.versionOf id) :
    ∃ version s', s.save now id title g expected = .ok (version, s') := by
  have hsaves := s.saves now id title g expected
  generalize s.save now id title g expected = r at hsaves
  cases hsaves with
  | refused v hexpected hother => exact absurd (h v hexpected) hother
  | unchanged => exact ⟨_, _, rfl⟩
  | changed => exact ⟨_, _, rfl⟩

/-- What is stored under an id when a save has answered, in a store that keeps
    graphs. -/
theorem content_of_save_memory (t : Table Graph) (now : Instant) (id title : String) (g : Graph)
    (expected : Option Nat) (version : Nat) (s : Store)
    (h : (memory t).save now id title g expected = .ok (version, s)) :
    ∃ kept : Graph, kept.same g = true ∧
      (s.row? id).map Row.content = some (title, some kept, version) := by
  have hsaves := (memory t).saves now id title g expected
  rw [h] at hsaves
  cases hsaves with
  | unchanged _ hholds =>
      -- What is kept is the graph that was there, and it is the same one.
      rcases (t.holds_iff id title g).mp hholds with ⟨row, hrow, hsame, htitle⟩
      refine ⟨row.body, hsame, ?_⟩
      rw [row?, Table.row?, versionOf, Table.versionOf, hrow, ← htitle]
      rfl
  | changed =>
      refine ⟨g, g.same_self, ?_⟩
      rw [row?_renew, if_pos rfl]
      rfl

end Store

namespace Session

/-- What was saved from a session is loaded, as long as it is not overwritten, if
    there is room for every value of a config. A store that keeps texts accepts a
    graph for which there is none, and refuses to load it afterwards. A store in
    memory loads either. -/
theorem Held.found_iff {s : Session} (hs : Held s) (hback : s.graph.ReadsBack) (now : Instant)
    (id title : String) (expected : Option Nat) (version : Nat) (st : Store)
    (ops : List (Instant × Operation)) (hops : ∀ entry ∈ ops, ¬ entry.2.overwrites id) :
    (∀ t, (Store.text t).save now id title s.graph expected = .ok (version, st) →
        ((∃ stored, (st.after ops).load id = .ok stored ∧ stored.graph = s.graph ∧
            stored.title = title ∧ stored.version = version) ↔ s.graph.FitsRoom) ∧
          (¬ s.graph.FitsRoom →
            (st.after ops).load id = .error (.malformed "stored graph cannot be read"))) ∧
      ∀ t, (Store.memory t).save now id title s.graph expected = .ok (version, st) →
        ∃ stored, (st.after ops).load id = .ok stored ∧ stored.graph.same s.graph = true ∧
          stored.title = title ∧ stored.version = version := by
  -- Whatever comes later does not touch what is stored under the id.
  have hstays := st.content_after ops id hops
  refine ⟨fun t hsave => ?_, fun t hsave => ?_⟩
  · have hcontent := Store.content_of_save_text t now id title s.graph expected version st hsave
    rcases (st.after ops).load_of_content id title version _ (hstays.trans hcontent) with
      ⟨hfound, hlost⟩
    -- A text that does not fit the room is stored, but never read.
    have hrefused : ¬ s.graph.FitsRoom →
        (st.after ops).load id = .error (.malformed "stored graph cannot be read") :=
      fun hroom => hlost (hs.proper.unreadable hback hroom)
    refine ⟨⟨?_, fun hroom => hfound s.graph (hs.proper.recovers hback hroom)⟩, hrefused⟩
    rintro ⟨stored, hload, -⟩
    by_contra hroom
    rw [hrefused hroom] at hload
    exact nomatch hload
  -- In memory the graph is kept, or one that was taken for the same.
  · rcases Store.content_of_save_memory t now id title s.graph expected version st hsave with
      ⟨kept, hsame, hcontent⟩
    rcases ((st.after ops).load_of_content id title version _ (hstays.trans hcontent)).1 kept rfl
      with ⟨stored, hload, hgraph, htitle, hversion⟩
    exact ⟨stored, hload, by rw [hgraph, hsame], htitle, hversion⟩

/-- A text in so many arrays, one inside of the other. -/
def boxed : Nat → Json
  | 0 => .string "x"
  | n + 1 => .array [boxed n]

theorem boxed_proper (n : Nat) : (boxed n).Proper := by
  refine ⟨n, ?_⟩
  induction n with
  | zero => exact trivial
  | succ n ih => exact ⟨ih, trivial⟩

/-- A session with a step that has a nested setting, among others. -/
def boxing (n : Nat) : Session :=
  List.foldl after {}
    [.addNode "a" .wait [("k", boxed n)], .addNode "b" .gpt4o [],
      .moveNode "a" ⟨Binary64.half, Binary64.zero true⟩, .addEdge "b" "a",
      .updateConfig "b" [("z", .number (.int (-7)))]]

theorem boxing_held (n : Nat) : Held (boxing n) := by
  refine Held.new.foldl _ ?_ _
  simp only [List.forall_mem_cons]
  refine ⟨?_, nofun, trivial, trivial, ?_, fun e he => absurd he List.not_mem_nil⟩
  · intro member hmember
    rw [List.mem_singleton.mp hmember]
    exact boxed_proper n
  · refine ⟨List.pairwise_singleton _ _, fun member hmember => ⟨0, ?_⟩⟩
    rw [List.mem_singleton.mp hmember]
    exact ⟨by decide, by decide⟩

theorem boxing_readsBack (n : Nat) (h : ∀ m ∈ (boxing n).graph.toJson.numbers, m.ReadsBack) :
    (boxing n).graph.ReadsBack :=
  fun x hx => h (.real x) hx

/-- What happens to a store in which a graph is not overwritten. -/
def meanwhile : List (Instant × Operation) :=
  [(⟨0, 1⟩, .list), (⟨0, 2⟩, .markPublished "g" 1), (⟨0, 3⟩, .save "h" "t" {} none),
    (⟨0, 4⟩, .delete "f"), (⟨0, 5⟩, .load "g")]

/-- As deep as there is room. -/
theorem boxing_found : ∃ version st,
    (Store.text []).save ⟨0, 0⟩ "g" "t" (boxing 123).graph none = .ok (version, st) ∧
      ∃ stored, (st.after meanwhile).load "g" = .ok stored ∧ stored.graph = (boxing 123).graph ∧
        stored.title = "t" ∧ stored.version = version := by
  have hback : (boxing 123).graph.ReadsBack := boxing_readsBack 123 (by decide +kernel)
  have hroom : (boxing 123).graph.FitsRoom := by decide +kernel
  have hops : ∀ entry ∈ meanwhile, ¬ entry.2.overwrites "g" := by
    simp only [meanwhile, List.forall_mem_cons, Operation.overwrites]
    exact ⟨id, id, by decide, by decide, id, nofun⟩
  rcases Store.exists_saved (.text []) ⟨0, 0⟩ "g" "t" (boxing 123).graph none nofun with
    ⟨version, st, hsave⟩
  have hfound := (Held.found_iff (boxing_held 123) hback ⟨0, 0⟩ "g" "t" none version st meanwhile
    hops).1 [] hsave
  exact ⟨version, st, hsave, hfound.1.mpr hroom⟩

/-- One array more, and what was saved is lost, with nothing in between. A store
    in memory gives it back. -/
theorem boxing_lost : Held (boxing 124) ∧ (boxing 124).graph.ReadsBack ∧
    (∃ version st, (Store.text []).save ⟨0, 0⟩ "g" "t" (boxing 124).graph none =
        .ok (version, st) ∧
      st.load "g" = .error (.malformed "stored graph cannot be read")) ∧
    ((Store.memory []).turns [(⟨0, 0⟩, .save "g" "t" (boxing 124).graph none),
      (⟨0, 1⟩, .load "g")]).map Turn.answer =
        [.saved 1, .loaded ⟨"g", "t", (boxing 124).graph, 1, {}, ⟨0, 0⟩⟩] := by
  have hback : (boxing 124).graph.ReadsBack := boxing_readsBack 124 (by decide +kernel)
  have hroom : ¬ (boxing 124).graph.FitsRoom := by decide +kernel
  have hmemory : ∀ g : Graph, ((Store.memory []).turns [(⟨0, 0⟩, .save "g" "t" g none),
      (⟨0, 1⟩, .load "g")]).map Turn.answer = [.saved 1, .loaded ⟨"g", "t", g, 1, {}, ⟨0, 0⟩⟩] :=
    fun _ => rfl
  refine ⟨boxing_held 124, hback, ?_, hmemory _⟩
  rcases Store.exists_saved (.text []) ⟨0, 0⟩ "g" "t" (boxing 124).graph none nofun with
    ⟨version, st, hsave⟩
  have hcontent := Store.content_of_save_text [] ⟨0, 0⟩ "g" "t" (boxing 124).graph none version st
    hsave
  exact ⟨version, st, hsave, (st.load_of_content "g" "t" version _ hcontent).2
    ((boxing_held 124).proper.unreadable hback hroom)⟩

end Session

end Workflow
