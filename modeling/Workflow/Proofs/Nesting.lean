import Workflow.Proofs.Rereading

/-!
# Values That Are Nested

How deep a value may be nested to be read from its text.

A program can hold values that are nested as deep as anybody likes. What the
reader asks beyond that of a value is only room: of the values that some reader
keeps (`Json.Proper`), it keeps those that are not nested deeper than it has
room for (`kept_iff`). And the text of a value that is nested deeper is not read
at all, by a reader with too little room for it, as a value or as another one
(`depth_le_of_toJson?`).

## Main definitions

* `Json.Proper`: A value that a program can hold.

## Theorems

* `Json.kept_iff`: What a reader keeps.
* `Json.depth_le_of_toJson?`: What is nested too deep is not read.
* `Decoder.depth_le_of_entries`: The same for a free-form object.
* `Decoder.item_of_mapM`, `Decoder.item_of_entries`: Items that are read
  together are read one by one.
-/

namespace Workflow

namespace Json

/-- A value is one that a program can hold: its integers fit in 64 bits and the
    keys of its objects ascend. A reader keeps it, if it has enough room. -/
def Proper (v : Json) : Prop := ∃ room, v.Kept room

mutual

/-- What some reader keeps is kept by every reader that has room for what is
    nested in it. -/
theorem kept_of_depth_le (room other : Nat) (v : Json) (h : v.Kept other)
    (hdepth : v.depth ≤ room) : v.Kept room := by
  -- The room is never less than the depth, so it does not run out first.
  match v with
  | .null | .bool _ | .string _ => exact trivial
  | .number _ => exact h
  | .array items =>
      cases other with
      | zero => exact absurd h id
      | succ other =>
          cases room with
          | zero => exact absurd hdepth (Nat.not_succ_le_zero _)
          | succ room =>
              exact keptItems_of_depth_le room other items h (Nat.le_of_succ_le_succ hdepth)
  | .object members =>
      cases other with
      | zero => exact absurd h id
      | succ other =>
          cases room with
          | zero => exact absurd hdepth (Nat.not_succ_le_zero _)
          | succ room =>
              exact ⟨h.1,
                keptMembers_of_depth_le room other members h.2 (Nat.le_of_succ_le_succ hdepth)⟩
termination_by sizeOf v

theorem keptItems_of_depth_le (room other : Nat) (items : List Json) (h : KeptItems other items)
    (hdepth : depthItems items ≤ room) : KeptItems room items := by
  match items with
  | [] => exact trivial
  | item :: rest =>
      rw [depthItems, Nat.max_le] at hdepth
      exact ⟨kept_of_depth_le room other item h.1 hdepth.1,
        keptItems_of_depth_le room other rest h.2 hdepth.2⟩
termination_by sizeOf items

theorem keptMembers_of_depth_le (room other : Nat) (members : List (String × Json))
    (h : KeptMembers other members) (hdepth : depthMembers members ≤ room) :
    KeptMembers room members := by
  match members with
  | [] => exact trivial
  | (_, value) :: rest =>
      rw [depthMembers, Nat.max_le] at hdepth
      exact ⟨kept_of_depth_le room other value h.1 hdepth.1,
        keptMembers_of_depth_le room other rest h.2 hdepth.2⟩
termination_by sizeOf members

end

/-- What a reader keeps are the proper values that are not nested deeper than it
    has room for. -/
theorem kept_iff (room : Nat) (v : Json) : v.Kept room ↔ v.Proper ∧ v.depth ≤ room := by
  constructor
  · exact fun h => ⟨⟨room, h⟩, depth_le_of_kept room v h⟩
  · rintro ⟨⟨other, h⟩, hdepth⟩
    exact kept_of_depth_le room other v h hdepth

mutual

/-- What is nested deeper in a text than a reader has room for is not read. -/
theorem depth_le_of_toJson? (room : Nat) (v w : Json) (h : v.document.toJson? room = some w) :
    v.depth ≤ room := by
  match v with
  | .null | .bool _ | .number _ | .string _ => exact Nat.zero_le room
  | .array items =>
      cases room with
      | zero => exact absurd h nofun
      | succ room =>
          rcases Option.map_eq_some_iff.mp h with ⟨found, hfound, -⟩
          exact Nat.succ_le_succ (depthItems_le_of_toJson? room items found hfound)
  | .object members =>
      cases room with
      | zero => exact absurd h nofun
      | succ room =>
          rcases Option.map_eq_some_iff.mp h with ⟨found, hfound, -⟩
          exact Nat.succ_le_succ (depthMembers_le_of_toJson? room members found hfound)
termination_by sizeOf v

theorem depthItems_le_of_toJson? (room : Nat) (items found : List Json)
    (h : Document.itemsToJson? room (documentsOfItems items) = some found) :
    depthItems items ≤ room := by
  match items with
  | [] => exact Nat.zero_le room
  | item :: rest =>
      rcases Option.bind_eq_some_iff.mp h with ⟨first, hfirst, h⟩
      rcases Option.bind_eq_some_iff.mp h with ⟨others, hothers, -⟩
      exact Nat.max_le.mpr ⟨depth_le_of_toJson? room item first hfirst,
        depthItems_le_of_toJson? room rest others hothers⟩
termination_by sizeOf items

theorem depthMembers_le_of_toJson? (room : Nat) (members found : List (String × Json))
    (h : Document.membersToJson? room (documentsOfMembers members) = some found) :
    depthMembers members ≤ room := by
  match members with
  | [] => exact Nat.zero_le room
  | (key, value) :: rest =>
      rcases Option.bind_eq_some_iff.mp h with ⟨first, hfirst, h⟩
      rcases Option.bind_eq_some_iff.mp h with ⟨others, hothers, -⟩
      exact Nat.max_le.mpr ⟨depth_le_of_toJson? room value first hfirst,
        depthMembers_le_of_toJson? room rest others hothers⟩
termination_by sizeOf members

end

/-- The numbers in a proper value fit. -/
theorem Proper.fits {v : Json} (h : v.Proper) (n : Number) (hn : n ∈ v.numbers) : n.Fits := by
  rcases h with ⟨room, hkept⟩
  exact fits_of_kept room v hkept n hn

end Json

namespace Decoder

variable {α β : Type}

/-- When items are read together, each of them is. -/
theorem item_of_mapM (read : β → Option α) (sources : List β) (items : List α)
    (h : sources.mapM read = some items) (source : β) (hsource : source ∈ sources) :
    ∃ item, read source = some item := by
  induction sources generalizing items with
  | nil => exact absurd hsource List.not_mem_nil
  | cons first rest ih =>
      rw [List.mapM_cons] at h
      rcases Option.bind_eq_some_iff.mp h with ⟨item, hitem, h⟩
      rcases Option.bind_eq_some_iff.mp h with ⟨others, hothers, -⟩
      rcases List.mem_cons.mp hsource with rfl | hmem
      · exact ⟨item, hitem⟩
      · exact ih others hothers hmem

/-- When a free-form object is read, each of its values is. -/
theorem item_of_entries (read : Decoder α) (room : Nat) (surplus : Bool)
    (members : List (String × Json)) (found : Entries α)
    (h : entries read ⟨room + 1, surplus⟩ (.object (Json.documentsOfMembers members)) =
      some found) (member : String × Json) (hmember : member ∈ members) :
    ∃ item, read ⟨room, surplus⟩ member.2.document = some item := by
  rcases Option.bind_eq_some_iff.mp h with ⟨list, hlist, -⟩
  rw [Json.documentsOfMembers_eq] at hlist
  rcases item_of_mapM _ _ _ hlist _ (List.mem_map_of_mem hmember) with ⟨item, hitem⟩
  rcases Option.bind_eq_some_iff.mp hitem with ⟨_, -, hitem⟩
  rcases Option.bind_eq_some_iff.mp hitem with ⟨value, hvalue, -⟩
  exact ⟨value, hvalue⟩

/-- A free-form object is not read when a value in it is nested too deep. -/
theorem depth_le_of_entries (room : Nat) (surplus : Bool) (members : List (String × Json))
    (found : Entries Json)
    (h : entries json ⟨room + 1, surplus⟩ (.object (Json.documentsOfMembers members)) =
      some found) : ∀ member ∈ members, member.2.depth ≤ room := by
  intro member hmember
  rcases item_of_entries json room surplus members found h member hmember with ⟨value, hvalue⟩
  exact Json.depth_le_of_toJson? room member.2 value hvalue

end Decoder

end Workflow
