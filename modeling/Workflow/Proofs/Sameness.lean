import Workflow.Proofs.Recovery

/-!
# Values That Are the Same

When values are the same and when they are equal. The comparison by which
a snapshot is found again takes the two zeros for one, as machine numbers do,
and there is nothing else that it passes over: among values in which there is
no negative zero, the same ones are equal. This is carried up from numbers to
values, nodes and graphs.

## Theorems

* `Binary64.eq_of_same`: Different numbers are the same only as the two zeros.
* `Json.same_self`, `Json.eq_of_same`: Values that are the same.
* `Graph.same_self`, `Graph.eq_of_same`: Graphs that are the same.
-/

namespace Workflow

namespace Binary64

theorem same_self (x : Binary64) : x.same x = true := by
  rw [same, beq_self_eq_true, Bool.true_or]

/-- A zero has nothing but its sign. -/
theorem eq_zero_of_isZero (x : Binary64) (h : x.isZero = true) : x = zero x.negative := by
  rcases x with ⟨negative, exponent, fraction⟩
  have hsignificand := beq_iff_eq.mp h
  rw [significand] at hsignificand
  simp only at hsignificand
  split at hsignificand
  · rename_i hexponent
    have hfields : exponent = 0 ∧ fraction = 0 := ⟨Fin.ext hexponent, Fin.ext hsignificand⟩
    rw [hfields.1, hfields.2]
    rfl
  · omega

/-- Of numbers that are the same, two are different only as the two zeros. -/
theorem eq_of_same (x y : Binary64) (h : x.same y = true) (hx : x ≠ zero true)
    (hy : y ≠ zero true) : x = y := by
  rw [same, Bool.or_eq_true, beq_iff_eq, Bool.and_eq_true] at h
  rcases h with heq | ⟨hzerox, hzeroy⟩
  · exact heq
  · have hx0 := x.eq_zero_of_isZero hzerox
    have hy0 := y.eq_zero_of_isZero hzeroy
    have hsign : ∀ z : Binary64, z = zero z.negative → z ≠ zero true → z.negative = false := by
      intro z hz hne
      by_contra htrue
      rw [Bool.not_eq_false] at htrue
      exact hne (htrue ▸ hz)
    rw [hx0, hy0, hsign x hx0 hx, hsign y hy0 hy]

end Binary64

namespace Number

theorem same_self (n : Number) : n.same n = true := by
  cases n with
  | int i => exact beq_self_eq_true i
  | real x => exact x.same_self

theorem eq_of_same (m n : Number) (h : m.same n = true) (hm : m ≠ .real (Binary64.zero true))
    (hn : n ≠ .real (Binary64.zero true)) : m = n := by
  cases m with
  | int i =>
      cases n with
      | int j => exact congrArg Number.int (beq_iff_eq.mp h)
      | real y => exact absurd h Bool.false_ne_true
  | real x =>
      cases n with
      | int j => exact absurd h Bool.false_ne_true
      | real y =>
          exact congrArg Number.real (x.eq_of_same y h (fun hx => hm (congrArg Number.real hx))
            (fun hy => hn (congrArg Number.real hy)))

end Number

namespace Json

mutual

/-- A value is the same as itself. -/
theorem same_self (v : Json) : v.same v = true := by
  match v with
  | .null => rfl
  | .bool b => exact beq_self_eq_true b
  | .number n => exact n.same_self
  | .string s => exact beq_self_eq_true s
  | .array items => exact sameItems_self items
  | .object members => exact sameMembers_self members
termination_by sizeOf v

theorem sameItems_self (items : List Json) : sameItems items items = true := by
  match items with
  | [] => rfl
  | item :: rest => rw [sameItems, same_self item, sameItems_self rest, Bool.and_true]
termination_by sizeOf items

theorem sameMembers_self (members : List (String × Json)) : sameMembers members members = true := by
  match members with
  | [] => rfl
  | (key, value) :: rest =>
      rw [sameMembers, same_self value, sameMembers_self rest, beq_self_eq_true, Bool.and_true,
        Bool.and_true]
termination_by sizeOf members

end

mutual

/-- Values that are the same are equal, unless there is a negative zero. -/
theorem eq_of_same (v w : Json) (h : v.same w = true)
    (hv : .real (Binary64.zero true) ∉ v.numbers) (hw : .real (Binary64.zero true) ∉ w.numbers) :
    v = w := by
  match v, w, h with
  | .null, .null, _ => rfl
  | .bool b, .bool c, h => exact congrArg Json.bool (beq_iff_eq.mp h)
  | .number m, .number n, h =>
      exact congrArg Json.number (m.eq_of_same n h
        (fun hm => hv (hm ▸ List.mem_cons_self)) (fun hn => hw (hn ▸ List.mem_cons_self)))
  | .string s, .string t, h => exact congrArg Json.string (beq_iff_eq.mp h)
  | .array items, .array others, h =>
      exact congrArg Json.array (eq_of_sameItems items others h hv hw)
  | .object members, .object others, h =>
      exact congrArg Json.object (eq_of_sameMembers members others h hv hw)
termination_by sizeOf v

theorem eq_of_sameItems (items others : List Json) (h : sameItems items others = true)
    (hitems : .real (Binary64.zero true) ∉ numbersOfItems items)
    (hothers : .real (Binary64.zero true) ∉ numbersOfItems others) : items = others := by
  match items, others, h with
  | [], [], _ => rfl
  | item :: rest, other :: more, h =>
      rw [sameItems, Bool.and_eq_true] at h
      rw [numbersOfItems, List.mem_append, not_or] at hitems hothers
      rw [eq_of_same item other h.1 hitems.1 hothers.1,
        eq_of_sameItems rest more h.2 hitems.2 hothers.2]
termination_by sizeOf items

theorem eq_of_sameMembers (members others : List (String × Json))
    (h : sameMembers members others = true)
    (hmembers : .real (Binary64.zero true) ∉ numbersOfMembers members)
    (hothers : .real (Binary64.zero true) ∉ numbersOfMembers others) : members = others := by
  match members, others, h with
  | [], [], _ => rfl
  | (key, value) :: rest, (other, found) :: more, h =>
      rw [sameMembers, Bool.and_eq_true, Bool.and_eq_true, beq_iff_eq] at h
      rw [numbersOfMembers, List.mem_append, not_or] at hmembers hothers
      rw [h.1.1, eq_of_same value found h.1.2 hmembers.1 hothers.1,
        eq_of_sameMembers rest more h.2 hmembers.2 hothers.2]
termination_by sizeOf members

end

end Json

namespace Node

theorem same_self (n : Node) : n.same n = true := by
  rw [same, Position.same, Binary64.same_self, Binary64.same_self, Json.sameMembers_self]
  simp only [beq_self_eq_true, Bool.and_self]

theorem eq_of_same (m n : Node) (h : m.same n = true)
    (hm : .real (Binary64.zero true) ∉ m.toJson.numbers)
    (hn : .real (Binary64.zero true) ∉ n.toJson.numbers) : m = n := by
  rw [mem_numbers_iff, not_or] at hm hn
  simp only [same, Position.same, Bool.and_eq_true, beq_iff_eq] at h
  rcases h with ⟨⟨⟨⟨⟨hid, hkind⟩, hconfig⟩, hx, hy⟩, htitle⟩, hdescription⟩
  have hplace : ∀ p : Position, p.toJson.numbers = [.real p.x, .real p.y] := fun _ => rfl
  simp only [hplace, List.mem_cons, List.not_mem_nil, or_false, not_or, Number.real.injEq] at hm hn
  have hxs := m.position.x.eq_of_same n.position.x hx (fun h => hm.2.1 h.symm)
    (fun h => hn.2.1 h.symm)
  have hys := m.position.y.eq_of_same n.position.y hy (fun h => hm.2.2 h.symm)
    (fun h => hn.2.2 h.symm)
  have hconfigs := Json.eq_of_sameMembers m.config n.config hconfig hm.1 hn.1
  rcases m with ⟨id, kind, config, ⟨x, y⟩, title, description⟩
  rcases n with ⟨id', kind', config', ⟨x', y'⟩, title', description'⟩
  simp only at hid hkind hconfigs hxs hys htitle hdescription
  rw [hid, hkind, hconfigs, hxs, hys, htitle, hdescription]

end Node

namespace Graph

theorem sameList_self {α : Type} (eq : α → α → Bool) (items : List α)
    (h : ∀ item, eq item item = true) : sameList eq items items = true := by
  induction items with
  | nil => rfl
  | cons item rest ih => rw [sameList, h item, ih, Bool.and_true]

theorem eq_of_sameList {α : Type} (eq : α → α → Bool) (items others : List α)
    (h : sameList eq items others = true)
    (heq : ∀ item ∈ items, ∀ other ∈ others, eq item other = true → item = other) :
    items = others := by
  induction items generalizing others with
  | nil =>
      cases others with
      | nil => rfl
      | cons other more => exact absurd h Bool.false_ne_true
  | cons item rest ih =>
      cases others with
      | nil => exact absurd h Bool.false_ne_true
      | cons other more =>
          -- The first items are the same, and so are the others.
          rw [sameList, Bool.and_eq_true] at h
          have hfirst := heq item List.mem_cons_self other List.mem_cons_self h.1
          have hrest := ih more h.2 fun i hi o ho =>
            heq i (List.mem_cons_of_mem _ hi) o (List.mem_cons_of_mem _ ho)
          rw [hfirst, hrest]

/-- A graph is the same as itself. -/
theorem same_self (g : Graph) : g.same g = true := by
  rw [same, sameList_self Node.same g.nodes Node.same_self, beq_self_eq_true, Bool.and_true]

/-- Graphs that are the same are equal, unless there is a negative zero. -/
theorem eq_of_same (g h : Graph) (hsame : g.same h = true)
    (hg : .real (Binary64.zero true) ∉ g.toJson.numbers)
    (hh : .real (Binary64.zero true) ∉ h.toJson.numbers) : g = h := by
  rw [same, Bool.and_eq_true, beq_iff_eq] at hsame
  have hnodes : g.nodes = h.nodes := by
    apply eq_of_sameList Node.same _ _ hsame.1
    intro m hm n hn
    -- The numbers of a node are numbers of its graph.
    have hzerom := fun hzero => hg ((g.mem_numbers_iff _).mpr ⟨m, hm, hzero⟩)
    have hzeron := fun hzero => hh ((h.mem_numbers_iff _).mpr ⟨n, hn, hzero⟩)
    exact fun heq => m.eq_of_same n heq hzerom hzeron
  rcases g with ⟨nodes, edges⟩
  rcases h with ⟨nodes', edges'⟩
  simp only at hnodes hsame
  rw [hnodes, hsame.2]

end Graph

end Workflow
