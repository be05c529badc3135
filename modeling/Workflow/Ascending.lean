/-!
# Ascending Lists

Finite sets as lists that ascend strictly in some order. A set has one such
list, so two sets are equal when their lists are, and whatever is reported as
an ascending list does not depend on the order in which it was found.

## Main definitions

* `Ascending.insert`: Adds an element at its place.
* `Ascending.ofList`: The elements of a list, each once and in order.
* `Ascending.texts`: The texts of a list, each once and in order.

## Theorems

* `mem_insert`: What an insertion adds.
* `mem_ofList`: The elements of a set are those of the list.
* `pairwise_insert`: An insertion keeps the list ascending.
* `pairwise_ofList`: The list of a set ascends.
* `nodup`: No element is in an ascending list twice.
* `eq_of_mem_iff`, `ofList_congr`: A set is one list.
* `lex_trans`: An order that decides ties by another one.
* `textBefore_total`: Two texts are the same unless one precedes the other.
* `textBefore_irrefl`, `textBefore_trans`: Texts are ordered.
* `mem_texts`, `pairwise_texts`, `texts_congr`: The same facts for texts.
-/

namespace Workflow

namespace Ascending

variable {α : Type}

/-- Adds an element at its place. An element that neither precedes nor follows
    it is taken to be the same one. -/
def insert (before : α → α → Bool) (a : α) : List α → List α
  | [] => [a]
  | b :: rest =>
      if before a b then a :: b :: rest
      else if before b a then b :: insert before a rest
      else b :: rest

/-- The elements of a list, each once and in order. -/
def ofList (before : α → α → Bool) (items : List α) : List α :=
  items.foldr (insert before) []

/-- The order of texts: by code points. -/
def textBefore (a b : String) : Bool := decide (a < b)

/-- The texts of a list, each once and in order. -/
def texts (items : List String) : List String := ofList textBefore items

/-- What an insertion adds, when only equal elements are unordered. -/
theorem mem_insert {before : α → α → Bool}
    (total : ∀ a b, before a b = false → before b a = false → a = b)
    (a x : α) (items : List α) : x ∈ insert before a items ↔ x = a ∨ x ∈ items := by
  induction items with
  | nil => simp only [insert, List.mem_singleton, List.not_mem_nil, or_false]
  | cons b rest ih =>
      rw [insert]
      split
      · simp only [List.mem_cons]
      · rename_i hab
        split
        · simp only [List.mem_cons, ih]
          constructor
          · rintro (h | h | h)
            · exact Or.inr (Or.inl h)
            · exact Or.inl h
            · exact Or.inr (Or.inr h)
          · rintro (h | h | h)
            · exact Or.inr (Or.inl h)
            · exact Or.inl h
            · exact Or.inr (Or.inr h)
        · rename_i hba
          -- Neither comes before the other, so it is there already.
          have heq : a = b :=
            total a b (Bool.eq_false_iff.mpr hab) (Bool.eq_false_iff.mpr hba)
          simp only [List.mem_cons, heq, or_self_left]

/-- The elements of a set are those of the list. -/
theorem mem_ofList {before : α → α → Bool}
    (total : ∀ a b, before a b = false → before b a = false → a = b)
    (x : α) (items : List α) : x ∈ ofList before items ↔ x ∈ items := by
  induction items with
  | nil => exact Iff.rfl
  | cons a rest ih =>
      rw [ofList, List.foldr_cons, mem_insert total, List.mem_cons]
      exact or_congr Iff.rfl ih

/-- An insertion keeps the list ascending. -/
theorem pairwise_insert {before : α → α → Bool}
    (total : ∀ a b, before a b = false → before b a = false → a = b)
    (trans : ∀ a b c, before a b = true → before b c = true → before a c = true)
    (a : α) (items : List α) (h : items.Pairwise fun x y => before x y = true) :
    (insert before a items).Pairwise fun x y => before x y = true := by
  induction items with
  | nil => exact List.pairwise_singleton _ _
  | cons b rest ih =>
      rcases List.pairwise_cons.mp h with ⟨hb, hrest⟩
      rw [insert]
      split
      -- The new item comes first.
      · rename_i hab
        refine List.pairwise_cons.mpr ⟨?_, h⟩
        intro x hx
        rcases List.mem_cons.mp hx with hxb | hxrest
        · rw [hxb]
          exact hab
        · exact trans a b x hab (hb x hxrest)
      · split
        -- It comes later, among the others.
        · rename_i hba
          refine List.pairwise_cons.mpr ⟨?_, ih hrest⟩
          intro x hx
          rcases (mem_insert total a x rest).mp hx with hxa | hxrest
          · rw [hxa]
            exact hba
          · exact hb x hxrest
        · exact h

/-- The list of a set ascends. -/
theorem pairwise_ofList {before : α → α → Bool}
    (total : ∀ a b, before a b = false → before b a = false → a = b)
    (trans : ∀ a b c, before a b = true → before b c = true → before a c = true)
    (items : List α) : (ofList before items).Pairwise fun x y => before x y = true := by
  induction items with
  | nil => exact List.Pairwise.nil
  | cons a rest ih => exact pairwise_insert total trans a _ ih

section Unique

variable {before : α → α → Bool} (irrefl : ∀ a, before a a = false)

include irrefl

/-- No element is in an ascending list twice. -/
theorem nodup {items : List α} (h : items.Pairwise fun x y => before x y = true) :
    items.Nodup := by
  refine h.imp ?_
  intro a b hab heq
  rw [heq, irrefl] at hab
  exact Bool.false_ne_true hab

/-- Ascending lists are the same when they have the same elements. -/
theorem eq_of_mem_iff
    (trans : ∀ a b c, before a b = true → before b c = true → before a c = true)
    {items others : List α} (hitems : items.Pairwise fun x y => before x y = true)
    (hothers : others.Pairwise fun x y => before x y = true)
    (h : ∀ x, x ∈ items ↔ x ∈ others) : items = others := by
  have hperm : items.Perm others :=
    (List.perm_ext_iff_of_nodup (nodup irrefl hitems) (nodup irrefl hothers)).mpr h
  refine hperm.eq_of_pairwise ?_ hitems hothers
  intro a b _ _ hab hba
  have hloop := trans a b a hab hba
  rw [irrefl] at hloop
  exact absurd hloop Bool.false_ne_true

/-- A set is the same list in whatever order its elements are found, and however
    often. -/
theorem ofList_congr (total : ∀ a b, before a b = false → before b a = false → a = b)
    (trans : ∀ a b c, before a b = true → before b c = true → before a c = true)
    {items others : List α} (h : ∀ x, x ∈ items ↔ x ∈ others) :
    ofList before items = ofList before others := by
  refine eq_of_mem_iff irrefl trans (pairwise_ofList total trans items)
    (pairwise_ofList total trans others) fun x => ?_
  rw [mem_ofList total, mem_ofList total, h]

end Unique

/-- An order that decides ties by another one is transitive. -/
theorem lex_trans {r : α → α → Prop} (trans : ∀ a b c, r a b → r b c → r a c) {a b c : α}
    {p q s : Prop} (ties : p → q → s) (hab : r a b ∨ a = b ∧ p) (hbc : r b c ∨ b = c ∧ q) :
    r a c ∨ a = c ∧ s := by
  rcases hab with hab | ⟨rfl, hp⟩
  · rcases hbc with hbc | ⟨rfl, _⟩
    · exact Or.inl (trans a b c hab hbc)
    · exact Or.inl hab
  · rcases hbc with hbc | ⟨rfl, hq⟩
    · exact Or.inl hbc
    · exact Or.inr ⟨rfl, ties hp hq⟩

/-- Two texts are the same unless one precedes the other. -/
theorem textBefore_total (a b : String) (hab : textBefore a b = false)
    (hba : textBefore b a = false) : a = b :=
  String.le_antisymm (of_decide_eq_false hba) (of_decide_eq_false hab)

/-- The elements of a set of texts are those of the list. -/
theorem mem_texts (x : String) (items : List String) : x ∈ texts items ↔ x ∈ items :=
  mem_ofList textBefore_total x items

theorem textBefore_irrefl (a : String) : textBefore a a = false :=
  decide_eq_false (String.lt_irrefl a)

theorem textBefore_trans (a b c : String) (hab : textBefore a b = true)
    (hbc : textBefore b c = true) : textBefore a c = true :=
  decide_eq_true (String.lt_trans (of_decide_eq_true hab) (of_decide_eq_true hbc))

/-- The list of a set of texts ascends. -/
theorem pairwise_texts (items : List String) : (texts items).Pairwise (· < ·) :=
  (pairwise_ofList textBefore_total textBefore_trans items).imp of_decide_eq_true

/-- A set of texts is one list. -/
theorem texts_congr {items others : List String} (h : ∀ x, x ∈ items ↔ x ∈ others) :
    texts items = texts others :=
  ofList_congr textBefore_irrefl textBefore_total textBefore_trans h

end Ascending

end Workflow
