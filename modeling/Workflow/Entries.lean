/-!
# Entries by Key

Finite maps from texts, as lists of entries whose keys ascend strictly. Texts
compare by their code points.

A list of entries is the form in which a map is stored, printed and compared,
so the operations work on plain lists, and that the keys ascend is a property
(`Ordered`) that every operation keeps.

## Main definitions

* `Entries`: A list of entries.
* `find?`, `insert`, `erase`, `merge`: Look-up and update.
* `ofList`: The map of a list of entries, where a later entry wins.
* `Ordered`: The keys ascend strictly.

## Theorems

* `Ordered.nodup_keys`: No key of an ordered map is repeated.
* `lt_of_not_lt_of_ne`: The order of texts is total.
* `find?_tabulate`: What is found where every key has its value.
* `find?_mapValues`: What is found after all values were changed.
* `mem_keys_iff`, `mem_of_find?`, `find?_eq_some_iff`: What is found is what is
  listed.
* `find?_insert`: What is found after an insertion.
* `find?_merge`: What is found after entries were added.
* `find?_merge_map`: The same for entries that may be repeated.
* `mem_keys_insert`, `forall_insert`: The entries after an insertion.
* `ordered_insert`: An insertion keeps the order.
* `ordered_merge`: Adding entries keeps the order.
* `ordered_ofList`: The map of a list is in order.
-/

namespace Workflow

/-- A finite map from texts, as a list of its entries. -/
abbrev Entries (β : Type) := List (String × β)

namespace Entries

variable {β : Type}

/-- The value of a key. -/
def find? (key : String) : Entries β → Option β
  | [] => none
  | (k, v) :: rest => if k = key then some v else find? key rest

/-- Whether a key has a value. -/
def contains (key : String) (entries : Entries β) : Bool :=
  (find? key entries).isSome

/-- Sets the value of a key, at the place where the order wants it. -/
def insert (key : String) (value : β) : Entries β → Entries β
  | [] => [(key, value)]
  | (k, v) :: rest =>
      if key < k then (key, value) :: (k, v) :: rest
      else if k = key then (key, value) :: rest
      else (k, v) :: insert key value rest

/-- Removes a key. -/
def erase (key : String) (entries : Entries β) : Entries β :=
  entries.filter fun entry => entry.1 ≠ key

/-- Adds entries one after another; a later entry wins. -/
def merge (base : Entries β) (added : List (String × β)) : Entries β :=
  added.foldl (fun entries entry => entries.insert entry.1 entry.2) base

/-- The map of a list of entries; a later entry wins. -/
def ofList (added : List (String × β)) : Entries β := merge [] added

/-- The keys in order. -/
def keys (entries : Entries β) : List String := entries.map (·.1)

/-- The keys ascend strictly. -/
def Ordered (entries : Entries β) : Prop :=
  entries.Pairwise fun a b => a.1 < b.1

/-- No key of an ordered map is repeated. -/
theorem Ordered.nodup_keys {entries : Entries β} (h : entries.Ordered) : entries.keys.Nodup := by
  refine List.pairwise_map.mpr (h.imp fun {a b} hlt heq => ?_)
  rw [heq] at hlt
  exact String.lt_irrefl b.1 hlt

/-- Texts that are not below and not equal are above. -/
theorem lt_of_not_lt_of_ne {a b : String} (h : ¬ a < b) (hne : b ≠ a) : b < a := by
  rcases Decidable.em (b < a) with hlt | hnlt
  · exact hlt
  · exact absurd (String.le_antisymm hnlt h).symm hne

/-- What is found when a list of keys is tabulated: the value of every key that
    is listed. -/
theorem find?_tabulate (f : String → β) (key : String) (keys : List String) :
    find? key (keys.map fun k => (k, f k)) = if key ∈ keys then some (f key) else none := by
  induction keys with
  | nil => rfl
  | cons k rest ih =>
      rw [List.map_cons, find?]
      by_cases hk : k = key
      · rw [if_pos hk, if_pos (hk ▸ List.mem_cons_self), hk]
      · have hmem : key ∈ k :: rest ↔ key ∈ rest := by
          rw [List.mem_cons]
          exact or_iff_right (fun h => hk h.symm)
        rw [if_neg hk, ih]
        simp only [hmem]

/-- What is found after every value was changed. -/
theorem find?_mapValues {γ : Type} (change : String → β → γ) (key : String)
    (entries : Entries β) :
    find? key (entries.map fun entry => (entry.1, change entry.1 entry.2)) =
      (find? key entries).map (change key) := by
  induction entries with
  | nil => rfl
  | cons entry rest ih =>
      rw [List.map_cons, find?, find?, ih]
      by_cases hkey : entry.1 = key
      · rw [if_pos hkey, if_pos hkey, hkey, Option.map_some]
      · rw [if_neg hkey, if_neg hkey]

/-- The keys that are listed are those that have a value. -/
theorem mem_keys_iff (key : String) (entries : Entries β) :
    key ∈ entries.keys ↔ ∃ value, find? key entries = some value := by
  induction entries with
  | nil => simp only [keys, List.map_nil, List.not_mem_nil, find?, reduceCtorEq, exists_false]
  | cons entry rest ih =>
      rw [keys] at ih
      rw [keys, List.map_cons, List.mem_cons, ih, find?]
      by_cases hkey : entry.1 = key
      · simp only [hkey, true_or, if_true, Option.some.injEq, exists_eq']
      · have hne : ¬ key = entry.1 := fun h => hkey h.symm
        simp only [hne, hkey, false_or, if_false]

/-- What is found is listed. -/
theorem mem_of_find? {key : String} {value : β} {entries : Entries β}
    (h : find? key entries = some value) : (key, value) ∈ entries := by
  induction entries with
  | nil => exact absurd h.symm (Option.some_ne_none value)
  | cons entry rest ih =>
      rw [find?] at h
      by_cases hkey : entry.1 = key
      · rw [if_pos hkey, Option.some.injEq] at h
        rw [← hkey, ← h]
        exact List.mem_cons_self
      · rw [if_neg hkey] at h
        exact List.mem_cons_of_mem _ (ih h)

/-- When no key is repeated, every entry that is listed is found. -/
theorem find?_eq_some_iff (entries : Entries β) (hkeys : entries.keys.Nodup) (key : String)
    (value : β) : find? key entries = some value ↔ (key, value) ∈ entries := by
  induction entries with
  | nil => simp only [find?, reduceCtorEq, List.not_mem_nil]
  | cons entry rest ih =>
      rcases List.nodup_cons.mp hkeys with ⟨hnew, hrest⟩
      rw [find?, List.mem_cons]
      by_cases hkey : entry.1 = key
      -- Keys do not repeat, so the rest has no other value for this one.
      · have hnot : (key, value) ∉ rest := by
          intro hmem
          exact hnew (List.mem_map.mpr ⟨(key, value), hmem, hkey.symm⟩)
        rw [if_pos hkey, Option.some.injEq, or_iff_left hnot, ← hkey]
        exact ⟨fun h => Prod.ext rfl h.symm, fun h => (congrArg Prod.snd h).symm⟩
      · have hne : (key, value) ≠ entry := fun h => hkey (congrArg Prod.fst h).symm
        rw [if_neg hkey, ih hrest, or_iff_right hne]

/-- What is found after an insertion. -/
theorem find?_insert (key other : String) (value : β) (entries : Entries β) :
    find? other (insert key value entries) =
      if key = other then some value else find? other entries := by
  induction entries with
  | nil => rfl
  | cons entry rest ih =>
      rcases entry with ⟨k, v⟩
      rw [insert]
      split
      · rfl
      · split
        · rename_i hk
          subst hk
          simp only [find?]
          split <;> rfl
        · rename_i hk
          simp only [find?, ih]
          by_cases hother : k = other
          -- The key that is passed over is not the new one.
          · have hne : key ≠ other := fun h => hk (hother.trans h.symm)
            simp only [hother, if_true, hne, if_false]
          · simp only [hother, if_false]

/-- What is found after entries were added of which no two have the same key. -/
theorem find?_merge (key : String) (base : Entries β) (added : List (String × β))
    (hkeys : (keys added).Nodup) :
    find? key (merge base added) = (find? key added).or (find? key base) := by
  induction added generalizing base with
  | nil => rfl
  | cons entry rest ih =>
      rcases List.nodup_cons.mp hkeys with ⟨hnew, hrest⟩
      have hstep := ih (base.insert entry.1 entry.2) hrest
      rw [merge] at hstep
      rw [merge, List.foldl_cons, hstep, find?_insert, find?]
      by_cases hkey : entry.1 = key
      -- The entry is not overwritten by a later one.
      · have hnone : find? key rest = none := by
          rw [Option.eq_none_iff_forall_ne_some]
          intro value hvalue
          exact hnew ((mem_keys_iff entry.1 rest).mpr ⟨value, hkey ▸ hvalue⟩)
        rw [if_pos hkey, if_pos hkey, hnone, Option.none_or, Option.some_or]
      · rw [if_neg hkey, if_neg hkey]

/-- What is found after entries were added that have the same value wherever
    they have the same key. -/
theorem find?_merge_map (f : String → β) (key : String) (base : Entries β) (keys : List String) :
    find? key (merge base (keys.map fun k => (k, f k))) =
      if key ∈ keys then some (f key) else find? key base := by
  induction keys generalizing base with
  | nil => rfl
  | cons k rest ih =>
      have hstep := ih (base.insert k (f k))
      rw [merge] at hstep
      rw [merge, List.map_cons, List.foldl_cons, hstep, find?_insert]
      -- A later entry for the same key wins.
      by_cases hrest : key ∈ rest
      · rw [if_pos hrest, if_pos (List.mem_cons_of_mem k hrest)]
      · by_cases hk : k = key
        · rw [if_neg hrest, if_pos hk, if_pos (hk ▸ List.mem_cons_self), hk]
        · have hnot : key ∉ k :: rest :=
            List.not_mem_cons_of_ne_of_not_mem (fun h => hk h.symm) hrest
          rw [if_neg hrest, if_neg hk, if_neg hnot]

/-- The keys after an insertion are the old ones and the new one. -/
theorem mem_keys_insert {key : String} {value : β} {entries : Entries β}
    {entry : String × β} (h : entry ∈ insert key value entries) :
    entry = (key, value) ∨ entry ∈ entries := by
  induction entries with
  | nil => exact Or.inl (List.mem_singleton.mp h)
  | cons first rest ih =>
      rcases first with ⟨k, v⟩
      rw [insert] at h
      split at h
      · rcases List.mem_cons.mp h with heq | hmem
        · exact Or.inl heq
        · exact Or.inr hmem
      · split at h
        · rcases List.mem_cons.mp h with heq | hmem
          · exact Or.inl heq
          · exact Or.inr (List.mem_cons_of_mem _ hmem)
        · rcases List.mem_cons.mp h with heq | hmem
          · exact Or.inr (heq ▸ List.mem_cons_self ..)
          · rcases ih hmem with heq | hold
            · exact Or.inl heq
            · exact Or.inr (List.mem_cons_of_mem _ hold)

/-- What all entries have in common, and the new one has, they have in common after
    an insertion. -/
theorem forall_insert {p : String × β → Prop} {entries : Entries β}
    (h : ∀ entry ∈ entries, p entry) {key : String} {value : β} (hnew : p (key, value)) :
    ∀ entry ∈ insert key value entries, p entry := by
  intro entry hentry
  rcases mem_keys_insert hentry with rfl | hold
  · exact hnew
  · exact h entry hold

/-- An insertion keeps the order. -/
theorem ordered_insert {entries : Entries β} (h : Ordered entries) (key : String)
    (value : β) : Ordered (insert key value entries) := by
  induction entries with
  | nil => exact List.pairwise_singleton _ _
  | cons first rest ih =>
      rcases first with ⟨k, v⟩
      have hcons := List.pairwise_cons.mp h
      rw [insert]
      split
      -- The new key comes first.
      · rename_i hlt
        refine List.pairwise_cons.mpr ⟨?_, h⟩
        intro entry hmem
        rcases List.mem_cons.mp hmem with heq | hrest
        · exact heq ▸ hlt
        · exact String.lt_trans hlt (hcons.1 entry hrest)
      · split
        -- It is there already.
        · rename_i hk
          exact List.pairwise_cons.mpr ⟨hk ▸ hcons.1, hcons.2⟩
        -- It comes later, among the others.
        · rename_i hlt hk
          refine List.pairwise_cons.mpr ⟨?_, ih hcons.2⟩
          intro entry hmem
          rcases mem_keys_insert hmem with heq | hrest
          · rw [heq]
            exact lt_of_not_lt_of_ne hlt hk
          · exact hcons.1 entry hrest

/-- Adding entries keeps the order. -/
theorem ordered_merge {base : Entries β} (h : Ordered base) (added : List (String × β)) :
    Ordered (merge base added) := by
  induction added generalizing base with
  | nil => exact h
  | cons entry rest ih => exact ih (ordered_insert h entry.1 entry.2)

/-- The map of a list is in order. -/
theorem ordered_ofList (added : List (String × β)) : Ordered (ofList added) :=
  ordered_merge List.Pairwise.nil added

end Entries

end Workflow
