import Mathlib.Data.List.Basic
import Workflow.Text.Blank
import Workflow.Text.Search

/-!
# Searching and Trimming

What is found where one text is searched for another, and what is left where
characters are removed at the ends of a text.

A search gives the first occurrence, if there is one (`splitFirst_eq_none_iff`).
No occurrence goes beyond a character that is not a part of what is searched
for, so such a character cuts a search in two (`splitFirst_cut`). Likewise
nothing is removed beyond a character that is to be kept (`dropEnds_concat`).

## Theorems

* `first_unique`: A character occurs first in one place.
* `splitFirst_eq_none_iff`: A text is found when it occurs.
* `splitFirst_cut`: Both sides of a character are searched by themselves.
* `splitFirst_append`: The first occurrence.
* `splitAt_append`: What follows a text goes on in its last part.
* `dropEnds_concat`, `dropEnds_between`: What is removed at the ends.
* `dropSuffix?_append`, `dropSuffix?_eq_none`: When a text has an ending.
-/

namespace Workflow

namespace Text

/-- An occurrence ends before a character that is not a part of it. -/
theorem prefix_of_prefix_append {sep ys : List Char} {c : Char} (hc : c ∉ sep)
    (xs : List Char) (h : sep <+: xs ++ c :: ys) : sep <+: xs := by
  rcases List.prefix_or_prefix_of_prefix h (List.prefix_append xs (c :: ys)) with hsep | hxs
  · exact hsep
  -- If it went further, the character would be a part of it.
  · rcases hxs with ⟨tail, rfl⟩
    rw [List.prefix_append_right_inj] at h
    cases tail with
    | nil => exact (List.append_nil xs).symm ▸ List.prefix_refl xs
    | cons d tail =>
        rw [List.cons_prefix_cons] at h
        exact absurd (List.mem_append_right xs (h.1 ▸ List.mem_cons_self)) hc

/-- The first occurrence of a character is where it is. -/
theorem first_unique {c : Char} {xs ys xs' ys' : List Char} (hxs : c ∉ xs) (hxs' : c ∉ xs')
    (h : xs ++ c :: ys = xs' ++ c :: ys') : xs = xs' ∧ ys = ys' := by
  induction xs generalizing xs' with
  | nil =>
      cases xs' with
      | nil => exact ⟨rfl, (List.cons.inj h).2⟩
      | cons x tail => exact absurd ((List.cons.inj h).1 ▸ List.mem_cons_self) hxs'
  | cons x tail ih =>
      cases xs' with
      | nil => exact absurd ((List.cons.inj h).1 ▸ List.mem_cons_self) hxs
      | cons x' tail' =>
          rw [List.mem_cons, not_or] at hxs hxs'
          rcases List.cons.inj h with ⟨hhead, htail⟩
          rcases ih hxs.2 hxs'.2 htail with ⟨hsame, hrest⟩
          exact ⟨by rw [hhead, hsame], hrest⟩

theorem splitFirst_nil {sep : List Char} (hsep : sep ≠ []) : splitFirst sep [] = none := by
  rw [splitFirst, if_neg (by rwa [List.isEmpty_iff])]

/-- A text is not there when one of its characters is not. -/
theorem splitFirst_eq_none {sep s : List Char} {c : Char} (hsep : c ∈ sep) (hs : c ∉ s) :
    splitFirst sep s = none := by
  cases h : splitFirst sep s with
  | none => rfl
  | some parts =>
      rw [splitFirst_eq_some h] at hs
      exact absurd (List.mem_append_left _ (List.mem_append_right _ hsep)) hs

/-- A text is found when it occurs. -/
theorem splitFirst_eq_none_iff (sep s : List Char) : splitFirst sep s = none ↔ ¬ sep <:+: s := by
  induction s with
  | nil =>
      rw [splitFirst, List.infix_nil]
      cases sep <;> simp
  | cons c rest ih =>
      rw [splitFirst, List.infix_cons_iff, not_or, ← List.isPrefixOf_iff_prefix]
      by_cases hprefix : sep.isPrefixOf (c :: rest) = true
      · rw [if_pos hprefix]
        exact iff_of_false (Option.some_ne_none _) fun h => h.1 hprefix
      · rw [if_neg hprefix, Option.map_eq_none_iff, ih]
        exact (and_iff_right hprefix).symm

/-- No occurrence goes beyond a character that is not a part of it, so both
    sides of that character are searched by themselves. -/
theorem splitFirst_cut {sep : List Char} {c : Char} (hsep : sep ≠ []) (hc : c ∉ sep)
    (xs ys : List Char) :
    splitFirst sep (xs ++ c :: ys) =
      match splitFirst sep xs with
      | some (before, after) => some (before, after ++ c :: ys)
      | none => (splitFirst sep ys).map fun parts => (xs ++ c :: parts.1, parts.2) := by
  induction xs with
  | nil =>
      have hprefix : ¬ sep.isPrefixOf (c :: ys) = true := by
        rw [List.isPrefixOf_iff_prefix]
        intro h
        exact hsep (List.prefix_nil.mp (prefix_of_prefix_append hc [] h))
      rw [splitFirst_nil hsep, List.nil_append, splitFirst, if_neg hprefix]
      rfl
  | cons d tail ih =>
      rw [List.cons_append, splitFirst, splitFirst, ih]
      by_cases hprefix : sep.isPrefixOf (d :: tail) = true
      -- It occurs here, and does so whatever follows.
      · have hlonger : sep.isPrefixOf (d :: (tail ++ c :: ys)) = true := by
          rw [List.isPrefixOf_iff_prefix] at hprefix ⊢
          exact hprefix.trans (List.prefix_append (d :: tail) (c :: ys))
        rcases List.isPrefixOf_iff_prefix.mp hprefix with ⟨rest, hrest⟩
        rw [if_pos hprefix, if_pos hlonger, ← List.cons_append, ← hrest, List.append_assoc,
          List.drop_left, List.drop_left]
      -- It does not occur here, and what follows does not change that.
      · have hlonger : ¬ sep.isPrefixOf (d :: (tail ++ c :: ys)) = true := by
          rw [List.isPrefixOf_iff_prefix] at hprefix ⊢
          exact fun h => hprefix (prefix_of_prefix_append hc (d :: tail) h)
        rw [if_neg hprefix, if_neg hlonger]
        cases splitFirst sep tail with
        | some parts => rfl
        | none =>
            simp only [Option.map_none, Option.map_map]
            rfl

/-- The first occurrence is where the first character of the other text is. -/
theorem splitFirst_append (c : Char) (sep before after : List Char) (hc : c ∉ before) :
    splitFirst (c :: sep) (before ++ (c :: sep ++ after)) = some (before, after) := by
  induction before with
  | nil =>
      have hprefix : (c :: sep).isPrefixOf (c :: (sep ++ after)) = true := by
        rw [List.isPrefixOf_iff_prefix]
        exact List.prefix_append (c :: sep) after
      rw [List.nil_append, List.cons_append, splitFirst, if_pos hprefix]
      rw [← List.cons_append, List.drop_left]
  | cons d tail ih =>
      rw [List.mem_cons, not_or] at hc
      have hprefix : ¬ (c :: sep).isPrefixOf (d :: (tail ++ (c :: sep ++ after))) = true := by
        rw [List.isPrefixOf_iff_prefix, List.cons_prefix_cons]
        exact fun h => hc.1 h.1
      rw [List.cons_append, splitFirst, if_neg hprefix, ih hc.2]
      rfl

theorem splitAt_ne_nil (sep : Char) (s : List Char) : splitAt sep s ≠ [] := by
  cases s with
  | nil => exact List.cons_ne_nil _ _
  | cons c rest =>
      rw [splitAt]
      split
      · exact List.cons_ne_nil _ _
      · cases splitAt sep rest <;> exact List.cons_ne_nil _ _

/-- What follows a text goes on in its last part. -/
theorem splitAt_append (sep : Char) (s rest : List Char) :
    ∃ init last first others, splitAt sep s = init ++ [last] ∧
      splitAt sep rest = first :: others ∧
      splitAt sep (s ++ rest) = init ++ (last ++ first) :: others := by
  induction s with
  | nil =>
      rcases List.exists_cons_of_ne_nil (splitAt_ne_nil sep rest) with ⟨first, others, hrest⟩
      exact ⟨[], [], first, others, rfl, hrest, hrest⟩
  | cons c tail ih =>
      rcases ih with ⟨init, last, first, others, htail, hrest, hwhole⟩
      rw [List.cons_append, splitAt, splitAt, htail, hwhole]
      by_cases hc : c = sep
      · rw [if_pos hc, if_pos hc]
        exact ⟨[] :: init, last, first, others, rfl, hrest, rfl⟩
      · rw [if_neg hc, if_neg hc]
        -- The character goes on in the first part, which may also be the last one.
        cases init with
        | nil => exact ⟨[], c :: last, first, others, rfl, hrest, rfl⟩
        | cons part parts => exact ⟨(c :: part) :: parts, last, first, others, rfl, hrest, rfl⟩

/-- What is removed at the right end ends behind a character that is to be
    kept. -/
theorem dropRight_append_cons {p : Char → Bool} {d : Char} (hd : p d = false)
    (s rest : List Char) : dropRight p (s ++ d :: rest) = s ++ d :: dropRight p rest := by
  have hkept : (d :: s.reverse).dropWhile p = d :: s.reverse :=
    List.dropWhile_cons_of_neg (by rw [hd]; exact Bool.false_ne_true)
  rw [dropRight, dropRight, List.reverse_append, List.reverse_cons, List.append_assoc,
    List.singleton_append, List.dropWhile_append, hkept]
  -- Either the whole rest is removed or the removal ends in it.
  split
  · rename_i hempty
    rw [List.isEmpty_iff.mp hempty, List.reverse_cons, List.reverse_reverse]
    rfl
  · rw [List.reverse_append, List.reverse_cons, List.reverse_reverse, List.append_assoc,
      List.singleton_append]

theorem dropRight_concat {p : Char → Bool} {d : Char} (hd : p d = false) (s : List Char) :
    dropRight p (s ++ [d]) = s ++ [d] :=
  dropRight_append_cons hd s []

theorem dropWhile_concat {p : Char → Bool} {d : Char} (hd : p d = false) (s : List Char) :
    (s ++ [d]).dropWhile p = s.dropWhile p ++ [d] := by
  induction s with
  | nil => exact List.dropWhile_cons_of_neg (by rw [hd]; exact Bool.false_ne_true)
  | cons c tail ih =>
      rw [List.cons_append, List.dropWhile_cons, List.dropWhile_cons, ih]
      split <;> rfl

/-- Nothing is removed at an end that is to be kept. -/
theorem dropEnds_concat {p : Char → Bool} {d : Char} (hd : p d = false) (s : List Char) :
    dropEnds p (s ++ [d]) = s.dropWhile p ++ [d] := by
  rw [dropEnds, dropWhile_concat hd, dropRight_concat hd]

theorem dropWhile_eq_self {p : Char → Bool} {s : List Char} (h : ∀ c ∈ s, p c = false) :
    s.dropWhile p = s := by
  cases s with
  | nil => rfl
  | cons c tail =>
      exact List.dropWhile_cons_of_neg (by rw [h c List.mem_cons_self]; exact Bool.false_ne_true)

theorem dropRight_eq_self {p : Char → Bool} {s : List Char} (h : ∀ c ∈ s, p c = false) :
    dropRight p s = s := by
  rw [dropRight, dropWhile_eq_self fun c hc => h c (List.mem_reverse.mp hc), List.reverse_reverse]

/-- Nothing is removed from a text without characters to remove. -/
theorem dropEnds_eq_self {p : Char → Bool} {s : List Char} (h : ∀ c ∈ s, p c = false) :
    dropEnds p s = s := by
  rw [dropEnds, dropWhile_eq_self h, dropRight_eq_self h]

/-- A character is removed at the right end. -/
theorem dropEnds_before {p : Char → Bool} {d : Char} (hd : p d = true) {s : List Char}
    (h : ∀ c ∈ s, p c = false) : dropEnds p (s ++ [d]) = s := by
  have hright : dropRight p (s ++ [d]) = s := by
    rw [dropRight, List.reverse_append, List.reverse_singleton, List.singleton_append,
      List.dropWhile_cons_of_pos hd, ← dropRight]
    exact dropRight_eq_self h
  cases s with
  | nil =>
      rw [List.nil_append, dropEnds, List.dropWhile_cons_of_pos hd]
      rfl
  | cons c tail =>
      have hc : ¬ p c = true := by
        rw [h c List.mem_cons_self]
        exact Bool.false_ne_true
      rw [dropEnds, List.cons_append, List.dropWhile_cons_of_neg hc, ← List.cons_append, hright]

/-- A character is removed at both ends. -/
theorem dropEnds_between {p : Char → Bool} {d : Char} (hd : p d = true) {s : List Char}
    (h : ∀ c ∈ s, p c = false) : dropEnds p (d :: (s ++ [d])) = s := by
  rw [dropEnds, List.dropWhile_cons_of_pos hd, ← dropEnds, dropEnds_before hd h]

/-- Something is left of a text whose first character is to be kept. -/
theorem dropEnds_ne_nil {p : Char → Bool} {c : Char} (hc : p c = false) (s : List Char) :
    dropEnds p (c :: s) ≠ [] := by
  intro h
  rw [dropEnds, List.dropWhile_cons_of_neg (by rw [hc]; exact Bool.false_ne_true)] at h
  rcases dropRight_append_dropped p (c :: s) with ⟨removed, heq, hremoved⟩
  rw [h, List.nil_append] at heq
  exact absurd ((hremoved c (heq ▸ List.mem_cons_self)).symm.trans hc) Bool.true_eq_false.mp

/-- A text does not have an ending with another last character. -/
theorem dropSuffix?_eq_none {c d : Char} (hcd : c ≠ d) (suffix s : List Char) :
    dropSuffix? (suffix ++ [c]) (s ++ [d]) = none := by
  rw [dropSuffix?, if_neg]
  rw [List.isSuffixOf_iff_suffix]
  rintro ⟨before, heq⟩
  rw [← List.append_assoc] at heq
  exact hcd (List.append_inj_right' heq rfl |> List.singleton_inj.mp)

theorem dropSuffix?_append (suffix s : List Char) : dropSuffix? suffix (s ++ suffix) = some s := by
  rw [dropSuffix?, if_pos (List.isSuffixOf_iff_suffix.mpr (List.suffix_append s suffix)),
    List.length_append, Nat.add_sub_cancel, List.take_left]

end Text

end Workflow
