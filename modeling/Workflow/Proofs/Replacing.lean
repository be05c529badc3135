import Workflow.Proofs.Searching
import Workflow.Web.PageText

/-!
# What Reading a Page Leaves Alone

The steps that turn a page into a text replace something, cut something out or
drop something at the ends. Each step leaves a text alone that does not have
what it looks for, and none makes a text longer.

A text is gone through from left to right, and an occurrence that is replaced
is gone past at once. So a text is taken apart as the search does it: it is
empty, or it begins with an occurrence, or with a character at which there is
none (`replace_induction`).

## Theorems

* `replaceAll_pattern`, `replaceAll_cons`: What a replacement does next.
* `replace_induction`: Texts, taken apart by the occurrences of another.
* `replaceAll_eq_self_iff`: A text without an occurrence is left alone.
* `length_dropEnds_le`, `dropEnds_tidy`: The same for trimming.
* `skip_eq_self`: The same for what a rule recognises by its first character.
* `length_cutBreaks_le`, `cutBreaks_eq_self`: The same for line breaks.
-/

namespace Workflow

namespace Text

section Replacing

variable {pattern replacement : List Char}

theorem replaceFrom_append (skipped rest : List Char) :
    replaceFrom pattern replacement skipped.length (skipped ++ rest) =
      replaceAll pattern replacement rest := by
  induction skipped with
  | nil => rfl
  | cons c skipped ih => exact ih

/-- An occurrence at the beginning is replaced, and the search goes on behind
    it. -/
theorem replaceAll_pattern (hpattern : pattern ≠ []) (rest : List Char) :
    replaceAll pattern replacement (pattern ++ rest) =
      replacement ++ replaceAll pattern replacement rest := by
  cases pattern with
  | nil => exact absurd rfl hpattern
  | cons c tail =>
      have hprefix : (c :: tail).isPrefixOf (c :: (tail ++ rest)) = true :=
        List.isPrefixOf_iff_prefix.mpr (List.prefix_append (c :: tail) rest)
      rw [List.cons_append, replaceAll, replaceFrom, if_pos hprefix]
      exact congrArg (replacement ++ ·) (replaceFrom_append tail rest)

/-- A character at which there is no occurrence stays. -/
theorem replaceAll_cons {c : Char} {rest : List Char} (h : ¬ pattern <+: c :: rest) :
    replaceAll pattern replacement (c :: rest) = c :: replaceAll pattern replacement rest := by
  rw [replaceAll, replaceFrom, if_neg fun hprefix => h (List.isPrefixOf_iff_prefix.mp hprefix)]
  rfl

/-- A text is empty, or it begins with an occurrence, or with a character at
    which there is none. -/
theorem replace_induction {motive : List Char → Prop} (hpattern : pattern ≠ [])
    (empty : motive []) (occurrence : ∀ rest, motive rest → motive (pattern ++ rest))
    (character : ∀ c rest, ¬ pattern <+: c :: rest → motive rest → motive (c :: rest))
    (s : List Char) : motive s := by
  induction hlength : s.length using Nat.strongRecOn generalizing s with
  | ind n ih =>
      cases s with
      | nil => exact empty
      | cons c rest =>
          by_cases hprefix : pattern <+: c :: rest
          · rcases hprefix with ⟨tail, htail⟩
            have hpos := List.length_pos_iff.mpr hpattern
            have hsum := congrArg List.length htail
            rw [List.length_append, hlength] at hsum
            rw [← htail]
            exact occurrence tail (ih tail.length (by omega) tail rfl)
          · rw [List.length_cons] at hlength
            exact character c rest hprefix (ih rest.length (by omega) rest rfl)

/-- A shorter replacement makes a text shorter, if there is an occurrence. -/
theorem length_replaceAll (hlt : replacement.length < pattern.length) (s : List Char) :
    (replaceAll pattern replacement s).length ≤ s.length ∧
      (pattern <:+: s → (replaceAll pattern replacement s).length < s.length) := by
  have hpattern : pattern ≠ [] := List.ne_nil_of_length_pos (by omega)
  induction s using replace_induction hpattern with
  | empty => exact ⟨Nat.le_refl 0, fun h => absurd (List.infix_nil.mp h) hpattern⟩
  | occurrence rest ih =>
      rw [replaceAll_pattern hpattern, List.length_append, List.length_append]
      have hle := ih.1
      exact ⟨by omega, fun _ => by omega⟩
  | character c rest hprefix ih =>
      rw [replaceAll_cons hprefix, List.length_cons, List.length_cons]
      refine ⟨Nat.succ_le_succ ih.1, fun h => Nat.succ_lt_succ (ih.2 ?_)⟩
      exact (List.infix_cons_iff.mp h).resolve_left hprefix

/-- A text is left alone when there is no occurrence in it. -/
theorem replaceAll_eq_self_iff (hlt : replacement.length < pattern.length) (s : List Char) :
    replaceAll pattern replacement s = s ↔ ¬ pattern <:+: s := by
  constructor
  · intro heq hinfix
    have hless := (length_replaceAll hlt s).2 hinfix
    rw [heq] at hless
    exact Nat.lt_irrefl _ hless
  · intro hnone
    induction s with
    | nil => rfl
    | cons c rest ih =>
        rw [List.infix_cons_iff, not_or] at hnone
        rw [replaceAll_cons hnone.1, ih hnone.2]

/-- There is no occurrence at a character that no occurrence begins with. -/
theorem replaceAll_append {c : Char} {tail xs : List Char} (hxs : c ∉ xs) (rest : List Char) :
    replaceAll (c :: tail) replacement (xs ++ rest) =
      xs ++ replaceAll (c :: tail) replacement rest := by
  induction xs with
  | nil => rfl
  | cons x xs ih =>
      rw [List.mem_cons, not_or] at hxs
      have hprefix : ¬ c :: tail <+: x :: (xs ++ rest) := by
        rw [List.cons_prefix_cons]
        exact fun h => hxs.1 h.1
      rw [List.cons_append, replaceAll_cons hprefix, ih hxs.2]
      rfl

end Replacing

theorem length_dropEnds_le (p : Char → Bool) (s : List Char) :
    (dropEnds p s).length ≤ s.length := by
  rw [dropEnds, dropRight, List.length_reverse]
  calc ((s.dropWhile p).reverse.dropWhile p).length
      ≤ (s.dropWhile p).reverse.length := (List.dropWhile_sublist p).length_le
    _ = (s.dropWhile p).length := List.length_reverse
    _ ≤ s.length := (List.dropWhile_sublist p).length_le

/-- Nothing is removed from a text whose ends are to be kept. -/
theorem dropEnds_tidy {p : Char → Bool} {s : List Char} (hstart : ∀ c ∈ s.head?, p c = false)
    (hend : ∀ c ∈ s.getLast?, p c = false) : dropEnds p s = s := by
  have hkeep : ∀ t : List Char, (∀ c ∈ t.head?, p c = false) → t.dropWhile p = t := by
    intro t ht
    cases t with
    | nil => rfl
    | cons c tail =>
        exact List.dropWhile_cons_of_neg (by rw [ht c rfl]; exact Bool.false_ne_true)
  have hreverse : ∀ c ∈ s.reverse.head?, p c = false := by
    rw [List.head?_reverse]
    exact hend
  rw [dropEnds, hkeep s hstart, dropRight, hkeep s.reverse hreverse, List.reverse_reverse]

end Text

namespace Web

namespace Page

/-- A rule that wants a certain first character finds nothing in a text that
    does not have it. -/
theorem skip_eq_self {after : List Char → Option (List Char)} {first : Char}
    (hafter : ∀ c rest, c ≠ first → after (c :: rest) = none) (fuel : Nat) {cs : List Char}
    (hcs : first ∉ cs) : skip after fuel cs = cs := by
  induction cs generalizing fuel with
  | nil => cases fuel <;> rfl
  | cons c rest ih =>
      rw [List.mem_cons, not_or] at hcs
      cases fuel with
      | zero => rfl
      | succ fuel => rw [skip, hafter c rest (Ne.symm hcs.1), ih fuel hcs.2]

theorem length_cutBreaksFrom_le (run : Nat) (cs : List Char) :
    (cutBreaksFrom run cs).length ≤ cs.length := by
  induction cs generalizing run with
  | nil => exact Nat.le_refl 0
  | cons c rest ih =>
      rw [cutBreaksFrom]
      split
      · split
        · exact Nat.succ_le_succ (ih (run + 1))
        · exact Nat.le_succ_of_le (ih (run + 1))
      · exact Nat.succ_le_succ (ih 0)

theorem length_cutBreaks_le (cs : List Char) : (cutBreaks cs).length ≤ cs.length :=
  length_cutBreaksFrom_le 0 cs

/-- Line breaks stay when no three of them follow each other, those counted in
    that were seen last. -/
theorem cutBreaksFrom_eq_self (run : Nat) (cs : List Char)
    (h : ¬ List.replicate 3 '\n' <:+: List.replicate run '\n' ++ cs) :
    cutBreaksFrom run cs = cs := by
  induction cs generalizing run with
  | nil => rfl
  | cons c rest ih =>
      rw [cutBreaksFrom]
      by_cases hc : c = '\n'
      -- One more was seen, and there cannot have been two of them already.
      · have hshift : List.replicate run '\n' ++ c :: rest =
            List.replicate (run + 1) '\n' ++ rest := by
          rw [hc, List.replicate_succ', List.append_assoc, List.singleton_append]
        rw [hshift] at h
        have hrun : run < 2 := by
          by_contra hmany
          refine h ⟨[], List.replicate (run + 1 - 3) '\n' ++ rest, ?_⟩
          rw [List.nil_append, ← List.append_assoc, List.replicate_append_replicate,
            show 3 + (run + 1 - 3) = run + 1 by omega]
        rw [if_pos hc, if_pos hrun, ih (run + 1) h]
      · rw [if_neg hc, ih 0]
        intro hinfix
        refine h (List.IsInfix.trans hinfix ⟨List.replicate run '\n' ++ [c], [], ?_⟩)
        rw [List.append_nil, List.append_assoc]
        rfl

theorem cutBreaks_eq_self {cs : List Char} (h : ¬ List.replicate 3 '\n' <:+: cs) :
    cutBreaks cs = cs :=
  cutBreaksFrom_eq_self 0 cs h

end Page

end Web

end Workflow
