/-!
# Search in Texts

Finding and replacing one text inside another. An occurrence is found at the
leftmost place; what follows a replaced occurrence is searched after it, so a
replacement is never searched again.

## Main definitions

* `splitFirst`: The parts of a text around the first occurrence of another.
* `occursIn`: Whether one text occurs in another.
* `dropSuffix?`: A text without a given ending.
* `replaceAll`: Replaces every occurrence of a text, from left to right.

## Theorems

* `splitFirst_eq_some`: The parts around an occurrence, put together again.
-/

namespace Workflow

namespace Text

/-- The parts of a text before and after the first occurrence of `sep`. -/
def splitFirst (sep : List Char) : List Char → Option (List Char × List Char)
  | [] => if sep.isEmpty then some ([], []) else none
  | c :: rest =>
      if sep.isPrefixOf (c :: rest) then some ([], (c :: rest).drop sep.length)
      else (splitFirst sep rest).map fun parts => (c :: parts.1, parts.2)

/-- Whether `part` occurs in a text. -/
def occursIn (part s : List Char) : Bool :=
  (splitFirst part s).isSome

/-- A text without the ending `suffix`, if it has that ending. -/
def dropSuffix? (suffix s : List Char) : Option (List Char) :=
  if suffix.isSuffixOf s then some (s.take (s.length - suffix.length)) else none

/-- Replaces occurrences of `pattern`, skipping the first characters of the
    text, which belong to the occurrence replaced last. -/
def replaceFrom (pattern replacement : List Char) : Nat → List Char → List Char
  | _, [] => []
  | skip + 1, _ :: rest => replaceFrom pattern replacement skip rest
  | 0, c :: rest =>
      if pattern.isPrefixOf (c :: rest) then
        replacement ++ replaceFrom pattern replacement (pattern.length - 1) rest
      else c :: replaceFrom pattern replacement 0 rest

/-- Replaces every occurrence of `pattern`, from left to right. -/
def replaceAll (pattern replacement s : List Char) : List Char :=
  replaceFrom pattern replacement 0 s

/-- Splits a text at every occurrence of one character. -/
def splitAt (sep : Char) : List Char → List (List Char)
  | [] => [[]]
  | c :: rest =>
      if c = sep then [] :: splitAt sep rest
      else
        match splitAt sep rest with
        | [] => [[c]]
        | part :: parts => (c :: part) :: parts

/-- The parts around an occurrence, put together again, are the text. -/
theorem splitFirst_eq_some {sep s before after : List Char}
    (h : splitFirst sep s = some (before, after)) : s = before ++ sep ++ after := by
  induction s generalizing before after with
  | nil =>
      rw [splitFirst] at h
      split at h
      · rename_i hsep
        rw [Option.some.injEq, Prod.mk.injEq] at h
        rw [← h.1, ← h.2, List.isEmpty_iff.mp hsep]
        rfl
      · exact absurd h (by simp only [reduceCtorEq, not_false_eq_true])
  | cons c rest ih =>
      rw [splitFirst] at h
      split at h
      · rename_i hpre
        rw [Option.some.injEq, Prod.mk.injEq] at h
        rcases List.isPrefixOf_iff_prefix.mp hpre with ⟨tail, htail⟩
        rw [← h.1, ← h.2, ← htail, List.drop_left, List.nil_append]
      · rcases hrest : splitFirst sep rest with _ | ⟨b, a⟩
        · rw [hrest] at h
          exact absurd h (by simp only [Option.map_none, reduceCtorEq, not_false_eq_true])
        · rw [hrest, Option.map_some, Option.some.injEq, Prod.mk.injEq] at h
          rw [← h.1, ← h.2, ih hrest]
          rfl

end Text

end Workflow
