/-!
# Blank Characters

Trimming of texts. A text is handled as the list of its characters, so that
everything said about it is said by induction on a list.

Two kinds of trimming occur: expressions and scraped pages lose the blanks at
their ends, and a quoted operand of an expression loses the quotes at its
ends. Both are `dropEnds` with a different class of characters.

## Main definitions

* `isBlank`: The characters with the Unicode property White_Space.
* `dropEnds`: Removes the characters of a class from both ends of a text.
* `trim`: Removes blanks from both ends of a text.

## Theorems

* `dropRight_append_dropped`: Only removed characters are missing at the end.
* `head_dropEnds_not`: A trimmed text does not start with a removed character.
-/

namespace Workflow

namespace Text

/-- The characters with the Unicode property White_Space. -/
def isBlank (c : Char) : Bool :=
  let n := c.toNat
  (9 ≤ n && n ≤ 13) || n == 0x20 || n == 0x85 || n == 0xA0 || n == 0x1680
    || (0x2000 ≤ n && n ≤ 0x200A) || n == 0x2028 || n == 0x2029 || n == 0x202F
    || n == 0x205F || n == 0x3000

/-- Removes the characters of a class from the right end of a text. -/
def dropRight (p : Char → Bool) (s : List Char) : List Char :=
  (s.reverse.dropWhile p).reverse

/-- Removes the characters of a class from both ends of a text. -/
def dropEnds (p : Char → Bool) (s : List Char) : List Char :=
  dropRight p (s.dropWhile p)

/-- Removes blanks from both ends of a text. -/
def trim (s : List Char) : List Char :=
  dropEnds isBlank s

/-- The right end of a text is what is left of it after an initial part. -/
theorem dropRight_append_dropped (p : Char → Bool) (s : List Char) :
    ∃ removed, s = dropRight p s ++ removed ∧ ∀ c ∈ removed, p c = true := by
  refine ⟨(s.reverse.takeWhile p).reverse, ?_, ?_⟩
  · rw [dropRight, ← List.reverse_append, List.takeWhile_append_dropWhile,
      List.reverse_reverse]
  · intro c hc
    rw [List.mem_reverse] at hc
    exact List.all_eq_true.mp (List.all_takeWhile) c hc

/-- A trimmed text does not start with a removed character. -/
theorem head_dropEnds_not (p : Char → Bool) (s : List Char) (c : Char)
    (h : (dropEnds p s).head? = some c) : p c = false := by
  -- Trimming on the right keeps the head, and trimming on the left clears it.
  rcases dropRight_append_dropped p (s.dropWhile p) with ⟨removed, heq, _⟩
  have hhead : (s.dropWhile p).head? = some c := by
    rw [heq, List.head?_append]
    rw [dropEnds] at h
    rw [h]
    rfl
  cases hdrop : s.dropWhile p with
  | nil =>
      rw [hdrop] at hhead
      exact absurd hhead (by simp only [List.head?_nil, reduceCtorEq, not_false_eq_true])
  | cons d rest =>
      rw [hdrop, List.head?_cons, Option.some.injEq] at hhead
      have hne : s.dropWhile p ≠ [] := by
        rw [hdrop]
        exact List.cons_ne_nil d rest
      have := List.head_dropWhile_not p hne
      rw [← hhead]
      simpa only [hdrop, List.head_cons] using this

end Text

end Workflow
