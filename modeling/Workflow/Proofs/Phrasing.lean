import Mathlib.Data.Bool.AllAny
import Workflow.Handler.Condition
import Workflow.Proofs.Searching

/-!
# Conditions as They Are Written

What an expression says about a scope, said by a path and a test (`Test`): that
the path leads to a value for which the test holds (`LeadsTo`). An expression is
written from a path, an operator and an operand in quotes (`Test.written`), and
what is found in it (`parts?`) should be the path and the test again.

An operator is looked for in the whole expression, the quotes and what is in
them included, and the operators are looked for in a fixed order. So a quoted
operand may hold the words of its own operator, of a later one and the word of
presence, and is read as it is written (`evaluate_written_iff`). But when an
operator is in the operand that is looked for before the one of the test, then
the expression is cut there: what is taken for the path goes on up to it, the
quote included, and what is behind it is taken for the operand (`Test.taken`).
For every such operand there is a scope in which the expression is false though
what it says is true (`exists_misread`).

## Main definitions

* `Condition.Test`: What is asked of a value.
* `Condition.LeadsTo`: What an expression says.
* `Condition.Solid`: A character of a path.
* `Condition.Test.written`: An expression.
* `Condition.Test.intruder?`, `Condition.Test.taken`: What an expression is taken
  for.
* `Condition.parts?`: What is found in an expression.
* `Condition.nest`, `Condition.followAll`: A value under names, and what names
  lead to.

## Theorems

* `Condition.evaluate_iff`: An expression is evaluated by what is found in it.
* `Condition.parts?_written`: What is found in an expression as it is written.
* `Condition.parts?_pathless`: Nothing is found without a path.
* `Condition.solid_of_plain`: What is a character of a path.
* `Condition.intruder?_eq_none_iff`: When no operator comes before its own.
* `Condition.exists_scope`: A value for a path, and for no longer one.
* `Condition.evaluate_written_iff`: What an expression says is what it is true
  for, unless an earlier operator is in its operand.
* `Condition.own_text_unequal`: A text that is not found equal to itself.
-/

namespace Workflow

namespace Condition

/-- What an expression asks of the value that its path leads to. The operand is
    what the value is compared with. -/
inductive Test
  | present
  | contains (operand : List Char)
  | differs (operand : List Char)
  | equals (operand : List Char)
deriving DecidableEq, Repr

namespace Test

/-- The operand of a test that has one. -/
def operand : Test → List Char
  | present => []
  | contains operand | differs operand | equals operand => operand

/-- What is written after the path, up to the quote. -/
def words : Test → List Char
  | present => " exists".toList
  | contains _ => " contains ".toList
  | differs _ => " != ".toList
  | equals _ => " == ".toList

/-- The operand in quotes, for a test that has one. -/
def quoted : Test → List Char
  | present => []
  | contains operand | differs operand | equals operand => '"' :: (operand ++ ['"'])

/-- The expression of a path and a test. -/
def written (path : List Char) (test : Test) : List Char := path ++ (test.words ++ test.quoted)

/-- What a test means. -/
def Holds : Test → Json → Prop
  | present, value => value ≠ .null
  | contains operand, value =>
      (∃ s, value = .string s ∧ operand <:+: s.toList) ∨
        ∃ items, value = .array items ∧ ∃ item ∈ items, textOf item = operand
  | differs operand, value => textOf value ≠ operand
  | equals operand, value => textOf value = operand

/-- The operators that are looked for before the one of a test. -/
def earlier : Test → List (List Char)
  | present | contains _ => []
  | differs _ => [" contains ".toList]
  | equals _ => [" contains ".toList, "!=".toList]

/-- The first occurrence of an operator in an operand: what stands before it,
    and a test of what stands after it. -/
def intruder (operator : List Char) (make : List Char → Test) (operand : List Char) :
    Option (List Char × Test) :=
  (Text.splitFirst operator operand).map fun parts =>
    (parts.1, make (parts.2.dropWhile Text.isBlank))

/-- The operator in the operand of a test that is found before its own. -/
def intruder? : Test → Option (List Char × Test)
  | present | contains _ => none
  | differs operand => intruder " contains ".toList contains operand
  | equals operand =>
      (intruder " contains ".toList contains operand).or (intruder "!=".toList differs operand)

/-- What an expression is taken for, as a path and a test. When there is an
    operator in the operand that is found before the one of the test, then all
    that stands before it is taken for the path. -/
def taken (path : List Char) (test : Test) : List Char × Test :=
  match test.intruder? with
  | some (left, other) => (Text.trim (path ++ (test.words ++ '"' :: left)), other)
  | none => (path, test)

end Test

/-- A path leads to a value for which a test holds. -/
def LeadsTo (scope : Entries Json) (path : List Char) (test : Test) : Prop :=
  ∃ value, lookUp scope path = some value ∧ test.Holds value

/-- A character of a path is no blank and no part of an operator. -/
def Solid (c : Char) : Prop := Text.isBlank c = false ∧ c ≠ '=' ∧ c ≠ '!'

instance : DecidablePred Solid := fun c =>
  inferInstanceAs (Decidable (Text.isBlank c = false ∧ c ≠ '=' ∧ c ≠ '!'))

/-- The path and the test that are found in an expression. -/
def parts? (e : List Char) : Option (List Char × Test) :=
  match Text.dropSuffix? " exists".toList e with
  | some path => some (Text.trim path, .present)
  | none =>
      ((split? " contains ".toList e).map fun parts => (parts.1, .contains parts.2)).or
        (((split? "!=".toList e).map fun parts => (parts.1, .differs parts.2)).or
          ((split? "==".toList e).map fun parts => (parts.1, .equals parts.2)))

theorem leadsTo_iff (scope : Entries Json) (path : List Char) (p : Json → Bool) (test : Test)
    (h : ∀ value, p value = true ↔ test.Holds value) :
    leadsTo scope path p = true ↔ LeadsTo scope path test := by
  rw [leadsTo, LeadsTo]
  cases lookUp scope path with
  | none => simp only [Bool.false_eq_true, reduceCtorEq, false_and, exists_false]
  | some value => simp only [h value, Option.some.injEq, exists_eq_left']

theorem present_iff (value : Json) : (!value.isNull) = true ↔ Test.present.Holds value := by
  cases value <;> simp only [Json.isNull, Test.Holds, Bool.not_true, Bool.not_false, ne_eq,
    reduceCtorEq, not_true_eq_false, not_false_eq_true, Bool.false_eq_true]

theorem contains_iff (operand : List Char) (value : Json) :
    contains operand value = true ↔ (Test.contains operand).Holds value := by
  have hoccurs : ∀ s, Text.occursIn operand s = true ↔ operand <:+: s := by
    intro s
    rw [Text.occursIn, Option.isSome_iff_ne_none, ne_eq, Text.splitFirst_eq_none_iff, not_not]
  cases value <;> simp only [contains, Test.Holds, hoccurs, List.any_eq_true, decide_eq_true_eq,
    Bool.false_eq_true, reduceCtorEq, Json.string.injEq, Json.array.injEq, false_and,
    exists_false, exists_eq_left', or_false, false_or]

theorem differs_iff (operand : List Char) (value : Json) :
    decide (textOf value ≠ operand) = true ↔ (Test.differs operand).Holds value :=
  decide_eq_true_iff

theorem equals_iff (operand : List Char) (value : Json) :
    decide (textOf value = operand) = true ↔ (Test.equals operand).Holds value :=
  decide_eq_true_iff

/-- An expression is true when it has a path that leads to a value for which
    its test holds. -/
theorem evaluate_iff (e : List Char) (scope : Entries Json) :
    evaluate (String.ofList e) scope = true ↔
      ∃ path test, parts? (Text.trim e) = some (path, test) ∧ LeadsTo scope path test := by
  have hfound : ∀ path test, LeadsTo scope path test ↔
      ∃ p t, some (path, test) = some (p, t) ∧ LeadsTo scope p t := by
    intro path test
    simp only [Option.some.injEq, Prod.mk.injEq, ↓existsAndEq, true_and]
  have htext : (String.ofList e).toList = e := String.toList_ofList
  rw [evaluate, htext, parts?]
  -- The operators are looked for one after another, and the first one that is found decides.
  cases Text.dropSuffix? " exists".toList (Text.trim e) with
  | some path => exact (leadsTo_iff scope _ _ _ present_iff).trans (hfound _ _)
  | none =>
      cases split? " contains ".toList (Text.trim e) with
      | some parts => exact (leadsTo_iff scope _ _ _ (contains_iff _)).trans (hfound _ _)
      | none =>
          cases split? "!=".toList (Text.trim e) with
          | some parts =>
              exact (leadsTo_iff scope _ _ _ (differs_iff _)).trans (hfound _ _)
          | none =>
              cases split? "==".toList (Text.trim e) with
              | some parts =>
                  exact (leadsTo_iff scope _ _ _ (equals_iff _)).trans (hfound _ _)
              | none => exact iff_of_false Bool.false_ne_true fun ⟨_, _, h, _⟩ => nomatch h

theorem split?_eq_some {operator e left right : List Char}
    (h : Text.splitFirst operator e = some (left, right)) (hleft : Text.trim left ≠ []) :
    split? operator e =
      some (Text.trim left, Text.dropEnds (fun c => decide (c = '"')) (Text.trim right)) := by
  rw [split?, h, Option.bind_eq_bind, Option.bind_some]
  exact if_neg fun hempty => hleft (List.isEmpty_iff.mp hempty)

theorem split?_eq_none {operator e : List Char} (h : Text.splitFirst operator e = none) :
    split? operator e = none := by
  rw [split?, h]
  rfl

/-- An operator in front of which there is no path is passed over. -/
theorem split?_pathless {operator e right : List Char}
    (h : Text.splitFirst operator e = some ([], right)) : split? operator e = none := by
  rw [split?, h]
  rfl

/-- An operator that does not begin in front of the operand is looked for in
    the operand. -/
theorem splitFirst_quoted {operator front : List Char} (operand : List Char)
    (hoperator : operator ≠ []) (hquote : '"' ∉ operator)
    (hfront : Text.splitFirst operator front = none) :
    Text.splitFirst operator (front ++ '"' :: (operand ++ ['"'])) =
      (Text.splitFirst operator operand).map fun parts =>
        (front ++ '"' :: parts.1, parts.2 ++ ['"']) := by
  rw [Text.splitFirst_cut hoperator hquote, hfront, Text.splitFirst_cut hoperator hquote operand,
    Text.splitFirst_nil hoperator]
  cases Text.splitFirst operator operand <;> rfl

/-- An operand without quotes in it loses the quotes that are around it. -/
theorem dropQuotes (operand : List Char) (hquote : '"' ∉ operand) :
    Text.dropEnds (fun c => decide (c = '"')) ('"' :: (operand ++ ['"'])) = operand :=
  Text.dropEnds_between (by decide) fun c hc =>
    decide_eq_false fun heq => hquote (heq ▸ hc)

/-- What is cut off in the middle of an operand has a quote at its end only. -/
theorem dropQuote (operand : List Char) (hquote : '"' ∉ operand) :
    Text.dropEnds (fun c => decide (c = '"')) (Text.trim (operand ++ ['"'])) =
      operand.dropWhile Text.isBlank := by
  rw [Text.trim, Text.dropEnds_concat (by decide)]
  refine Text.dropEnds_before (by decide) fun c hc => decide_eq_false fun heq => hquote ?_
  exact heq ▸ (List.dropWhile_sublist Text.isBlank).subset hc

variable {path operand : List Char}

theorem trim_path (hpath : ∀ c ∈ path, Solid c) : Text.trim path = path :=
  Text.dropEnds_eq_self fun c hc => (hpath c hc).1

theorem not_mem_path (hpath : ∀ c ∈ path, Solid c) : ' ' ∉ path ∧ '=' ∉ path ∧ '!' ∉ path :=
  ⟨fun h => absurd (hpath _ h).1 (by decide), fun h => (hpath _ h).2.1 rfl,
    fun h => (hpath _ h).2.2 rfl⟩

/-- An expression with a path is trimmed at its right end only, and only behind
    what is no blank. -/
theorem trim_front (hne : path ≠ []) (hpath : ∀ c ∈ path, Solid c) (front : List Char) {d : Char}
    (hd : Text.isBlank d = false) (left : List Char) :
    Text.trim (path ++ (front ++ d :: left)) =
      path ++ (front ++ d :: Text.dropRight Text.isBlank left) := by
  cases path with
  | nil => exact absurd rfl hne
  | cons c tail =>
      have hc : ¬ Text.isBlank c = true := by
        rw [(hpath c List.mem_cons_self).1]
        exact Bool.false_ne_true
      rw [Text.trim, Text.dropEnds, List.cons_append, List.dropWhile_cons_of_neg hc,
        ← List.cons_append, ← List.append_assoc, Text.dropRight_append_cons hd, List.append_assoc]

/-- Nothing is trimmed from an expression that has a path and does not end in a
    blank. -/
theorem trim_expression (hne : path ≠ []) (hpath : ∀ c ∈ path, Solid c) (rest : List Char)
    {d : Char} (hd : Text.isBlank d = false) :
    Text.trim (path ++ (rest ++ [d])) = path ++ (rest ++ [d]) :=
  trim_front hne hpath rest hd []

theorem trim_ne_nil (hne : path ≠ []) (hpath : ∀ c ∈ path, Solid c) (rest : List Char) :
    Text.trim (path ++ rest) ≠ [] := by
  cases path with
  | nil => exact absurd rfl hne
  | cons c tail => exact Text.dropEnds_ne_nil (hpath c List.mem_cons_self).1 (tail ++ rest)

/-- The word "contains" between blanks does not begin in a path or in one of
    the other operators. -/
theorem splitFirst_contains_front (c : Char) (hc : c ∉ " contains ".toList)
    (hpath : ∀ c ∈ path, Solid c) :
    Text.splitFirst " contains ".toList (path ++ [' ', c, '=', ' ']) = none := by
  have hblank : Text.splitFirst " contains ".toList (path ++ [' ']) = none := by
    -- The word has a blank at either end, and here is only one.
    rw [Text.splitFirst_eq_none_iff]
    intro h
    have hcount := h.sublist.count_le ' '
    rw [List.count_append, List.count_eq_zero_of_not_mem (not_mem_path hpath).1] at hcount
    exact absurd hcount (by decide)
  have htail : Text.splitFirst " contains ".toList ['=', ' '] = none := by decide
  have hsplit := Text.splitFirst_cut (by decide) hc (path ++ [' ']) ['=', ' ']
  rw [hblank, htail, List.append_assoc] at hsplit
  exact hsplit

/-- What is found where an operator is looked for in front of the operand and
    in the operand. -/
theorem split?_quoted (operator front operand : List Char) (hne : path ≠ [])
    (hpath : ∀ c ∈ path, Solid c) (hoperator : operator ≠ []) (hoperatorQuote : '"' ∉ operator)
    (hfront : Text.splitFirst operator (path ++ front) = none) (hquote : '"' ∉ operand)
    (make : List Char → Test) :
    (split? operator (path ++ (front ++ '"' :: (operand ++ ['"'])))).map
        (fun parts => (parts.1, make parts.2)) =
      (Test.intruder operator make operand).map fun found =>
        (Text.trim (path ++ (front ++ '"' :: found.1)), found.2) := by
  have hsplit := splitFirst_quoted operand hoperator hoperatorQuote hfront
  rw [List.append_assoc] at hsplit
  rw [Test.intruder]
  cases hfound : Text.splitFirst operator operand with
  | none =>
      rw [hfound] at hsplit
      rw [split?_eq_none hsplit]
      rfl
  | some parts =>
      rcases parts with ⟨left, right⟩
      rw [hfound] at hsplit
      -- What follows the operator is a part of the operand, so it has no quotes.
      have hright : '"' ∉ right := by
        intro hmem
        rw [Text.splitFirst_eq_some hfound] at hquote
        exact hquote (List.mem_append_right _ hmem)
      have hleft := trim_ne_nil hne hpath (front ++ '"' :: left)
      rw [split?_eq_some hsplit (by rwa [List.append_assoc]), dropQuote _ hright, List.append_assoc]
      rfl

/-- What is found where the operator stands in front of the operand. -/
theorem split?_front (c : Char) (operator before blanks : List Char) (hne : path ≠ [])
    (hc : c ∉ path ++ before) (hbefore : Text.trim (path ++ before) = path)
    (hblanks : ∀ c ∈ blanks, Text.isBlank c = true) (hquote : '"' ∉ operand) :
    split? (c :: operator)
        (path ++ (before ++ (c :: operator ++ blanks) ++ '"' :: (operand ++ ['"']))) =
      some (path, operand) := by
  have hsplit := Text.splitFirst_append c operator (path ++ before)
    (blanks ++ '"' :: (operand ++ ['"'])) hc
  have hright : Text.trim (blanks ++ '"' :: (operand ++ ['"'])) = '"' :: (operand ++ ['"']) := by
    have hlast : blanks ++ '"' :: (operand ++ ['"']) = (blanks ++ '"' :: operand) ++ ['"'] := by
      simp only [List.append_assoc, List.cons_append]
    rw [hlast, Text.trim, Text.dropEnds_concat (by decide), List.dropWhile_append_of_pos hblanks,
      List.dropWhile_cons_of_neg (by decide), List.cons_append]
  have hwhole : path ++ (before ++ (c :: operator ++ blanks) ++ '"' :: (operand ++ ['"'])) =
      path ++ before ++ (c :: operator ++ (blanks ++ '"' :: (operand ++ ['"']))) := by
    simp only [List.append_assoc]
  rw [hwhole, split?_eq_some hsplit (by rwa [hbefore]), hbefore, hright, dropQuotes operand hquote]

/-- In an expression with an operand in quotes, the operators are looked for. -/
theorem parts?_quoted (hne : path ≠ []) (hpath : ∀ c ∈ path, Solid c) (front : List Char) :
    let e := path ++ (front ++ '"' :: (operand ++ ['"']))
    parts? (Text.trim e) =
      ((split? " contains ".toList e).map fun parts => (parts.1, .contains parts.2)).or
        (((split? "!=".toList e).map fun parts => (parts.1, .differs parts.2)).or
          ((split? "==".toList e).map fun parts => (parts.1, .equals parts.2))) := by
  have hlast : path ++ (front ++ '"' :: (operand ++ ['"'])) =
      path ++ ((front ++ '"' :: operand) ++ ['"']) := by
    simp only [List.append_assoc, List.cons_append]
  have hsuffix : Text.dropSuffix? " exists".toList (path ++ ((front ++ '"' :: operand) ++ ['"'])) =
      none := by
    rw [← List.append_assoc]
    exact Text.dropSuffix?_eq_none (c := 's') (by decide) " exist".toList _
  simp only [hlast, trim_expression (d := '"') hne hpath _ (by decide), parts?, hsuffix]

/-- What is found in an expression as it is written. -/
theorem parts?_written (hne : path ≠ []) (hpath : ∀ c ∈ path, Solid c) (test : Test)
    (hquote : '"' ∉ test.operand) :
    parts? (Text.trim (test.written path)) = some (test.taken path) := by
  rcases not_mem_path hpath with ⟨hblank, hequals, hmark⟩
  -- A blank behind the path belongs to the operator.
  have hbehind : Text.trim (path ++ [' ']) = path :=
    Text.dropEnds_before (by decide) fun c hc => (hpath c hc).1
  have hblanks : ∀ c ∈ [' '], Text.isBlank c = true := List.forall_mem_singleton.mpr (by decide)
  cases test with
  | present =>
      have hwritten : Test.present.written path = path ++ " exists".toList := rfl
      have htrim : Text.trim (path ++ " exists".toList) = path ++ " exists".toList :=
        trim_expression (d := 's') hne hpath " exist".toList (by decide)
      rw [hwritten, htrim, parts?, Text.dropSuffix?_append]
      exact congrArg (fun p => some (p, Test.present)) (trim_path hpath)
  | contains operand =>
      have hfound : split? " contains ".toList (path ++ (" contains ".toList ++
          '"' :: (operand ++ ['"']))) = some (path, operand) :=
        split?_front ' ' "contains ".toList [] [] hne (by rwa [List.append_nil])
          (by rw [List.append_nil, trim_path hpath]) nofun hquote
      refine (parts?_quoted hne hpath " contains ".toList).trans ?_
      rw [hfound]
      rfl
  | differs operand =>
      have hcontains := split?_quoted " contains ".toList " != ".toList operand hne
        hpath (by decide) (by decide) (splitFirst_contains_front '!' (by decide) hpath) hquote
        .contains
      have hfound : split? "!=".toList (path ++ (" != ".toList ++ '"' :: (operand ++ ['"']))) =
          some (path, operand) :=
        split?_front '!' "=".toList [' '] [' '] hne
          (List.not_mem_append hmark (by decide)) hbehind hblanks hquote
      -- The word in the operand, if there is one, is found first.
      refine (parts?_quoted hne hpath " != ".toList).trans ?_
      rw [hcontains, hfound, Test.taken, Test.intruder?]
      cases Test.intruder " contains ".toList .contains operand <;> rfl
  | equals operand =>
      have hcontains := split?_quoted " contains ".toList " == ".toList operand hne
        hpath (by decide) (by decide) (splitFirst_contains_front '=' (by decide) hpath) hquote
        .contains
      have hdiffers := split?_quoted "!=".toList " == ".toList operand hne hpath
        (by decide) (by decide) (Text.splitFirst_eq_none (c := '!') (by decide)
          (List.not_mem_append hmark (by decide))) hquote .differs
      have hfound : split? "==".toList (path ++ (" == ".toList ++ '"' :: (operand ++ ['"']))) =
          some (path, operand) :=
        split?_front '=' "=".toList [' '] [' '] hne
          (List.not_mem_append hequals (by decide)) hbehind hblanks hquote
      refine (parts?_quoted hne hpath " == ".toList).trans ?_
      rw [hcontains, hdiffers, hfound, Test.taken, Test.intruder?]
      cases Test.intruder " contains ".toList .contains operand with
      | some found => rfl
      | none => cases Test.intruder "!=".toList .differs operand <;> rfl

theorem intruder_eq_none_iff (operator : List Char) (make : List Char → Test)
    (operand : List Char) :
    Test.intruder operator make operand = none ↔ ¬ operator <:+: operand := by
  rw [Test.intruder, Option.map_eq_none_iff, Text.splitFirst_eq_none_iff]

/-- Nothing comes before the operator of a test when none of the operators that
    are looked for before it occurs in the operand. -/
theorem intruder?_eq_none_iff (test : Test) :
    test.intruder? = none ↔ ∀ operator ∈ test.earlier, ¬ operator <:+: test.operand := by
  cases test with
  | present => exact iff_of_true rfl nofun
  | contains operand => exact iff_of_true rfl nofun
  | differs operand =>
      rw [Test.intruder?, intruder_eq_none_iff, Test.earlier, List.forall_mem_singleton]
      rfl
  | equals operand =>
      rw [Test.intruder?, Option.or_eq_none_iff, intruder_eq_none_iff, intruder_eq_none_iff,
        Test.earlier, List.forall_mem_cons, List.forall_mem_singleton]
      rfl

/-- Letters, digits, underscores, hyphens and points are characters of a path. -/
theorem solid_of_plain {c : Char} (h : c.isAlphanum = true ∨ c ∈ "_-.".toList) : Solid c := by
  rcases h with halphanum | hmem
  · have hranges : ((decide (65 ≤ c.val ∧ c.val ≤ 90) || (97 ≤ c.val && c.val ≤ 122)) ||
        (48 ≤ c.val && c.val ≤ 57)) = true := halphanum
    have hrange : (65 ≤ c.toNat ∧ c.toNat ≤ 90) ∨ (97 ≤ c.toNat ∧ c.toNat ≤ 122) ∨
        (48 ≤ c.toNat ∧ c.toNat ≤ 57) := by
      simp only [Bool.or_eq_true, Bool.and_eq_true, decide_eq_true_eq, or_assoc,
        UInt32.le_iff_toNat_le] at hranges
      exact hranges
    -- No blank is in these ranges.
    have hblank : ¬ Text.isBlank c = true := by
      simp only [Text.isBlank, Bool.or_eq_true, Bool.and_eq_true, decide_eq_true_eq, beq_iff_eq]
      omega
    refine ⟨eq_false_of_ne_true hblank, ?_, ?_⟩
    · rintro rfl
      exact absurd hrange (by decide)
    · rintro rfl
      exact absurd hrange (by decide)
  · have hplain : ∀ c ∈ "_-.".toList, Solid c := List.all_iff_forall_prop.mp (by decide)
    exact hplain c hmem

/-- An operator that is neither in front of an operand nor in it is not found. -/
theorem split?_clean {operator front : List Char} (hoperator : operator ≠ [])
    (hoperatorQuote : '"' ∉ operator) (hfront : Text.splitFirst operator front = none)
    (hclean : ¬ operator <:+: operand) :
    split? operator (front ++ '"' :: (operand ++ ['"'])) = none := by
  have hsplit := splitFirst_quoted operand hoperator hoperatorQuote hfront
  rw [(Text.splitFirst_eq_none_iff operator operand).mpr hclean] at hsplit
  exact split?_eq_none hsplit

/-- The operators that are looked for. -/
def operators : List (List Char) := [" contains ".toList, "!=".toList, "==".toList]

/-- Nothing is found in an expression with none of the operators. -/
theorem parts?_unfound {c : Char} (hc : Text.isBlank c = false) (front operand : List Char)
    (h : ∀ operator ∈ operators,
      split? operator (c :: front ++ '"' :: (operand ++ ['"'])) = none) :
    parts? (Text.trim (' ' :: (c :: front ++ '"' :: (operand ++ ['"'])))) = none := by
  have hlast : c :: front ++ '"' :: (operand ++ ['"']) =
      (c :: front ++ '"' :: operand) ++ ['"'] := by
    simp only [List.append_assoc, List.cons_append]
  have htrim : Text.trim (' ' :: (c :: front ++ '"' :: (operand ++ ['"']))) =
      c :: front ++ '"' :: (operand ++ ['"']) := by
    rw [hlast, Text.trim, ← List.cons_append, Text.dropEnds_concat (by decide),
      List.dropWhile_cons_of_pos (by decide), List.cons_append,
      List.dropWhile_cons_of_neg (by rw [hc]; exact Bool.false_ne_true), List.cons_append]
  have hsuffix : Text.dropSuffix? " exists".toList (c :: front ++ '"' :: (operand ++ ['"'])) =
      none := by
    rw [hlast]
    exact Text.dropSuffix?_eq_none (c := 's') (by decide) " exist".toList _
  simp only [operators, List.forall_mem_cons] at h
  rw [htrim, parts?, hsuffix, h.1, h.2.1, h.2.2.1]
  rfl

/-- Without a path, nothing is found in an expression. -/
theorem parts?_pathless (test : Test) (hquote : '"' ∉ test.operand)
    (hclean : ∀ operator ∈ operators, ¬ operator <:+: test.operand) :
    parts? (Text.trim (test.written [])) = none := by
  have hwritten : ∀ operator ∈ operators, operator ≠ [] ∧ '"' ∉ operator := by decide
  -- In front of the operand, an operator is not there or there is no path before it.
  have hsplit : ∀ front, (∀ operator ∈ operators,
      Text.splitFirst operator front = none ∨ operator <+: front) → ∀ operator ∈ operators,
        split? operator (front ++ '"' :: (test.operand ++ ['"'])) = none := by
    intro front hfront operator hoperator
    rcases hwritten operator hoperator with ⟨hne, hoperatorQuote⟩
    rcases hfront operator hoperator with hnone | ⟨rest, rfl⟩
    · exact split?_clean hne hoperatorQuote hnone (hclean operator hoperator)
    · cases operator with
      | nil => exact absurd rfl hne
      | cons c tail =>
          rw [List.append_assoc]
          exact split?_pathless (Text.splitFirst_append c tail [] _ List.not_mem_nil)
  cases test with
  | present => decide
  | contains operand =>
      exact parts?_unfound (c := 'c') (by decide) "ontains ".toList operand
        (hsplit "contains ".toList (by decide))
  | differs operand =>
      exact parts?_unfound (c := '!') (by decide) "= ".toList operand
        (hsplit "!= ".toList (by decide))
  | equals operand =>
      exact parts?_unfound (c := '=') (by decide) "= ".toList operand
        (hsplit "== ".toList (by decide))

/-- A value under the names of a path, one inside of the other. -/
def nest (names : List (List Char)) (value : Json) : Json :=
  names.foldr (fun name inner => .object [(String.ofList name, inner)]) value

/-- The value that the parts of a path lead to, one after another. -/
def followAll (parts : List (List Char)) (value : Json) : Option Json :=
  parts.foldlM (fun value part => follow part value) value

theorem lookUp_eq (scope : Entries Json) (path : List Char) :
    lookUp scope path = followAll (Text.splitAt '.' path) (.object scope) := by
  rw [lookUp]
  cases h : Text.splitAt '.' path with
  | nil => exact absurd h (Text.splitAt_ne_nil '.' path)
  | cons first rest => rfl

/-- The names that a value is under lead to it. -/
theorem followAll_nest (names parts : List (List Char)) (value : Json) :
    followAll (names ++ parts) (nest names value) = followAll parts value := by
  induction names with
  | nil => rfl
  | cons name rest ih =>
      have hfollow : follow name (nest (name :: rest) value) = some (nest rest value) := if_pos rfl
      rw [followAll, List.cons_append, List.foldlM_cons, hfollow]
      exact ih

/-- Another name than the one a value is under leads nowhere. -/
theorem followAll_other {name other : List Char} (h : name ≠ other) (others : List (List Char))
    (value : Json) : followAll (other :: others) (nest [name] value) = none := by
  have hfollow : follow other (nest [name] value) = none :=
    if_neg fun heq => h (String.ofList_inj.mp heq)
  rw [followAll, List.foldlM_cons, hfollow]
  rfl

/-- A path leads to a value somewhere, and no longer text does that goes on with
    anything but a point. -/
theorem exists_scope (path : List Char) (value : Json) :
    ∃ scope, lookUp scope path = some value ∧
      ∀ c rest, c ≠ '.' → lookUp scope (path ++ c :: rest) = none := by
  rcases List.exists_cons_of_ne_nil (Text.splitAt_ne_nil '.' path) with ⟨name, names, hpath⟩
  refine ⟨[(String.ofList name, nest names value)], ?_, fun c rest hc => ?_⟩
  · rw [lookUp_eq, hpath]
    have h := followAll_nest (name :: names) [] value
    rwa [List.append_nil] at h
  · rcases Text.splitAt_append '.' path (c :: rest) with
      ⟨init, last, first, others, hinit, hrest, hwhole⟩
    have hfirst : first ≠ [] := by
      rintro rfl
      rw [Text.splitAt, if_neg hc] at hrest
      split at hrest <;> exact absurd (List.cons.inj hrest).1 (List.cons_ne_nil _ _)
    -- The longer text leads to a longer name in place of the last one.
    have hlonger : last ≠ last ++ first := fun heq => hfirst (List.self_eq_append_right.mp heq)
    have hnest : nest (name :: names) value = nest init (nest [last] value) := by
      rw [← hpath, hinit]
      exact List.foldr_append
    have hall := followAll_nest init ((last ++ first) :: others) (nest [last] value)
    rw [← hnest] at hall
    rw [lookUp_eq, hwhole]
    exact hall.trans (followAll_other hlonger others value)

/-- Every test holds for some value. -/
theorem exists_holds (test : Test) : ∃ value, test.Holds value := by
  have htext : ∀ s, textOf (.string (String.ofList s)) = s := fun s => String.toList_ofList
  cases test with
  | present => exact ⟨.bool true, nofun⟩
  | contains operand =>
      refine ⟨.string (String.ofList operand), .inl ⟨_, rfl, ?_⟩⟩
      exact ⟨[], [], by rw [List.nil_append, List.append_nil, String.toList_ofList]⟩
  | differs operand =>
      refine ⟨.string (String.ofList ('"' :: operand)), ?_⟩
      rw [Test.Holds, htext]
      exact List.cons_ne_self '"' operand
  | equals operand => exact ⟨.string (String.ofList operand), htext operand⟩

/-- What an expression is taken for when an earlier operator is in its operand
    does not always say the same as the expression. -/
theorem exists_misread (hne : path ≠ []) (hpath : ∀ c ∈ path, Solid c) (test : Test)
    (h : test.intruder? ≠ none) :
    ∃ scope, LeadsTo scope path test ∧
      ¬ LeadsTo scope (test.taken path).1 (test.taken path).2 := by
  rcases Option.ne_none_iff_exists'.mp h with ⟨⟨left, other⟩, hintruder⟩
  rcases exists_holds test with ⟨value, hholds⟩
  rcases exists_scope path value with ⟨scope, hvalue, hlonger⟩
  refine ⟨scope, ⟨value, hvalue, hholds⟩, ?_⟩
  -- What is taken for the path goes on with a blank, so it leads nowhere.
  have hwords : ∃ rest, test.words = ' ' :: rest := by cases test <;> exact ⟨_, rfl⟩
  rcases hwords with ⟨rest, hwords⟩
  have htaken : (test.taken path).1 =
      path ++ ' ' :: (rest ++ '"' :: Text.dropRight Text.isBlank left) := by
    rw [Test.taken, hintruder, hwords]
    exact trim_front hne hpath (' ' :: rest) (by decide) left
  rw [htaken]
  rintro ⟨found, hfound, -⟩
  rw [hlonger ' ' _ (by decide)] at hfound
  exact nomatch hfound

/-- An expression with a path and a test says that the path leads to a value for
    which the test holds. It does so for every test in whose operand there is no
    operator that is looked for before its own, and for no other. What it is
    taken for then, is said by `Test.taken`. Without a path it is false. -/
theorem evaluate_written_iff (path : List Char) (test : Test) (hpath : ∀ c ∈ path, Solid c)
    (hquote : '"' ∉ test.operand) :
    (path ≠ [] → ∀ scope, evaluate (String.ofList (test.written path)) scope = true ↔
        LeadsTo scope (test.taken path).1 (test.taken path).2) ∧
      (path ≠ [] →
        ((∀ scope, evaluate (String.ofList (test.written path)) scope = true ↔
            LeadsTo scope path test) ↔
          ∀ operator ∈ test.earlier, ¬ operator <:+: test.operand)) ∧
      (path = [] → (∀ operator ∈ operators, ¬ operator <:+: test.operand) → ∀ scope,
        evaluate (String.ofList (test.written path)) scope = false) := by
  have hread : path ≠ [] → ∀ scope, evaluate (String.ofList (test.written path)) scope = true ↔
      LeadsTo scope (test.taken path).1 (test.taken path).2 := by
    intro hne scope
    rw [evaluate_iff, parts?_written hne hpath test hquote]
    constructor
    · rintro ⟨p, t, heq, hleads⟩
      rw [Option.some.inj heq]
      exact hleads
    · exact fun hleads => ⟨_, _, rfl, hleads⟩
  refine ⟨hread, fun hne => ?_, ?_⟩
  · simp only [hread hne]
    rw [← intruder?_eq_none_iff]
    constructor
    · intro hsame
      -- Otherwise there is a scope that tells the two readings apart.
      by_contra hintruder
      rcases exists_misread hne hpath test hintruder with ⟨scope, hleads, hmisread⟩
      exact hmisread ((hsame scope).mpr hleads)
    · intro hnone scope
      rw [Test.taken, hnone]
  · rintro rfl hclean scope
    refine eq_false_of_ne_true fun htrue => ?_
    rcases (evaluate_iff _ scope).mp htrue with ⟨p, t, hparts, -⟩
    rw [parts?_pathless test hquote hclean] at hparts
    exact nomatch hparts

/-- The operator of the expression, another one that is looked for later and a
    word may all be in the operand. -/
theorem evaluate_written_guarded :
    (∀ c ∈ "reply.note".toList, Solid c) ∧
      '"' ∉ (Test.differs "x != y == z exists".toList).operand ∧
      (∀ scope, evaluate "reply.note != \"x != y == z exists\"" scope = true ↔
        LeadsTo scope "reply.note".toList (.differs "x != y == z exists".toList)) ∧
      evaluate "reply.note != \"x != y == z exists\""
        [("reply", .object [("note", .string "x")])] = true := by
  have hplain : ∀ c ∈ "reply.note".toList, c.isAlphanum = true ∨ c ∈ "_-.".toList :=
    List.all_iff_forall_prop.mp (by decide)
  have hpath : ∀ c ∈ "reply.note".toList, Solid c := fun c hc => solid_of_plain (hplain c hc)
  have hquote : '"' ∉ (Test.differs "x != y == z exists".toList).operand := by decide
  have hclean : ∀ operator ∈ (Test.differs "x != y == z exists".toList).earlier,
      ¬ operator <:+: (Test.differs "x != y == z exists".toList).operand := by decide +kernel
  have hread := (evaluate_written_iff "reply.note".toList
    (.differs "x != y == z exists".toList) hpath hquote).2.1 (by decide)
  exact ⟨hpath, hquote, hread.mpr hclean, by decide +kernel⟩

/-- A text that is the same as the operand, letter by letter, is not found equal
    to it, because there is another operator in the operand. The path that is
    looked up goes on up to that operator. -/
theorem own_text_unequal :
    (∀ c ∈ "s".toList, c.isAlphanum = true ∨ c ∈ "_-.".toList) ∧ '"' ∉ "a != b".toList ∧
      LeadsTo [("s", .string "a != b")] "s".toList (.equals "a != b".toList) ∧
      evaluate "s == \"a != b\"" [("s", .string "a != b")] = false ∧
      (Test.equals "a != b".toList).taken "s".toList =
        ("s == \"a".toList, .differs "b".toList) := by
  refine ⟨List.all_iff_forall_prop.mp (by decide), by decide,
    ⟨.string "a != b", by decide +kernel, rfl⟩, by decide +kernel, ?_⟩
  decide +kernel

end Condition

end Workflow
