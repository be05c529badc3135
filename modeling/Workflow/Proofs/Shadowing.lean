import Mathlib.Data.List.Induction
import Mathlib.Data.List.Nodup
import Workflow.Handler.Basic

/-!
# Which Value a Condition Sees

What a name stands for in the expression of a Condition.

Everything that a Condition is given shares one space of names. What the run was
started with comes first, if it is an object, and then what the nodes before the
Condition have put out, in the order of their ids. An object gives its members
under their names, and everything else is given whole under the id of its node. A
later gift replaces an earlier one of the same name, whichever way the two came
by it, so a name stands for the last value that is given for it
(`find?_scope_iff`), and for nothing if none is given (`find?_scope_eq_none_iff`).

Outputs are put in one after another, so the argument is an induction that takes
the last of them away.

## Main definitions

* `Json.Distinct`: No two members of an object have the same name.
* `Condition.given?`: What the output of a node gives for a name.
* `Condition.Prevails`: The last value that is given for a name.

## Theorems

* `Entries.findSome?_reverse_eq_some_iff`: What a search from the last entry finds.
* `find?_contribution`: What a node contributes under a name.
* `find?_scope`: What a name stands for, as a search from the last output.
* `find?_scope_iff`, `find?_scope_eq_none_iff`: The same by the ids of nodes.
* `Handler.judged`: What a Condition answers, and in which scope.
-/

namespace Workflow

/-- No two members of an object have the same name. -/
def Json.Distinct (v : Json) : Prop := ∀ members, v = .object members → (Entries.keys members).Nodup

namespace Entries

variable {β : Type}

/-- Entries that come later in an ordered list are those with greater keys. -/
theorem Ordered.mem_after_iff {before after : Entries β} {entry : String × β}
    (h : Ordered (before ++ entry :: after)) (other : String × β) :
    other ∈ after ↔ other ∈ before ++ entry :: after ∧ entry.1 < other.1 := by
  rcases List.pairwise_append.mp h with ⟨-, hrest, hacross⟩
  have hafter := (List.pairwise_cons.mp hrest).1
  constructor
  · intro hmem
    exact ⟨List.mem_append_right _ (List.mem_cons_of_mem _ hmem), hafter other hmem⟩
  · rintro ⟨hmem, hlt⟩
    rcases List.mem_append.mp hmem with hbefore | hrest
    · exact absurd (String.lt_trans hlt (hacross other hbefore entry List.mem_cons_self))
        (String.lt_irrefl _)
    · rcases List.mem_cons.mp hrest with rfl | hmem
      · exact absurd hlt (String.lt_irrefl _)
      · exact hmem

section Search

variable {γ : Type} (f : String → β → Option γ) {entries : Entries β} (hordered : entries.Ordered)

include hordered

/-- A search from the last entry on finds what the greatest key gives that gives
    anything. -/
theorem findSome?_reverse_eq_some_iff (found : γ) :
    entries.reverse.findSome? (fun entry => f entry.1 entry.2) = some found ↔
      ∃ key value, find? key entries = some value ∧ f key value = some found ∧
        ∀ later other, find? later entries = some other → key < later → f later other = none := by
  have hmem := find?_eq_some_iff entries hordered.nodup_keys
  rw [List.findSome?_eq_some_iff]
  constructor
  · rintro ⟨after, entry, before, heq, hfound, hlast⟩
    have hsplit : entries = before.reverse ++ entry :: after.reverse := by
      rw [← List.reverse_reverse entries, heq, List.reverse_append, List.reverse_cons,
        List.append_assoc, List.singleton_append]
    refine ⟨entry.1, entry.2, (hmem _ _).mpr ?_, hfound, fun later other hlater hlt => ?_⟩
    · rw [hsplit]
      exact List.mem_append_right _ List.mem_cons_self
    -- What has a greater key was searched before.
    · rw [hsplit] at hordered
      rw [hmem, hsplit] at hlater
      have hafter := (hordered.mem_after_iff (later, other)).mpr ⟨hlater, hlt⟩
      exact hlast (later, other) (List.mem_reverse.mp hafter)
  · rintro ⟨key, value, hvalue, hfound, hlast⟩
    rcases List.append_of_mem ((hmem key value).mp hvalue) with ⟨before, after, hsplit⟩
    refine ⟨after.reverse, (key, value), before.reverse, ?_, hfound, fun other hother => ?_⟩
    · rw [hsplit, List.reverse_append, List.reverse_cons, List.append_assoc,
        List.singleton_append]
    · rw [hsplit] at hordered
      have hafter := (hordered.mem_after_iff other).mp (List.mem_reverse.mp hother)
      rw [← hsplit] at hafter
      exact hlast other.1 other.2 ((hmem _ _).mpr hafter.1) hafter.2

theorem findSome?_reverse_eq_none_iff :
    entries.reverse.findSome? (fun entry => f entry.1 entry.2) = none ↔
      ∀ key value, find? key entries = some value → f key value = none := by
  have hmem := find?_eq_some_iff entries hordered.nodup_keys
  simp only [List.findSome?_eq_none_iff, List.mem_reverse, Prod.forall, hmem]

end Search

end Entries

namespace Condition

/-- What the output of a node gives for a name: the member of that name, if the
    output is an object, and otherwise itself, if the node has that name. -/
def given? (name : String) (id : NodeId) : Json → Option Json
  | .object members => Entries.find? name members
  | output => if id = name then some output else none

/-- A value is the last one that is given for a name. Either the output of a node
    gives it, and that of no node with a greater id gives any, or no output gives
    any, and what the run was started with is an object that has it. -/
inductive Prevails (runInput : Json) (inputs : Entries Json) (name : String) : Json → Prop
  | output {id : NodeId} {output value : Json} (hinput : Entries.find? id inputs = some output)
      (hgiven : given? name id output = some value)
      (hlast : ∀ later other, Entries.find? later inputs = some other → id < later →
        given? name later other = none) : Prevails runInput inputs name value
  | start {value : Json} (hgiven : runInput.get? name = some value)
      (hnone : ∀ id output, Entries.find? id inputs = some output →
        given? name id output = none) : Prevails runInput inputs name value

/-- What a node contributes is what its output gives, name by name. -/
theorem find?_contribution (name : String) (id : NodeId) (output : Json) :
    Entries.find? name (contribution id output) = given? name id output := by
  cases output <;> rfl

theorem nodup_contribution (id : NodeId) {output : Json} (h : output.Distinct) :
    (Entries.keys (contribution id output)).Nodup := by
  cases output with
  | object members => exact h members rfl
  | _ => exact List.nodup_singleton id

theorem scope_append (runInput : Json) (inputs : Entries Json) (input : NodeId × Json) :
    scope runInput (inputs ++ [input]) =
      (scope runInput inputs).merge (contribution input.1 input.2) :=
  List.foldl_append

theorem scope_nil (runInput : Json) (name : String) (h : runInput.Distinct) :
    Entries.find? name (scope runInput []) = runInput.get? name := by
  cases runInput with
  | object members =>
      have hfound := Entries.find?_merge name [] members (h members rfl)
      exact hfound.trans Option.or_none
  | _ => rfl

theorem ordered_scope (runInput : Json) (inputs : Entries Json) :
    Entries.Ordered (scope runInput inputs) := by
  induction inputs using List.reverseRecOn with
  | nil =>
      cases runInput with
      | object members => exact Entries.ordered_ofList members
      | _ => exact List.Pairwise.nil
  | append_singleton inputs input ih =>
      rw [scope_append]
      exact Entries.ordered_merge ih _

section Scope

variable {runInput : Json} {inputs : Entries Json} (hstart : runInput.Distinct)
  (houtputs : ∀ input ∈ inputs, input.2.Distinct)

include hstart houtputs

/-- What a name stands for is searched among the outputs from the last one on, and
    then in what the run was started with. -/
theorem find?_scope (name : String) : Entries.find? name (scope runInput inputs) =
    (inputs.reverse.findSome? fun input => given? name input.1 input.2).or
      (runInput.get? name) := by
  induction inputs using List.reverseRecOn with
  | nil => exact scope_nil runInput name hstart
  | append_singleton inputs input ih =>
      have hlast := houtputs input (List.mem_append_right _ List.mem_cons_self)
      have hbefore := ih fun other hother => houtputs other (List.mem_append_left _ hother)
      rw [scope_append, Entries.find?_merge _ _ _ (nodup_contribution input.1 hlast),
        find?_contribution, hbefore, ← Option.or_assoc]
      congr 1
      rw [List.reverse_append, List.reverse_singleton, List.singleton_append, List.findSome?_cons]
      cases given? name input.1 input.2 <;> rfl

variable (hordered : inputs.Ordered)

include hordered

/-- A name stands for the last value that is given for it. -/
theorem find?_scope_iff (name : String) (value : Json) :
    Entries.find? name (scope runInput inputs) = some value ↔
      Prevails runInput inputs name value := by
  rw [find?_scope hstart houtputs, Option.or_eq_some_iff,
    Entries.findSome?_reverse_eq_some_iff (given? name) hordered,
    Entries.findSome?_reverse_eq_none_iff (given? name) hordered]
  constructor
  · rintro (⟨id, output, hinput, hgiven, hlast⟩ | ⟨hnone, hgiven⟩)
    · exact .output hinput hgiven hlast
    · exact .start hgiven hnone
  · rintro (⟨hinput, hgiven, hlast⟩ | ⟨hgiven, hnone⟩)
    · exact Or.inl ⟨_, _, hinput, hgiven, hlast⟩
    · exact Or.inr ⟨hnone, hgiven⟩

/-- A name stands for nothing exactly when nobody gives anything for it. -/
theorem find?_scope_eq_none_iff (name : String) :
    Entries.find? name (scope runInput inputs) = none ↔ runInput.get? name = none ∧
      ∀ id output, Entries.find? id inputs = some output → given? name id output = none := by
  rw [find?_scope hstart houtputs, Option.or_eq_none_iff, and_comm,
    Entries.findSome?_reverse_eq_none_iff (given? name) hordered]

end Scope

end Condition

namespace Handler

/-- What a Condition answers. Its scope has the last value that is given for a
    name, and no value exactly where none is given; the expression is evaluated
    in that scope, and the scope is handed on. -/
theorem judged (call : Call) (hstart : call.runInput.Distinct)
    (houtputs : ∀ input ∈ call.inputs, input.2.Distinct) (hordered : call.inputs.Ordered) :
    (∀ name value, Entries.find? name (Condition.scope call.runInput call.inputs) = some value ↔
        Condition.Prevails call.runInput call.inputs name value) ∧
      (∀ name, Entries.find? name (Condition.scope call.runInput call.inputs) = none ↔
        call.runInput.get? name = none ∧ ∀ id output, Entries.find? id call.inputs = some output →
          Condition.given? name id output = none) ∧
      Entries.Ordered (Condition.scope call.runInput call.inputs) ∧
      ∀ expression, Entries.find? "expression" call.config = some (.string expression) →
        Text.trim expression.toList ≠ [] →
        judge call = .ok (.object [("expression", .string expression),
          ("inputs", .object (Condition.scope call.runInput call.inputs)),
          ("matched", .bool (Condition.evaluate expression
            (Condition.scope call.runInput call.inputs)))]) := by
  refine ⟨Condition.find?_scope_iff hstart houtputs hordered,
    Condition.find?_scope_eq_none_iff hstart houtputs hordered,
    Condition.ordered_scope call.runInput call.inputs, fun expression hconfig hwords => ?_⟩
  have hfilled : ¬ (Text.trim expression.toList).isEmpty = true := fun hempty =>
    hwords (List.isEmpty_iff.mp hempty)
  rw [judge, hconfig]
  exact if_neg hfilled

/-- A Condition for which everybody has something that is called b. -/
def crowded : Call where
  node := "check"
  runInput := .object [("b", .nat 1), ("status", .string "draft")]
  config := [("expression", .string "b == \"plain text\"")]
  inputs := [("a", .object [("b", .nat 2), ("status", .string "ready")]),
    ("b", .string "plain text"), ("c", .object [("a", .null)])]

/-- The node of that name prevails, and its output is seen. -/
theorem judged_crowded : crowded.runInput.Distinct ∧
    (∀ input ∈ crowded.inputs, input.2.Distinct) ∧ crowded.inputs.Ordered ∧
    Entries.find? "expression" crowded.config = some (.string "b == \"plain text\"") ∧
    Entries.find? "b" (Condition.scope crowded.runInput crowded.inputs) =
      some (.string "plain text") ∧
    Entries.find? "z" (Condition.scope crowded.runInput crowded.inputs) = none ∧
    judge crowded = .ok (.object [("expression", .string "b == \"plain text\""),
      ("inputs", .object (Condition.scope crowded.runInput crowded.inputs)),
      ("matched", .bool true)]) := by
  have hstart : crowded.runInput.Distinct := by
    rintro members ⟨⟩
    decide
  have houtputs : ∀ input ∈ crowded.inputs, input.2.Distinct := by
    simp only [crowded, List.forall_mem_cons]
    refine ⟨?_, nofun, ?_, nofun⟩
    · rintro members ⟨⟩
      decide
    · rintro members ⟨⟩
      decide
  have hordered : crowded.inputs.Ordered := by
    rw [Entries.Ordered]
    decide
  rcases judged crowded hstart houtputs hordered with ⟨hseen, hunseen, -, hjudge⟩
  -- Three outputs are there, and each of them is looked at.
  have hinputs := Entries.find?_eq_some_iff crowded.inputs hordered.nodup_keys
  have hconfig : Entries.find? "expression" crowded.config =
      some (.string "b == \"plain text\"") := by decide
  have hnode : Entries.find? "b" crowded.inputs = some (.string "plain text") := by decide
  refine ⟨hstart, houtputs, hordered, hconfig, (hseen "b" _).mpr ?_, (hunseen "z").mpr ?_, ?_⟩
  · refine .output hnode (by decide) fun later other hlater hlt => ?_
    rw [hinputs] at hlater
    simp only [crowded, List.mem_cons, Prod.mk.injEq, List.not_mem_nil, or_false] at hlater
    rcases hlater with ⟨rfl, rfl⟩ | ⟨rfl, rfl⟩ | ⟨rfl, rfl⟩
    · exact absurd hlt (by decide)
    · exact absurd hlt (by decide)
    · decide
  · refine ⟨by decide, fun id output hinput => ?_⟩
    rw [hinputs] at hinput
    simp only [crowded, List.mem_cons, Prod.mk.injEq, List.not_mem_nil, or_false] at hinput
    rcases hinput with ⟨rfl, rfl⟩ | ⟨rfl, rfl⟩ | ⟨rfl, rfl⟩ <;> decide
  · have htrue : Condition.evaluate "b == \"plain text\""
        (Condition.scope crowded.runInput crowded.inputs) = true := by decide
    rw [hjudge _ hconfig (by decide), htrue]

end Handler

end Workflow
