import Workflow.Proofs.Searching
import Workflow.Settings.File

/-!
# References That Are Substituted

What is left of a text when the references to variables in it are replaced.

A text is read as parts. A reference is a dollar sign with an opening brace, a
name that goes on up to the first closing brace, and that brace; every other
character is a part of its own. Only a reference that is closed is one, so a
dollar sign with a brace that is never closed is two characters like any other.
A text is read as parts in one way only (`Reads.unique`), and what is to be
substituted for it can therefore be said part by part (`Substitutes`): the value
of a variable that is set, and everything else as it is written. A value is not
read as parts again.

What is done is just this, but for one thing. When the end of a text comes
inside of a reference, the reference is taken for closed there
(`expandVariables_iff`). So a text like that is treated as the text with the
missing brace at its end (`completed`), and when the variable is not set a brace
appears that was never written (`brace_appears`).

## Main definitions

* `Part`: A character or a reference.
* `Reads`: The parts of a text.
* `Substitutes`: What is substituted for a text, said by its parts.
* `Refers`: A text refers to a variable.
* `Unclosed`: A reference of a text is never closed.
* `completed`: A text with the brace that is missing at its end.

## Theorems

* `Reads.unique`: A text has its parts.
* `Reads.flatMap_written`: The parts make up the text.
* `expandFrom_reference`, `expandFrom_unclosed`: What is done inside of a
  reference.
* `missing_eq_nil_iff`: When no brace is missing.
* `exists_reads`: Every text has parts, and its parts are substituted.
* `expandVariables_iff`: What is substituted for a text.
* `brace_appears`: A text that does not stay as it is.
-/

namespace Workflow

/-- A part of a text: a character that stands for itself, or a reference to a
    variable. -/
inductive Part
  | char (c : Char)
  | reference (name : List Char)
deriving DecidableEq, Repr

namespace Part

/-- How a part is written. -/
def written : Part → List Char
  | char c => [c]
  | reference name => '$' :: '\x7b' :: (name ++ ['\x7d'])

/-- What is substituted for a part: the value of a variable that is set, and
    otherwise the part as it is written. -/
def value (environment : String → Option String) : Part → List Char
  | char c => [c]
  | reference name =>
      match environment (String.ofList name) with
      | some value => value.toList
      | none => (reference name).written

end Part

/-- A closed reference stands at the beginning of a text. -/
def BeginsWithReference (cs : List Char) : Prop :=
  ∃ name rest, cs = '$' :: '\x7b' :: (name ++ '\x7d' :: rest)

/-- The parts of a text. The name in a reference ends before the first closing
    brace. -/
inductive Reads : List Char → List Part → Prop
  | nil : Reads [] []
  | reference {rest : List Char} {parts : List Part} (name : List Char)
      (hname : '\x7d' ∉ name) (h : Reads rest parts) :
      Reads ('$' :: '\x7b' :: (name ++ '\x7d' :: rest)) (.reference name :: parts)
  | char {rest : List Char} {parts : List Part} (c : Char)
      (hplain : ¬ BeginsWithReference (c :: rest)) (h : Reads rest parts) :
      Reads (c :: rest) (.char c :: parts)

/-- What is substituted for a text: what is substituted for its parts. -/
def Substitutes (environment : String → Option String) (cs out : List Char) : Prop :=
  ∃ parts, Reads cs parts ∧ out = parts.flatMap (Part.value environment)

/-- A text refers to a variable. -/
def Refers (cs name : List Char) : Prop := ∃ parts, Reads cs parts ∧ .reference name ∈ parts

/-- A reference of a text is never closed. -/
def Unclosed (cs : List Char) : Prop :=
  ∃ before name, cs = before ++ '$' :: '\x7b' :: name ∧ '\x7d' ∉ name

/-- The brace that is missing at the end of a text in which a reference is
    never closed. -/
def missing : List Char → List Char
  | [] => []
  | c :: rest =>
      if c = '$' ∧ rest.head? = some '\x7b' ∧ '\x7d' ∉ rest then ['\x7d'] else missing rest

/-- A text with the brace that is missing at its end. -/
def completed (cs : List Char) : List Char := cs ++ missing cs

/-- A text has its parts, and no others. -/
theorem Reads.unique {cs : List Char} {parts others : List Part} (h : Reads cs parts)
    (hother : Reads cs others) : parts = others := by
  induction h generalizing others with
  | nil =>
      cases hother
      rfl
  | @reference rest parts name hname _ ih =>
      generalize hcs : '$' :: '\x7b' :: (name ++ '\x7d' :: rest) = cs at hother
      cases hother with
      | nil => exact absurd hcs nofun
      | reference name' hname' hrest =>
          -- Both names end before the first closing brace.
          have htail := (List.cons.inj (List.cons.inj hcs).2).2
          rcases Text.first_unique hname hname' htail with ⟨rfl, rfl⟩
          rw [ih hrest]
      | char c hplain _ => exact absurd ⟨name, rest, hcs.symm⟩ hplain
  | char c hplain _ ih =>
      cases hother with
      | reference name _ _ => exact absurd ⟨name, _, rfl⟩ hplain
      | char _ _ hrest => rw [ih hrest]

/-- The parts of a text make up the text. -/
theorem Reads.flatMap_written {cs : List Char} {parts : List Part} (h : Reads cs parts) :
    parts.flatMap Part.written = cs := by
  induction h with
  | nil => rfl
  | reference name _ _ ih =>
      rw [List.flatMap_cons, ih, Part.written, List.cons_append, List.cons_append,
        List.append_assoc, List.singleton_append]
  | char c _ _ ih =>
      rw [List.flatMap_cons, ih, Part.written, List.singleton_append]

/-- Where no brace is closed every part is a character. -/
theorem reads_plain (cs : List Char) (h : '\x7d' ∉ cs) : Reads cs (cs.map Part.char) := by
  induction cs with
  | nil => exact Reads.nil
  | cons c rest ih =>
      refine Reads.char c ?_ (ih fun hrest => h (List.mem_cons_of_mem c hrest))
      rintro ⟨name, after, heq⟩
      rw [heq] at h
      exact h (List.mem_cons_of_mem _ (List.mem_cons_of_mem _
        (List.mem_append_right name List.mem_cons_self)))

/-- A text stays as it is when no variable is set that it refers to. -/
theorem Reads.flatMap_value {cs : List Char} {parts : List Part} (h : Reads cs parts)
    (environment : String → Option String)
    (hunset : ∀ name, .reference name ∈ parts → environment (String.ofList name) = none) :
    parts.flatMap (Part.value environment) = cs := by
  have hsame : ∀ part ∈ parts, part.value environment = part.written := by
    intro part hpart
    cases part with
    | char c => rfl
    | reference name => rw [Part.value, hunset name hpart]
  rw [List.flatMap_congr hsame, h.flatMap_written]

/-- A reference that is closed is resolved, and what follows it is expanded. -/
theorem expandFrom_reference (environment : String → Option String) (name more rest : List Char)
    (hmore : '\x7d' ∉ more) : expandFrom environment (some name) (more ++ '\x7d' :: rest) =
      resolveVariable environment (name ++ more) ++ expandFrom environment none rest := by
  induction more generalizing name with
  | nil => rw [List.nil_append, expandFrom.eq_4, List.append_nil]
  | cons c tail ih =>
      rw [List.mem_cons, not_or] at hmore
      rw [List.cons_append, expandFrom.eq_5 _ _ _ _ (fun h => hmore.1 h.symm),
        ih (name ++ [c]) hmore.2, List.append_assoc, List.singleton_append]

/-- A reference that is never closed is resolved at the end. -/
theorem expandFrom_unclosed (environment : String → Option String) (name more : List Char)
    (hmore : '\x7d' ∉ more) : expandFrom environment (some name) more =
      resolveVariable environment (name ++ more) := by
  induction more generalizing name with
  | nil => rw [expandFrom.eq_6, List.append_nil]
  | cons c tail ih =>
      rw [List.mem_cons, not_or] at hmore
      rw [expandFrom.eq_5 _ _ _ _ (fun h => hmore.1 h.symm), ih (name ++ [c]) hmore.2,
        List.append_assoc, List.singleton_append]

/-- Nothing is missing before a closing brace. -/
theorem missing_append (xs rest : List Char) : missing (xs ++ '\x7d' :: rest) = missing rest := by
  induction xs with
  | nil => rw [List.nil_append, missing, if_neg fun h => absurd h.1 (by decide)]
  | cons c tail ih =>
      rw [List.cons_append, missing,
        if_neg fun h => h.2.2 (List.mem_append_right _ List.mem_cons_self), ih]

/-- A brace is missing where a reference is never closed. -/
theorem missing_eq_nil_iff (cs : List Char) : missing cs = [] ↔ ¬ Unclosed cs := by
  induction cs with
  | nil =>
      refine ⟨fun _ h => ?_, fun _ => rfl⟩
      rcases h with ⟨before, name, heq, -⟩
      exact absurd heq.symm (List.append_ne_nil_of_right_ne_nil before (List.cons_ne_nil _ _))
  | cons c rest ih =>
      rw [missing]
      by_cases hopen : c = '$' ∧ rest.head? = some '\x7b' ∧ '\x7d' ∉ rest
      · rcases hopen with ⟨rfl, hhead, hrest⟩
        rcases List.head?_eq_some_iff.mp hhead with ⟨name, rfl⟩
        have hunclosed : Unclosed ('$' :: '\x7b' :: name) :=
          ⟨[], name, rfl, fun h => hrest (List.mem_cons_of_mem _ h)⟩
        rw [if_pos ⟨rfl, rfl, hrest⟩]
        exact iff_of_false (List.cons_ne_nil _ _) (not_not.mpr hunclosed)
      -- A reference that is never closed does not begin here, so it begins further on.
      · rw [if_neg hopen, ih, not_iff_not]
        constructor
        · rintro ⟨before, name, rfl, hname⟩
          exact ⟨c :: before, name, rfl, hname⟩
        · rintro ⟨before, name, heq, hname⟩
          cases before with
          | nil =>
              rcases List.cons.inj heq with ⟨rfl, rfl⟩
              have hrest : '\x7d' ∉ '\x7b' :: name :=
                List.not_mem_cons_of_ne_of_not_mem (by decide) hname
              exact absurd ⟨rfl, rfl, hrest⟩ hopen
          | cons d tail => exact ⟨tail, name, (List.cons.inj heq).2, hname⟩

theorem completed_eq_iff (cs : List Char) : completed cs = cs ↔ ¬ Unclosed cs := by
  rw [← missing_eq_nil_iff, completed, List.append_right_eq_self]

theorem completed_reference (name rest : List Char) :
    completed ('$' :: '\x7b' :: (name ++ '\x7d' :: rest)) =
      '$' :: '\x7b' :: (name ++ '\x7d' :: completed rest) := by
  have hmissing := missing_append ('$' :: '\x7b' :: name) rest
  rw [List.cons_append, List.cons_append] at hmissing
  rw [completed, hmissing, completed, List.cons_append, List.cons_append, List.append_assoc,
    List.cons_append]

theorem completed_unclosed (name : List Char) (hname : '\x7d' ∉ name) :
    completed ('$' :: '\x7b' :: name) = '$' :: '\x7b' :: (name ++ ['\x7d']) := by
  have hrest : '\x7d' ∉ '\x7b' :: name :=
    List.not_mem_cons_of_ne_of_not_mem (by decide) hname
  rw [completed, missing, if_pos ⟨rfl, rfl, hrest⟩]
  rfl

/-- A character that does not begin a reference does not begin one either when
    the text is completed. -/
theorem completed_char (c : Char) (rest : List Char)
    (hplain : ∀ tail, c :: rest ≠ '$' :: '\x7b' :: tail) :
    completed (c :: rest) = c :: completed rest ∧ ¬ BeginsWithReference (c :: completed rest) := by
  have hhead : ¬ (c = '$' ∧ rest.head? = some '\x7b') := by
    rintro ⟨rfl, hrest⟩
    rcases List.head?_eq_some_iff.mp hrest with ⟨tail, rfl⟩
    exact hplain tail rfl
  refine ⟨?_, ?_⟩
  · rw [completed, missing, if_neg fun h => hhead ⟨h.1, h.2.1⟩, completed, List.cons_append]
  · rintro ⟨name, after, heq⟩
    rcases List.cons.inj heq with ⟨rfl, hrest⟩
    cases rest with
    | nil => exact absurd hrest nofun
    | cons d tail => exact hplain tail (by rw [(List.cons.inj hrest).1])

/-- Every text has parts when no brace is missing at its end any more, and what
    they are substituted by is what is done. -/
theorem exists_reads (environment : String → Option String) (cs : List Char) :
    ∃ parts, Reads (completed cs) parts ∧
      expandFrom environment none cs = parts.flatMap (Part.value environment) := by
  induction hlength : cs.length using Nat.strongRecOn generalizing cs with
  | ind n ih =>
    by_cases hdollar : ∃ rest, cs = '$' :: '\x7b' :: rest
    · rcases hdollar with ⟨rest, rfl⟩
      rw [expandFrom.eq_1]
      by_cases hclosed : '\x7d' ∈ rest
      -- The reference ends at the first closing brace.
      · rcases List.eq_append_cons_of_mem hclosed with ⟨name, after, rfl, hname⟩
        have hlt : after.length < n := by
          simp only [List.length_cons, List.length_append] at hlength
          omega
        rcases ih _ hlt after rfl with ⟨parts, hreads, hexpand⟩
        refine ⟨.reference name :: parts, ?_, ?_⟩
        · rw [completed_reference]
          exact Reads.reference name hname hreads
        · rw [expandFrom_reference environment [] name after hname, hexpand]
          rfl
      -- It is never closed, and all that follows is taken for its name.
      · refine ⟨[.reference rest], ?_, ?_⟩
        · rw [completed_unclosed rest hclosed]
          exact Reads.reference rest hclosed Reads.nil
        · rw [expandFrom_unclosed environment [] rest hclosed, List.flatMap_singleton]
          rfl
    · cases cs with
      | nil => exact ⟨[], Reads.nil, rfl⟩
      | cons c rest =>
          have hplain : ∀ tail, c :: rest ≠ '$' :: '\x7b' :: tail := fun tail h => hdollar ⟨tail, h⟩
          -- Any other character is taken as it is.
          rcases ih _ (by rw [← hlength]; exact Nat.lt_succ_self _) rest rfl with
            ⟨parts, hreads, hexpand⟩
          rcases completed_char c rest hplain with ⟨hcompleted, hbegins⟩
          refine ⟨.char c :: parts, ?_, ?_⟩
          · rw [hcompleted]
            exact Reads.char c hbegins hreads
          · rw [expandFrom.eq_2 _ _ _ fun tail hc hrest => hplain tail (by rw [hc, hrest]),
              hexpand]
            rfl

/-- What is substituted for a text is what is done to it, when the brace that
    is missing at its end is added. It stays as it is when no variable is set
    that it refers to. No brace is missing unless a reference is never closed. -/
theorem expandVariables_iff (environment : String → Option String) (text : String) :
    (∀ out, Substitutes environment (completed text.toList) out ↔
        String.ofList out = expandVariables environment text) ∧
      ((∀ name, Refers (completed text.toList) name →
          environment (String.ofList name) = none) →
        expandVariables environment text = String.ofList (completed text.toList)) ∧
      (completed text.toList = text.toList ↔ ¬ Unclosed text.toList) := by
  rcases exists_reads environment text.toList with ⟨parts, hreads, hexpand⟩
  refine ⟨fun out => ?_, fun hunset => ?_, completed_eq_iff text.toList⟩
  · rw [expandVariables, hexpand, String.ofList_inj]
    constructor
    -- A text reads in one way only.
    · rintro ⟨others, hothers, rfl⟩
      rw [hothers.unique hreads]
    · exact fun heq => ⟨parts, hreads, heq⟩
  · rw [expandVariables, hexpand, hreads.flatMap_value environment]
    exact fun name hname => hunset name ⟨parts, hreads, hname⟩

/-- Settings with a reference that is never closed. -/
def openEnded : String := "[store]\npath = \"$\x7bDATA\"\n"

/-- No variable is set, and there is no reference in the text, so it should stay
    as it is. But a brace appears at its end, and the settings, which can be read
    as they are written, can not be read any more. -/
theorem brace_appears :
    Substitutes (fun _ => none) openEnded.toList openEnded.toList ∧
      (∀ name, ¬ Refers openEnded.toList name) ∧
      expandVariables (fun _ => none) openEnded = openEnded ++ "\x7d" ∧
      (Toml.read? openEnded).bind (Settings.decode Settings.scope) =
        some { store := "$\x7bDATA" } ∧
      Settings.ofText? (fun _ => none) openEnded = none := by
  have hreads := reads_plain openEnded.toList (by decide +kernel)
  have hrefers : ∀ name, ¬ Refers openEnded.toList name := by
    -- What is read consists of single characters, and none of them refers to anything.
    rintro name ⟨parts, hparts, hname⟩
    rw [hparts.unique hreads] at hname
    rcases List.mem_map.mp hname with ⟨c, -, heq⟩
    exact absurd heq nofun
  refine ⟨⟨_, hreads, ?_⟩, hrefers, by decide +kernel, by decide +kernel, by decide +kernel⟩
  exact (hreads.flatMap_value _ fun _ _ => rfl).symm

end Workflow
