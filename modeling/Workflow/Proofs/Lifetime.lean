import Workflow.Proofs.Storing

/-!
# The Lifetime of a Stored Graph

A graph lives in a store from the save that creates it to the delete that
removes it. In between its version and the record of its publishing are books
on the operations that were done: which ones changed the snapshot, and which
ones recorded a publication. Here the books are read back from the list of
operations, for both kinds of stores and with operations on other ids in
between.

What one operation does to one id is one of three things (`Effect`), and each
book is kept by each of the three. A delete of the id is the one operation that
is left out: it ends the lifetime, and a later save begins the books anew.

## Main definitions

* `Turn.changes`, `Turn.records`: A save that replaced the snapshot under an id,
  and a publication that was recorded under it.
* `Turn.names`: A save names the version it was made from.
* `Turn.Effect`: What an operation does to an id.
* `RecordedSinceChange`: A publication was recorded after the last change.
* `Turn.Lawful`: What holds of each operation in a lifetime.
* `Books`: What holds of a lifetime as a whole.

## Theorems

* `effect`: Every operation but a delete of the id does one of three things.
* `versionOf_after`, `count_after`, `published_after`: The books are kept.
* `named_countP_le`: A version is named by one change at most.
* `lawful`: Every operation but a delete of the id is lawful.
* `books_of_lifetime`: The books of a lifetime.
-/

namespace Workflow

namespace Turn

/-- A save replaced the snapshot under an id, as the store compares. -/
def changes (t : Turn) (id : String) : Bool :=
  match t.operation with
  | .save key title graph _ =>
      decide (key = id) && t.answer.done && !t.before.holds id title graph
  | _ => false

/-- A publication was recorded under an id. -/
def records (t : Turn) (id : String) : Bool :=
  match t.operation with
  | .markPublished key _ => decide (key = id) && t.answer.done
  | _ => false

/-- A save names the version it was made from. -/
def names (t : Turn) (v : Nat) : Bool :=
  match t.operation with
  | .save _ _ _ expected => decide (expected = some v)
  | _ => false

/-- What an operation does to an id. -/
inductive Effect (t : Turn) (id : String) : Prop
  /-- It leaves what is stored there. -/
  | still (hchanges : t.changes id = false) (hrecords : t.records id = false)
      (hrow : t.after.row? id = t.before.row? id)
  /-- It stores another snapshot there. -/
  | changed (row : Row (Option Graph)) (hchanges : t.changes id = true)
      (hrecords : t.records id = false)
      (hnames : ∀ v, t.names v = true → v = t.before.versionOf id)
      (hrow : t.after.row? id = some row) (hversion : row.version = t.before.versionOf id + 1)
      (hpublish : row.publish = (t.before.publishOf id).outdate)
  /-- It records that what is stored there was published. -/
  | recorded (row : Row (Option Graph)) (hchanges : t.changes id = false)
      (hrecords : t.records id = true) (hbefore : t.before.row? id = some row)
      (hrow : t.after.row? id = some { row with publish := row.publish.stamp t.now })

/-- What concerns another id leaves an id alone. -/
theorem effect_of_other (t : Turn) {id : String} (h : t.operation.id? ≠ some id) :
    t.Effect id := by
  have hrow : t.after.row? id = t.before.row? id :=
    (t.before.sameAt_perform t.now t.operation h).row?_eq
  refine .still ?_ ?_ hrow
  · rw [changes]
    split
    -- A change under one id is none under another.
    · rename_i key _ _ _ hoperation
      have hkey : key ≠ id := fun he => h (by rw [hoperation, Operation.id?, he])
      simp only [hkey, decide_false, Bool.false_and]
    · rfl
  · rw [records]
    split
    · rename_i key _ hoperation
      have hkey : key ≠ id := fun he => h (by rw [hoperation, Operation.id?, he])
      simp only [hkey, decide_false, Bool.false_and]
    · rfl

/-- What a save under an id does to it. -/
theorem effect_of_save (s : Store) (now : Instant) (id title : String) (graph : Graph)
    (expected : Option Nat) : (Turn.mk s now (.save id title graph expected)).Effect id := by
  have hsaves := s.saves now id title graph expected
  cases hsave : s.save now id title graph expected with
  | error e =>
      refine .still ?_ rfl ?_
      -- What is refused changes nothing.
      · simp only [changes, answer, Store.perform, hsave, Response.done, Bool.and_false,
          Bool.false_and]
      · simp only [after, Store.perform, hsave]
  | ok saved =>
      rw [hsave] at hsaves
      have hdone : (Turn.mk s now (.save id title graph expected)).answer.done = true := by
        simp only [answer, Store.perform, hsave, Response.done]
      cases hsaves with
      | unchanged hversion hholds =>
          refine .still ?_ rfl ?_
          -- Nor does a snapshot that is stored already.
          · simp only [changes, hholds, Bool.not_true, Bool.and_false]
          · simp only [after, Store.perform, hsave]
      | changed hversion hholds =>
          -- Otherwise a row is stored that has the next version.
          obtain ⟨row, hrow, hnext, hpublish⟩ : ∃ row,
              (s.renew now id title graph).row? id = some row ∧
                row.version = s.versionOf id + 1 ∧ row.publish = (s.publishOf id).outdate :=
            ⟨_, (s.row?_renew now id title graph id).trans (if_pos rfl), rfl, rfl⟩
          refine .changed row ?_ rfl (fun v hv => hversion v (of_decide_eq_true hv)) ?_ hnext
            hpublish
          · simp only [changes, hdone, hholds, decide_true, Bool.not_false, Bool.and_true]
          · simp only [after, Store.perform, hsave]
            exact hrow

/-- What a publication recorded under an id does to it. -/
theorem effect_of_markPublished (s : Store) (now : Instant) (id : String) (version : Nat) :
    (Turn.mk s now (.markPublished id version)).Effect id := by
  have hmarks := s.marks now id version
  cases hmark : s.markPublished now id version with
  | error e =>
      refine .still rfl ?_ ?_
      · simp only [records, answer, Store.perform, hmark, Response.done, Bool.and_false]
      · simp only [after, Store.perform, hmark]
  | ok marked =>
      rw [hmark] at hmarks
      cases hmarks with
      | recorded row hrow hversion =>
          have hnew := s.row?_stamp now id id
          rw [if_pos rfl, hrow, Option.map_some] at hnew
          refine .recorded row rfl ?_ hrow ?_
          · simp only [records, answer, Store.perform, hmark, Response.done, decide_true,
              Bool.and_true]
          · simp only [after, Store.perform, hmark]
            exact hnew

/-- Every operation but a delete of the id does one of three things to it. -/
theorem effect (t : Turn) (id : String) (hlife : t.operation ≠ .delete id) : t.Effect id := by
  by_cases hid : t.operation.id? = some id
  · rcases t with ⟨s, now, operation⟩
    cases operation with
    | load key =>
        refine .still rfl rfl ?_
        rw [after, Store.perform]
        cases s.load key <;> rfl
    | save key title graph expected =>
        rw [← Option.some.inj hid]
        exact effect_of_save s now key title graph expected
    | list => exact absurd hid (by simp only [Operation.id?, reduceCtorEq, not_false_eq_true])
    | delete key => exact absurd (congrArg Operation.delete (Option.some.inj hid)) hlife
    | markPublished key version =>
        rw [← Option.some.inj hid]
        exact effect_of_markPublished s now key version
  · exact t.effect_of_other hid

end Turn

/-- A publication was recorded under an id after the last change. -/
def RecordedSinceChange (turns : List Turn) (id : String) : Prop :=
  ∃ earlier turn later, turns = earlier ++ turn :: later ∧ turn.records id = true ∧
    ∀ t ∈ later, t.changes id = false

/-- Whether a publication was recorded after the last change is told by the
    last operation, or by what came before it. -/
theorem recordedSinceChange_append (turns : List Turn) (turn : Turn) (id : String) :
    RecordedSinceChange (turns ++ [turn]) id ↔
      turn.records id = true ∨ turn.changes id = false ∧ RecordedSinceChange turns id := by
  constructor
  · rintro ⟨earlier, found, later, hsplit, hrecords, hlater⟩
    rcases List.eq_nil_or_concat later with hnil | ⟨front, last, hconcat⟩
    -- Nothing came later, so the last operation is the one that recorded.
    · rw [hnil] at hsplit
      have hlast := (List.append_inj' hsplit rfl).2
      exact Or.inl ((List.cons.inj hlast).1 ▸ hrecords)
    · rw [hconcat, List.concat_eq_append, ← List.cons_append, ← List.append_assoc] at hsplit
      have hparts := List.append_inj' hsplit rfl
      have hlast : turn = last := (List.cons.inj hparts.2).1
      rw [hconcat, List.concat_eq_append] at hlater
      refine Or.inr ⟨?_, earlier, found, front, hparts.1, hrecords, ?_⟩
      · rw [hlast]
        exact hlater last (List.mem_append_right _ List.mem_cons_self)
      · exact fun t ht => hlater t (List.mem_append_left _ ht)
  · rintro (hrecords | ⟨hchanges, earlier, found, later, hsplit, hrecords, hlater⟩)
    · exact ⟨turns, turn, [], rfl, hrecords, nofun⟩
    · refine ⟨earlier, found, later ++ [turn], ?_, hrecords, ?_⟩
      · rw [hsplit, List.append_assoc, List.cons_append]
      · intro t ht
        rcases List.mem_append.mp ht with hin | hin
        · exact hlater t hin
        · rw [List.mem_singleton.mp hin]
          exact hchanges

namespace Turn

variable {t : Turn} {id : String}

/-- The version goes up by one with a change, and with nothing else. -/
theorem versionOf_after (h : t.Effect id) :
    t.after.versionOf id = t.before.versionOf id + if t.changes id then 1 else 0 := by
  cases h with
  | still hchanges hrecords hrow =>
      rw [hchanges, Store.versionOf_eq, hrow, ← Store.versionOf_eq]
      rfl
  | changed row hchanges hrecords hnames hrow hversion hpublish =>
      rw [hchanges, Store.versionOf_eq, hrow]
      exact hversion
  | recorded row hchanges hrecords hbefore hrow =>
      rw [hchanges, Store.versionOf_eq, Store.versionOf_eq, hrow, hbefore]
      rfl

/-- What is known of the publishing after an operation. -/
theorem publishOf_after (h : t.Effect id) : t.after.publishOf id =
    if t.changes id then (t.before.publishOf id).outdate
    else if t.records id then (t.before.publishOf id).stamp t.now
    else t.before.publishOf id := by
  cases h with
  | still hchanges hrecords hrow =>
      rw [hchanges, hrecords, Store.publishOf, hrow]
      rfl
  | changed row hchanges hrecords hnames hrow hversion hpublish =>
      rw [hchanges, Store.publishOf, hrow]
      exact hpublish
  | recorded row hchanges hrecords hbefore hrow =>
      rw [hchanges, hrecords, Store.publishOf, Store.publishOf, hrow, hbefore]
      rfl

/-- A change does not record a publication. -/
theorem records_of_changes (t : Turn) (id : String) (h : t.changes id = true) :
    t.records id = false := by
  rw [changes] at h
  rw [records]
  cases hoperation : t.operation with
  | save key title graph expected => rfl
  | load key => rfl
  | list => rfl
  | delete key => rfl
  | markPublished key version =>
      rw [hoperation] at h
      exact absurd h Bool.false_ne_true

/-- A change that names a version is made from it. -/
theorem versionOf_of_names (h : t.Effect id) {v : Nat} (hchanges : t.changes id = true)
    (hnames : t.names v = true) : t.before.versionOf id = v := by
  cases h with
  | still hnone hrecords hrow => exact absurd (hchanges.symm.trans hnone) Bool.true_eq_false.mp
  | changed row hsome hrecords hversion hrow hnext hpublish => exact (hversion v hnames).symm
  | recorded row hnone hrecords hbefore hrow =>
      exact absurd (hchanges.symm.trans hnone) Bool.true_eq_false.mp

end Turn

namespace Store

/-- The version of an id that is not there. -/
theorem versionOf_of_absent {s : Store} {id : String} (h : s.row? id = none) :
    s.versionOf id = 0 := by
  rw [versionOf_eq, h]
  rfl

section Lifetime

variable {s : Store} {id : String} {ops : List (Instant × Operation)}
variable (hlife : ∀ entry ∈ ops, entry.2 ≠ .delete id)

include hlife

/-- A version is named by one change at most, and by none while it is to come. -/
theorem named_countP_le (v : Nat) :
    (s.turns ops).countP (fun turn => turn.changes id && turn.names v) ≤
      if v < (s.after ops).versionOf id then 1 else 0 := by
  refine turn_induction (fun past now =>
    past.countP _ ≤ if v < now.versionOf id then 1 else 0) s ops (Nat.zero_le _) ?_
  intro past turn hturn ih
  have heffect := turn.effect id (hlife _ hturn)
  rw [List.countP_append, List.countP_singleton, Turn.versionOf_after heffect]
  by_cases hchanges : turn.changes id = true
  · by_cases hnames : turn.names v = true
    -- The version that is named is the current one, so none named it before.
    · have hcurrent := Turn.versionOf_of_names heffect hchanges hnames
      rw [hcurrent, if_neg (Nat.lt_irrefl v)] at ih
      rw [hchanges, hnames, hcurrent, Bool.true_and, if_pos rfl,
        if_pos (Nat.lt_succ_self v)]
      omega
    · have hnone : turn.names v = false := (Bool.not_eq_true _).mp hnames
      simp only [hchanges, hnone, Bool.and_false, Bool.false_eq_true, if_false, if_true,
        Nat.add_zero]
      split at ih <;> split <;> omega
  · have hnone : turn.changes id = false := (Bool.not_eq_true _).mp hchanges
    simp only [hnone, Bool.false_and, Bool.false_eq_true, if_false, Nat.add_zero]
    exact ih

variable (habsent : s.row? id = none)

include habsent

/-- The version counts the changes. -/
theorem versionOf_eq_countP :
    (s.after ops).versionOf id = (s.turns ops).countP (Turn.changes · id) := by
  refine turn_induction (fun past now => now.versionOf id = past.countP _) s ops
    (versionOf_of_absent habsent) ?_
  intro past turn hturn ih
  have heffect := turn.effect id (hlife _ hturn)
  rw [Turn.versionOf_after heffect, ih, List.countP_append, List.countP_singleton]

/-- The count of publications counts those that were recorded, and the time
    of the last one is known when there is one. -/
theorem count_eq_countP :
    ((s.after ops).publishOf id).count = (s.turns ops).countP (Turn.records · id) ∧
      (((s.after ops).publishOf id).lastPublished.isSome = true ↔
        0 < ((s.after ops).publishOf id).count) := by
  refine turn_induction (fun past now =>
    (now.publishOf id).count = past.countP (Turn.records · id) ∧
      ((now.publishOf id).lastPublished.isSome = true ↔ 0 < (now.publishOf id).count))
    s ops ?_ ?_
  · rw [publishOf, habsent]
    exact ⟨rfl, by decide⟩
  · intro past turn hturn ih
    have heffect := turn.effect id (hlife _ hturn)
    rw [Turn.publishOf_after heffect, List.countP_append, List.countP_singleton, ← ih.1]
    by_cases hchanges : turn.changes id = true
    -- A change keeps the count and the time.
    · rw [if_pos hchanges, turn.records_of_changes id hchanges]
      exact ⟨rfl, ih.2⟩
    · rw [if_neg hchanges]
      by_cases hrecords : turn.records id = true
      · rw [if_pos hrecords, if_pos hrecords]
        exact ⟨rfl, iff_of_true rfl (Nat.succ_pos _)⟩
      · rw [if_neg hrecords, if_neg hrecords]
        exact ⟨rfl, ih.2⟩

/-- A snapshot counts as published when a publication was recorded after the
    last change. -/
theorem published_iff_recordedSinceChange :
    ((s.after ops).publishOf id).published = true ↔ RecordedSinceChange (s.turns ops) id := by
  refine turn_induction (fun past now =>
    ((now.publishOf id).published = true ↔ RecordedSinceChange past id)) s ops ?_ ?_
  · rw [publishOf, habsent]
    refine iff_of_false Bool.false_ne_true ?_
    rintro ⟨earlier, turn, later, hsplit, -, -⟩
    exact List.append_ne_nil_of_right_ne_nil earlier (List.cons_ne_nil turn later) hsplit.symm
  · intro past turn hturn ih
    rw [recordedSinceChange_append, Turn.publishOf_after (turn.effect id (hlife _ hturn)), ← ih]
    -- A snapshot that is replaced takes its mark away, and a publication gives one.
    by_cases hchanges : turn.changes id = true
    · rw [if_pos hchanges, turn.records_of_changes id hchanges, hchanges]
      simp only [PublishRecord.outdate, Bool.false_eq_true, Bool.true_eq_false, false_and, or_self]
    · rw [if_neg hchanges]
      by_cases hrecords : turn.records id = true
      · rw [if_pos hrecords]
        exact iff_of_true rfl (Or.inl hrecords)
      · rw [if_neg hrecords]
        have hnone : turn.changes id = false := (Bool.not_eq_true _).mp hchanges
        simp only [hrecords, hnone, Bool.false_eq_true, true_and, false_or]

/-- A graph is stored once it was changed. -/
theorem stored_iff_changed :
    ((s.after ops).row? id).isSome = true ↔
      0 < (s.turns ops).countP (Turn.changes · id) := by
  refine turn_induction (fun past now =>
    ((now.row? id).isSome = true ↔ 0 < past.countP (Turn.changes · id))) s ops ?_ ?_
  · rw [habsent]
    exact iff_of_false Bool.false_ne_true (Nat.lt_irrefl 0)
  · intro past turn hturn ih
    rw [List.countP_append, List.countP_singleton]
    cases turn.effect id (hlife _ hturn) with
    | still hchanges hrecords hrow =>
        rw [hrow, hchanges]
        exact ih
    | changed row hchanges hrecords hnames hrow hversion hpublish =>
        rw [hrow, hchanges, if_pos rfl]
        exact iff_of_true rfl (Nat.succ_pos _)
    | recorded row hchanges hrecords hbefore hrow =>
        rw [hrow, hchanges]
        rw [hbefore] at ih
        exact ih

end Lifetime

end Store

namespace Turn

/-- What holds of each operation while an id is alive. -/
structure Lawful (t : Turn) (id : String) : Prop where
  /-- A save that names a version is done when it is the current one, which is
      zero when there is none. -/
  save_naming : ∀ title graph v, t.operation = .save id title graph (some v) →
    (t.answer.done = true ↔ v = ((t.before.row? id).map Row.version).getD 0)
  /-- A save that names no version is done. -/
  save_any : ∀ title graph, t.operation = .save id title graph none → t.answer.done = true
  /-- A publication is recorded when what is stored has its version. -/
  mark : ∀ v, t.operation = .markPublished id v →
    (t.answer.done = true ↔ ∃ row, t.before.row? id = some row ∧ row.version = v)
  /-- The version goes up by one with a change, and with nothing else. -/
  version : t.after.versionOf id = t.before.versionOf id + if t.changes id then 1 else 0
  /-- What is created has version one. -/
  created : t.before.row? id = none → (t.after.row? id).isSome = true →
    t.after.versionOf id = 1
  /-- What is refused changes nothing. -/
  refused : t.answer.done = false → t.after = t.before
  /-- No other id is touched. -/
  others : ∀ other, t.operation.id? ≠ some other → t.before.SameAt t.after other

/-- A save is done when it names no version, or the current one. -/
theorem save_done_iff (s : Store) (now : Instant) (id title : String) (graph : Graph)
    (expected : Option Nat) :
    (Turn.mk s now (.save id title graph expected)).answer.done = true ↔
      ∀ v, expected = some v → v = s.versionOf id := by
  have hsaves := s.saves now id title graph expected
  rw [answer, Store.perform]
  revert hsaves
  rcases s.save now id title graph expected with e | saved
  · rintro ⟨v, hexpected, hother⟩
    exact iff_of_false Bool.false_ne_true fun h => hother (h v hexpected)
  · rintro (_ | hversion | hversion)
    · exact iff_of_true rfl hversion
    · exact iff_of_true rfl hversion

/-- A publication is recorded when what is stored has its version. -/
theorem markPublished_done_iff (s : Store) (now : Instant) (id : String) (version : Nat) :
    (Turn.mk s now (.markPublished id version)).answer.done = true ↔
      ∃ row, s.row? id = some row ∧ row.version = version := by
  have hmarks := s.marks now id version
  rw [answer, Store.perform]
  revert hmarks
  rcases s.markPublished now id version with e | marked
  · rintro (hrow | ⟨row, hrow, hother⟩)
    · refine iff_of_false Bool.false_ne_true ?_
      rintro ⟨row, hsome, -⟩
      exact absurd (hrow.symm.trans hsome) (by simp only [reduceCtorEq, not_false_eq_true])
    · refine iff_of_false Bool.false_ne_true ?_
      rintro ⟨found, hfound, hversion⟩
      have hsame : row = found := Option.some.inj (hrow.symm.trans hfound)
      exact hother (hsame ▸ hversion.symm)
  · rintro (- | - | ⟨row, hrow, hversion⟩)
    exact iff_of_true rfl ⟨row, hrow, hversion.symm⟩

/-- Every operation but a delete of the id is lawful. -/
theorem lawful (t : Turn) (id : String) (hlife : t.operation ≠ .delete id) : t.Lawful id := by
  have heffect := t.effect id hlife
  rcases t with ⟨s, now, operation⟩
  refine ⟨?_, ?_, ?_, versionOf_after heffect, ?_, s.perform_refused now operation,
    fun other hother => s.sameAt_perform now operation hother⟩
  · intro title graph v hoperation
    -- A save that names a version is made just when this is the stored one.
    simp only at hoperation
    rw [hoperation, save_done_iff, ← Store.versionOf_eq]
    exact ⟨fun h => h v rfl, fun h w hw => (Option.some.inj hw).symm.trans h⟩
  · intro title graph hoperation
    simp only at hoperation
    rw [hoperation, save_done_iff]
    exact nofun
  · intro v hoperation
    simp only at hoperation
    rw [hoperation, markPublished_done_iff]
  · intro hbefore hafter
    -- A graph that was absent and is stored now was saved, and its version is one.
    cases heffect with
    | still hchanges hrecords hrow =>
        rw [hrow, hbefore] at hafter
        exact absurd hafter Bool.false_ne_true
    | changed row hchanges hrecords hnames hrow hversion hpublish =>
        rw [Store.versionOf_eq, hrow, Option.map_some, Option.getD_some, hversion,
          Store.versionOf_of_absent hbefore]
    | recorded row hchanges hrecords hsome hrow =>
        exact absurd (hbefore.symm.trans hsome) (by simp only [reduceCtorEq, not_false_eq_true])

end Turn

/-- What holds of the operations on an id since it was not there, and of what
    they leave. -/
structure Books (id : String) (turns : List Turn) (s : Store) : Prop where
  /-- A graph is stored once it was changed. -/
  stored : (s.row? id).isSome = true ↔ 0 < turns.countP (Turn.changes · id)
  /-- The version counts the changes. -/
  version : s.versionOf id = turns.countP (Turn.changes · id)
  /-- A version is named by one change at most. -/
  named : ∀ v, turns.countP (fun turn => turn.changes id && turn.names v) ≤ 1
  /-- The count of publications counts those that were recorded. -/
  count : (s.publishOf id).count = turns.countP (Turn.records · id)
  /-- The time of the last one is known when there is one. -/
  stamped : (s.publishOf id).lastPublished.isSome = true ↔ 0 < (s.publishOf id).count
  /-- A snapshot counts as published when a publication was recorded after the
      last change. -/
  published : (s.publishOf id).published = true ↔ RecordedSinceChange turns id

/-- The books of a lifetime: whatever is asked of a store that does not have an
    id, under this id and under others, until the id is deleted. -/
theorem Store.books_of_lifetime (s : Store) (id : String) (ops : List (Instant × Operation))
    (habsent : s.row? id = none) (hlife : ∀ entry ∈ ops, entry.2 ≠ .delete id) :
    (∀ turn ∈ s.turns ops, turn.Lawful id) ∧ Books id (s.turns ops) (s.after ops) := by
  constructor
  · refine turn_induction (fun past _ => ∀ turn ∈ past, turn.Lawful id) s ops nofun ?_
    intro past turn hturn ih found hfound
    rcases List.mem_append.mp hfound with hin | hin
    · exact ih found hin
    · rw [List.mem_singleton.mp hin]
      exact turn.lawful id (hlife _ hturn)
  · refine ⟨stored_iff_changed hlife habsent, versionOf_eq_countP hlife habsent, ?_,
      (count_eq_countP hlife habsent).1, (count_eq_countP hlife habsent).2,
      published_iff_recordedSinceChange hlife habsent⟩
    intro v
    have hle := named_countP_le (s := s) hlife v
    split at hle <;> omega

/-- A draft is saved twice and published, then renamed and published again;
    what comes late is refused, and another graph is saved in between. -/
def drafts : List (Instant × Operation) :=
  [(⟨1, 0⟩, .save "g" "Draft" {} (some 0)), (⟨2, 0⟩, .markPublished "g" 1),
    (⟨3, 0⟩, .save "h" "Other" {} none), (⟨4, 0⟩, .save "g" "Draft" {} (some 1)),
    (⟨5, 0⟩, .save "g" "Final" {} (some 1)), (⟨6, 0⟩, .markPublished "g" 1),
    (⟨7, 0⟩, .save "g" "Late" {} (some 1)), (⟨8, 0⟩, .markPublished "g" 2)]

theorem books_of_lifetime_drafts :
    (∀ turn ∈ (Store.text []).turns drafts, turn.Lawful "g") ∧
      ((Store.text []).turns drafts).countP (Turn.changes · "g") = 2 ∧
      ((Store.text []).after drafts).versionOf "g" = 2 ∧
      ((Store.text []).after drafts).publishOf "g" = ⟨true, some ⟨8, 0⟩, 2⟩ := by
  have hbooks := Store.books_of_lifetime (.text []) "g" drafts rfl (by
    simp only [drafts, List.mem_cons, List.not_mem_nil, or_false, forall_eq_or_imp, forall_eq,
      ne_eq, reduceCtorEq, not_false_eq_true, and_self])
  have htwo : ((Store.text []).turns drafts).countP (Turn.changes · "g") = 2 := by decide +kernel
  exact ⟨hbooks.1, htwo, hbooks.2.version.trans htwo, by decide +kernel⟩

end Workflow
