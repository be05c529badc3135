import Workflow.Proofs.Nesting
import Workflow.Proofs.Provenance

/-!
# Results That Are Written and Read

What is found again of the result of a run that was written as text.

The written form of a record leaves a missing output out and writes one that is
null as null, so the two can be told apart there. The reader does not do so:
whether an output is null or left out, it finds none. Everything else in a
record is found again (`NodeRun.decode_toJson`), if the output is not nested
deeper than the reader has room for, and nothing at all is found if it is
(`NodeRun.depth_le_of_decode`).

The same holds for a whole result, because its records are read one by one
(`RunResult.decode_toJson`, `fitsRoom_of_decode`). The result of a run is one
that a program can hold when its handlers answer with such values, for no output
is made up (`result_regular`). So it is found again exactly when no output is
null and none is nested too deep (`result_found_iff`).

## Main definitions

* `NodeRun.archived`, `RunResult.archived`: What is left of what was written.
* `RunResult.FitsRoom`: No output is nested too deep.
* `RunResult.Regular`: A result is one that a program can hold.
* `RunResult.ReadsBack`: The instants and binary64 numbers of a result are found
  again.
* `RunResult.Writes`: A text is one that is written for a result.

## Theorems

* `NodeRun.decode_toJson`, `RunResult.decode_toJson`: What is read of what was
  written.
* `NodeRun.depth_le_of_decode`, `RunResult.fitsRoom_of_decode`: What is nested
  too deep is not read.
* `archived_eq_iff`: What is left is the same when no output is null.
* `Course.result_regular`: What runs come to.
* `Course.result_found_iff`: When the result of a run is found again.
* `null_not_found`: An output that is null is lost.
-/

namespace Workflow

namespace Decoder

variable {α : Type}

/-- What is read of a value where null stands for nothing. -/
theorem nullable_json (room : Nat) (surplus : Bool) (v : Json) (h : v.Proper)
    (hback : ∀ n ∈ v.numbers, n.ReadsBack) (hdepth : v.depth ≤ room) :
    nullable json ⟨room, surplus⟩ v.document = some ((some v).filter fun w => !w.isNull) := by
  have hvalue : v.document.toJson? room = some v :=
    Json.toJson?_document room v ((Json.kept_iff room v).mpr ⟨h, hdepth⟩) hback
  -- Only null is not read as the value that it is.
  cases v with
  | null => rfl
  | bool _ | number _ | string _ | array _ | object _ =>
      exact congrArg (Option.map some) hvalue

theorem depth_le_of_nullable_json (room : Nat) (surplus : Bool) (v : Json) (found : Option Json)
    (h : nullable json ⟨room, surplus⟩ v.document = some found) : v.depth ≤ room := by
  cases v with
  | null | bool _ | number _ | string _ => exact Nat.zero_le room
  | array _ | object _ =>
      rcases Option.map_eq_some_iff.mp h with ⟨w, hw, -⟩
      exact Json.depth_le_of_toJson? room _ w hw

/-- Texts are found again. -/
theorem strings_document (scope inner : Scope) (texts : List String)
    (hscope : scope.enter? = some inner) :
    array string scope (Json.strings texts).document = some texts := by
  rw [Json.strings, Json.document, array, hscope, Option.bind_eq_bind, Option.bind_some,
    Json.documentsOfItems_eq, List.map_map]
  exact mapM_map _ _ texts fun text _ => rfl

/-- A natural number below a limit is found again. -/
theorem natBelow_literal (limit : Nat) (scope : Scope) (n : Nat) (h : n < limit)
    (hlimit : limit ≤ 0x10000000000000000) :
    natBelow limit scope (Json.nat n).document = some n := by
  have hinteger := Number.integer?_of_number? _ _
    (Number.readsBack_int (n : Int) ⟨by omega, by omega⟩).2
  rw [Json.nat, Json.document, natBelow, hinteger, Option.bind_eq_bind, Option.bind_some, if_pos]
  · rfl
  · simp only [Bool.and_eq_true, decide_eq_true_eq]
    omega

end Decoder

theorem NodeStatus.ofLabel?_label (s : NodeStatus) : ofLabel? s.label = some s := by
  cases s <;> decide

theorem RunStatus.ofLabel?_label (s : RunStatus) : ofLabel? s.label = some s := by
  cases s <;> decide

theorem Cause.ofLabel?_label (c : Cause) : ofLabel? c.label = some c := by
  cases c <;> decide

/-- An instant is found again in its text. -/
def Instant.ReadsBack (t : Instant) : Prop := ofText? t.toText = some t

namespace NodeRun

/-- What is left of a record that was written: an output that is null is none. -/
def archived (r : NodeRun) : NodeRun := { r with output := r.output.filter fun v => !v.isNull }

theorem archived_eq_iff (r : NodeRun) : r.archived = r ↔ r.output ≠ some .null := by
  rcases r with ⟨node, kind, status, output, error, attempts, startedAt, finishedAt, elapsedMs⟩
  rw [archived, NodeRun.mk.injEq]
  simp only [true_and, and_true]
  cases output with
  | none => simp only [Option.filter_none, ne_eq, reduceCtorEq, not_false_eq_true]
  | some v =>
      rw [Option.filter_some, Ne, Option.some.injEq]
      cases v <;> simp [Json.isNull]

/-- The numbers of a record fit in the words that hold them. -/
def InRange (r : NodeRun) : Prop :=
  r.attempts < 0x100000000 ∧ r.elapsedMs < 0x10000000000000000

/-- The instants that are written for a record. -/
def instants (r : NodeRun) : List Instant := r.startedAt.toList ++ r.finishedAt.toList

/-- The numbers in the written form of a record are those of its output and the
    two that it has itself. -/
theorem numbers_eq (r : NodeRun) : r.toJson.numbers =
    (r.output.elim [] Json.numbers) ++ [.int r.attempts, .int r.elapsedMs] := by
  rcases r with ⟨node, kind, status, output, error, attempts, startedAt, finishedAt, elapsedMs⟩
  cases output <;> cases error <;> cases startedAt <;> cases finishedAt <;> rfl

/-- The written form of a record has each field where it is looked for. -/
theorem decode_document (room : Nat) (surplus : Bool) (r : NodeRun) :
    decode ⟨room + 1, surplus⟩ r.toJson.document = do
      return {
        node := r.node
        kind := ← Kind.ofLabel? r.kind.label
        status := ← NodeStatus.ofLabel? r.status.label
        output := ← r.output.elim (some none) fun v =>
          Decoder.nullable Decoder.json ⟨room, surplus⟩ v.document
        error := ← r.error.elim (some none) fun e =>
          Decoder.nullable NodeError.decode ⟨room, surplus⟩ e.toJson.document
        attempts := ← Decoder.nat32 ⟨room, surplus⟩ (Json.nat r.attempts).document
        startedAt := ← Decoder.nullable decodeInstant ⟨room, surplus⟩
          (instantOrNull r.startedAt).document
        finishedAt := ← Decoder.nullable decodeInstant ⟨room, surplus⟩
          (instantOrNull r.finishedAt).document
        elapsedMs := ← Decoder.nat64 ⟨room, surplus⟩ (Json.nat r.elapsedMs).document } := by
  rcases r with ⟨node, kind, status, output, error, attempts, startedAt, finishedAt, elapsedMs⟩
  -- Which fields are written depends on these two only.
  cases output <;> cases error <;> rfl

theorem nullable_decodeInstant (scope : Scope) (text : String) :
    Decoder.nullable decodeInstant scope (.string (some text)) = (Instant.ofText? text).map some :=
  rfl

theorem decodeInstant_document (scope : Scope) (t : Option Instant)
    (h : ∀ instant ∈ t.toList, instant.ReadsBack) :
    Decoder.nullable decodeInstant scope (instantOrNull t).document = some t := by
  cases t with
  | none => rfl
  | some instant =>
      have hread := h instant List.mem_cons_self
      rw [Instant.ReadsBack] at hread
      rw [instantOrNull, Json.document, nullable_decodeInstant, hread, Option.map_some]

theorem decodeError_document (room : Nat) (surplus : Bool) (e : NodeError) :
    Decoder.nullable NodeError.decode ⟨room + 1, surplus⟩ e.toJson.document = some (some e) := by
  have hfields : Decoder.nullable NodeError.decode ⟨room + 1, surplus⟩ e.toJson.document =
      (Cause.ofLabel? e.cause.label).bind fun cause => some (some ⟨cause, e.message⟩) := by
    rcases e with ⟨cause, message⟩
    cases cause <;> rfl
  rw [hfields, Cause.ofLabel?_label]
  rfl

/-- What is read of a record that was written. -/
theorem decode_toJson (room : Nat) (surplus : Bool) (r : NodeRun) (hrange : r.InRange)
    (hinstants : ∀ t ∈ r.instants, t.ReadsBack) (hback : ∀ n ∈ r.toJson.numbers, n.ReadsBack)
    (houtput : ∀ v, r.output = some v → v.Proper ∧ v.depth ≤ room + 1) :
    decode ⟨room + 2, surplus⟩ r.toJson.document = some r.archived := by
  -- An output that is not null is found again, and one that is null is not.
  have hvalue : (r.output.elim (some none) fun v =>
      Decoder.nullable Decoder.json ⟨room + 1, surplus⟩ v.document) =
      some (r.output.filter fun v => !v.isNull) := by
    cases hr : r.output with
    | none => rfl
    | some v =>
        rcases houtput v hr with ⟨hproper, hdepth⟩
        refine Decoder.nullable_json (room + 1) surplus v hproper (fun n hn => hback n ?_) hdepth
        rw [r.numbers_eq, hr]
        exact List.mem_append_left _ hn
  have herror : (r.error.elim (some none) fun e =>
      Decoder.nullable NodeError.decode ⟨room + 1, surplus⟩ e.toJson.document) = some r.error := by
    cases r.error with
    | none => rfl
    | some e => exact decodeError_document room surplus e
  -- Both numbers are small enough for their types.
  have hattempts : Decoder.nat32 ⟨room + 1, surplus⟩ (Json.nat r.attempts).document =
      some r.attempts := Decoder.natBelow_literal _ _ _ hrange.1 (by decide)
  have helapsed : Decoder.nat64 ⟨room + 1, surplus⟩ (Json.nat r.elapsedMs).document =
      some r.elapsedMs := Decoder.natBelow_literal _ _ _ hrange.2 (Nat.le_refl _)
  have hstarted := decodeInstant_document ⟨room + 1, surplus⟩ r.startedAt fun t ht =>
    hinstants t (List.mem_append_left _ ht)
  have hfinished := decodeInstant_document ⟨room + 1, surplus⟩ r.finishedAt fun t ht =>
    hinstants t (List.mem_append_right _ ht)
  rw [decode_document, Kind.ofLabel?_label, NodeStatus.ofLabel?_label, hvalue, herror, hattempts,
    helapsed, hstarted, hfinished]
  rfl

/-- A record is not read when its output is nested too deep. -/
theorem depth_le_of_decode (room : Nat) (surplus : Bool) (r found : NodeRun)
    (h : decode ⟨room + 1, surplus⟩ r.toJson.document = some found) (v : Json)
    (hv : r.output = some v) : v.depth ≤ room := by
  rw [decode_document, Kind.ofLabel?_label, NodeStatus.ofLabel?_label, hv] at h
  rcases Option.bind_eq_some_iff.mp h with ⟨_, -, h⟩
  rcases Option.bind_eq_some_iff.mp h with ⟨_, -, h⟩
  rcases Option.bind_eq_some_iff.mp h with ⟨output, houtput, -⟩
  exact Decoder.depth_le_of_nullable_json room surplus v output houtput

end NodeRun

namespace RunResult

/-- How deep an output may be nested in the text of a result. The result, the
    object of its records and the record are open around it. -/
def outputRoom : Nat := 124

/-- What is left of a result that was written. -/
def archived (r : RunResult) : RunResult :=
  { r with nodes := r.nodes.map fun entry => (entry.1, entry.2.archived) }

theorem archived_eq_iff (r : RunResult) :
    r.archived = r ↔ ∀ entry ∈ r.nodes, entry.2.output ≠ some .null := by
  have hrecords : r.archived = r ↔
      (r.nodes.map fun entry => (entry.1, entry.2.archived)) = r.nodes :=
    ⟨fun h => congrArg nodes h, fun h => congrArg (fun nodes => { r with nodes := nodes }) h⟩
  rw [hrecords]
  constructor
  · intro h entry hentry
    have hall : r.nodes.map (fun entry => (entry.1, entry.2.archived)) = r.nodes.map id :=
      h.trans (List.map_id _).symm
    have hsame := List.map_inj_left.mp hall entry hentry
    exact entry.2.archived_eq_iff.mp (congrArg Prod.snd hsame)
  · intro h
    refine (List.map_congr_left ?_).trans (List.map_id _)
    intro entry hentry
    exact Prod.ext rfl (entry.2.archived_eq_iff.mpr (h entry hentry))

/-- No output is nested deeper than a reader has room for. -/
def FitsRoom (r : RunResult) : Prop :=
  ∀ entry ∈ r.nodes, ∀ v, entry.2.output = some v → v.depth ≤ outputRoom

/-- The numbers of a result fit in the words that hold them. -/
def InRange (r : RunResult) : Prop :=
  (∀ entry ∈ r.nodes, entry.2.InRange) ∧ r.elapsedMs < 0x10000000000000000

/-- The instants that are written for a result. -/
def instants (r : RunResult) : List Instant :=
  r.startedAt :: r.finishedAt :: r.nodes.flatMap fun entry => entry.2.instants

/-- Every instant and every binary64 number of a result is found again. -/
structure ReadsBack (r : RunResult) : Prop where
  instants : ∀ t ∈ r.instants, t.ReadsBack
  reals : ∀ x, .real x ∈ r.toJson.numbers → (Number.real x).ReadsBack

/-- A result is one that a program can hold. -/
structure Regular (r : RunResult) : Prop where
  ordered : r.nodes.Ordered
  proper : ∀ entry ∈ r.nodes, ∀ v, entry.2.output = some v → v.Proper
  inRange : r.InRange

theorem decode_document (r : RunResult) :
    decode Scope.text r.toJson.document = do
      return {
        run := r.run
        graph := r.graph
        status := ← RunStatus.ofLabel? r.status.label
        stages := ← (Json.documentsOfItems (r.stages.map Json.strings)).mapM
          (Decoder.array Decoder.string ⟨outputRoom + 1, false⟩)
        nodes := ← Decoder.entries NodeRun.decode ⟨outputRoom + 2, false⟩
          (.object (Json.documentsOfMembers (r.nodes.map fun entry => (entry.1, entry.2.toJson))))
        startedAt := ← Instant.ofText? r.startedAt.toText
        finishedAt := ← Instant.ofText? r.finishedAt.toText
        elapsedMs := ← Decoder.nat64 ⟨outputRoom + 2, false⟩ (Json.nat r.elapsedMs).document } := by
  rw [toJson]
  -- How an instant is printed is of no concern here.
  generalize r.startedAt.toText = started
  generalize r.finishedAt.toText = finished
  rfl

/-- The numbers in the written form of a result are those of its records and the
    one that it has itself. -/
theorem mem_numbers_iff (r : RunResult) (n : Number) :
    n ∈ r.toJson.numbers ↔
      (∃ entry ∈ r.nodes, n ∈ entry.2.toJson.numbers) ∨ n = .int r.elapsedMs := by
  -- In stages there are only texts.
  have htexts : ∀ texts : List String, (Json.strings texts).numbers = [] := by
    intro texts
    induction texts with
    | nil => rfl
    | cons text rest ih => exact ih
  have hstages : ∀ stages : List (List NodeId),
      Json.numbersOfItems (stages.map Json.strings) = [] := by
    intro stages
    induction stages with
    | nil => rfl
    | cons stage rest ih => rw [List.map_cons, Json.numbersOfItems, htexts, ih, List.nil_append]
  have hnumbers : r.toJson.numbers = Json.numbersOfItems (r.stages.map Json.strings) ++
      (Json.numbersOfMembers (r.nodes.map fun entry => (entry.1, entry.2.toJson)) ++
        [.int r.elapsedMs]) := rfl
  rw [hnumbers, hstages, List.nil_append, List.mem_append, Json.mem_numbersOfMembers_iff,
    List.mem_singleton]
  simp only [List.mem_map, exists_exists_and_eq_and]

/-- The numbers in the written form of a result are found again. -/
theorem numbers_readBack (r : RunResult) (hregular : r.Regular) (hback : r.ReadsBack) :
    ∀ n ∈ r.toJson.numbers, n.ReadsBack := by
  intro n hn
  refine n.readsBack_of_fits ?_ fun x hx => hback.reals x (hx ▸ hn)
  rcases (r.mem_numbers_iff n).mp hn with ⟨entry, hentry, hnode⟩ | helapsed
  · rcases hregular.inRange.1 entry hentry with ⟨hattempts, helapsed⟩
    rw [entry.2.numbers_eq] at hnode
    rcases List.mem_append.mp hnode with houtput | hown
    · cases hv : entry.2.output with
      | none =>
          rw [hv] at houtput
          exact absurd houtput List.not_mem_nil
      | some v =>
          rw [hv] at houtput
          exact (hregular.proper entry hentry v hv).fits n houtput
    -- The integers that a record has itself fit because they are in range.
    · rcases List.mem_pair.mp hown with rfl | rfl
      · exact ⟨by omega, by omega⟩
      · exact ⟨by omega, by omega⟩
  · have hrange := hregular.inRange.2
    rw [helapsed]
    exact ⟨by omega, by omega⟩

/-- What is read of a result that was written. -/
theorem decode_toJson (r : RunResult) (hregular : r.Regular) (hback : r.ReadsBack)
    (hroom : r.FitsRoom) : decode Scope.text r.toJson.document = some r.archived := by
  have hstages : (Json.documentsOfItems (r.stages.map Json.strings)).mapM
      (Decoder.array Decoder.string ⟨outputRoom + 1, false⟩) = some r.stages := by
    rw [Json.documentsOfItems_eq, List.map_map]
    exact Decoder.mapM_map _ _ r.stages fun stage _ =>
      Decoder.strings_document ⟨outputRoom + 1, false⟩ ⟨outputRoom, false⟩ stage rfl
  -- The result and the object of its records are open around a record.
  have hnodes := Decoder.entries_of_some NodeRun.decode ⟨outputRoom + 2, false⟩
    ⟨outputRoom + 1, false⟩ NodeRun.toJson NodeRun.archived r.nodes rfl hregular.ordered (by
      intro entry hentry
      refine entry.2.decode_toJson 123 false (hregular.inRange.1 entry hentry) ?_ ?_ ?_
      · intro t ht
        refine hback.instants t (List.mem_cons_of_mem _ (List.mem_cons_of_mem _ ?_))
        exact List.mem_flatMap.mpr ⟨entry, hentry, ht⟩
      · intro n hn
        exact r.numbers_readBack hregular hback n
          ((r.mem_numbers_iff n).mpr (Or.inl ⟨entry, hentry, hn⟩))
      · exact fun v hv => ⟨hregular.proper entry hentry v hv, hroom entry hentry v hv⟩)
  have hstarted := hback.instants r.startedAt List.mem_cons_self
  have hfinished := hback.instants r.finishedAt (List.mem_cons_of_mem _ List.mem_cons_self)
  have helapsed : Decoder.nat64 ⟨outputRoom + 2, false⟩ (Json.nat r.elapsedMs).document =
      some r.elapsedMs := Decoder.natBelow_literal _ _ _ hregular.inRange.2 (Nat.le_refl _)
  rw [Instant.ReadsBack] at hstarted hfinished
  rw [decode_document, RunStatus.ofLabel?_label, hstages, hnodes, hstarted, hfinished, helapsed]
  rfl

/-- A result is not read when an output is nested too deep. -/
theorem fitsRoom_of_decode (r found : RunResult)
    (h : decode Scope.text r.toJson.document = some found) : r.FitsRoom := by
  rw [decode_document, RunStatus.ofLabel?_label] at h
  rcases Option.bind_eq_some_iff.mp h with ⟨_, -, h⟩
  rcases Option.bind_eq_some_iff.mp h with ⟨_, -, h⟩
  rcases Option.bind_eq_some_iff.mp h with ⟨nodes, hnodes, -⟩
  intro entry hentry v hv
  rcases Decoder.item_of_entries NodeRun.decode (outputRoom + 1) false _ nodes hnodes
    (entry.1, entry.2.toJson) (List.mem_map_of_mem hentry) with ⟨node, hnode⟩
  exact entry.2.depth_le_of_decode outputRoom false node hnode v hv

/-- A text is one that is written for a result, on one line or over many. -/
def Writes (r : RunResult) (text : String) : Prop :=
  text = r.toJson.compact ∨ text = r.toJson.pretty

/-- A text that is written for a result holds its written form. -/
theorem Writes.ofText?_eq {r : RunResult} {text : String} (h : r.Writes text)
    (hregular : r.Regular) (hback : r.ReadsBack) :
    Decoder.ofText? decode text = decode Scope.text r.toJson.document := by
  have hliteral : ∀ n ∈ r.toJson.numbers, n.IsLiteral := fun n hn =>
    (r.numbers_readBack hregular hback n hn).1
  rcases h with rfl | rfl
  · rw [Decoder.ofText?, Json.read?_compact r.toJson hliteral, Option.bind_eq_bind,
      Option.bind_some]
  · rw [Decoder.ofText?, Json.read?_pretty r.toJson hliteral, Option.bind_eq_bind,
      Option.bind_some]

end RunResult

namespace Course

variable {setup : Setup}

/-- The result of a run is one that a program can hold, when its handlers answer
    with such values. -/
theorem result_regular (choices : List Choice) (s : RunState) (h : Course setup choices s)
    (hanswers : ∀ id v, .answer id (.ok v) ∈ choices → v.Proper)
    (hrange : (s.result setup).InRange) : (s.result setup).Regular where
  ordered := by
    have hkeys : (s.records.map (·.1)).Pairwise (· < ·) := by
      rw [h.sound.keys]
      exact setup.graph.pairwise_ids
    exact List.pairwise_map.mp hkeys
  proper := by
    intro entry hentry v hv
    have hr : s.record? entry.1 = some entry.2 :=
      (Entries.find?_eq_some_iff s.records h.sound.nodup entry.1 entry.2).mpr hentry
    exact hanswers entry.1 v (h.answered_of_output choices s entry.1 entry.2 v hr hv)
  inRange := hrange

/-- What is read of the text of a result, when the handlers have answered with
    values that a program can hold and the numbers fit in their words. It is the
    result, but for the outputs that are null, which are taken for missing ones;
    and it is nothing, when an output is nested deeper than a reader has room
    for. -/
theorem result_found_iff (choices : List Choice) (s : RunState) (h : Course setup choices s)
    (hanswers : ∀ id v, .answer id (.ok v) ∈ choices → v.Proper)
    (hrange : (s.result setup).InRange) (hback : (s.result setup).ReadsBack) (text : String)
    (htext : (s.result setup).Writes text) :
    ((s.result setup).FitsRoom →
      Decoder.ofText? RunResult.decode text = some (s.result setup).archived) ∧
    (¬ (s.result setup).FitsRoom → Decoder.ofText? RunResult.decode text = none) ∧
    (Decoder.ofText? RunResult.decode text = some (s.result setup) ↔
      (s.result setup).FitsRoom ∧
        ∀ id r, (s.result setup).node? id = some r → r.output ≠ some .null) := by
  have hregular := h.result_regular choices s hanswers hrange
  rw [htext.ofText?_eq hregular hback]
  have hfound := (s.result setup).decode_toJson hregular hback
  have hfits := (s.result setup).fitsRoom_of_decode
  -- Outputs that are not null are what makes the result its own archive.
  have hnull : (∀ id r, (s.result setup).node? id = some r → r.output ≠ some .null) ↔
      (s.result setup).archived = s.result setup := by
    rw [RunResult.archived_eq_iff]
    have hiff := Entries.find?_eq_some_iff s.records h.sound.nodup
    exact ⟨fun hall entry hentry => hall entry.1 entry.2 ((hiff entry.1 entry.2).mpr hentry),
      fun hall id r hr => hall (id, r) ((hiff id r).mp hr)⟩
  refine ⟨hfound, fun hdeep => ?_, ?_⟩
  -- What is read fits the room, so a result that does not fit is not read.
  · exact Option.eq_none_iff_forall_ne_some.mpr fun found hread => hdeep (hfits found hread)
  · rw [hnull]
    constructor
    · intro hread
      have hroom := hfits _ hread
      rw [hfound hroom] at hread
      exact ⟨hroom, Option.some.inj hread⟩
    · rintro ⟨hroom, hsame⟩
      rw [hfound hroom, hsame]

end Course

/-- A single node hands on what it is given. -/
def relay : Setup where
  run := "r1"
  graphId := "relay"
  graph := Graph.ofPairs [("start", .trigger)] []
  plan := ⟨[["start"]], [("start", [])]⟩
  workers := 1
  budget := fun _ => 0
  restMs := fun _ _ => 0
  start := ⟨0, 0⟩

/-- The node of the relay hands on a value. -/
def handOn (v : Json) : List Choice :=
  [.advance, .launch, .grant "start", .answer "start" (.ok v), .collect "start", .advance]

/-- What is known after the relay has handed on a value. -/
def handedOn (v : Json) : RunResult where
  run := "r1"
  graph := "relay"
  status := .succeeded
  stages := [["start"]]
  nodes := [("start", {
    node := "start"
    kind := .trigger
    status := .succeeded
    output := some v
    attempts := 1
    startedAt := some ⟨0, 0⟩
    finishedAt := some ⟨0, 0⟩ })]
  startedAt := ⟨0, 0⟩
  finishedAt := ⟨0, 0⟩
  elapsedMs := 0

theorem output_handedOn (v w : Json) (entry : NodeId × NodeRun)
    (hentry : entry ∈ (handedOn v).nodes) (hw : entry.2.output = some w) : w = v := by
  rw [List.mem_singleton.mp hentry] at hw
  exact (Option.some.inj hw).symm

theorem inRange_handedOn (v : Json) : (handedOn v).InRange := by
  have hattempts : 1 < 0x100000000 := by decide
  have helapsed : 0 < 0x10000000000000000 := by decide
  refine ⟨?_, helapsed⟩
  intro entry hentry
  rw [List.mem_singleton.mp hentry]
  exact ⟨hattempts, helapsed⟩

/-- The first instant of 1970 is found again in its text. -/
theorem readsBack_epoch : (Instant.mk 0 0).ReadsBack := by
  rw [Instant.ReadsBack]
  decide +kernel

theorem readsBack_handedOn (v : Json) (h : v.numbers = []) : (handedOn v).ReadsBack where
  instants := by
    intro t ht
    have hinstants : (handedOn v).instants = List.replicate 4 ⟨0, 0⟩ := rfl
    rw [hinstants] at ht
    rw [List.eq_of_mem_replicate ht]
    exact readsBack_epoch
  reals := by
    intro x hx
    rcases ((handedOn v).mem_numbers_iff _).mp hx with ⟨entry, hentry, hnode⟩ | helapsed
    · rw [List.mem_singleton.mp hentry, NodeRun.numbers_eq, Option.elim_some, h,
        List.nil_append] at hnode
      rcases List.mem_pair.mp hnode with hown | hown <;> exact nomatch hown
    · exact nomatch helapsed

/-- An array is handed on, and found again in the text of the result. -/
theorem result_found_handOn : ∃ s, Course relay (handOn (.array [.null, .string "done"])) s ∧
    s.result relay = handedOn (.array [.null, .string "done"]) ∧
    Decoder.ofText? RunResult.decode (s.result relay).toJson.compact = some (s.result relay) := by
  rcases Course.exists_of_observed relay (handOn (.array [.null, .string "done"]))
    (RunState.result relay) (handedOn (.array [.null, .string "done"])) rfl rfl with
    ⟨s, hcourse, hresult⟩
  refine ⟨s, hcourse, hresult, ?_⟩
  refine (Course.result_found_iff _ s hcourse ?_ ?_ ?_ _ (Or.inl rfl)).2.2.mpr ⟨?_, ?_⟩
  · intro id v hv
    simp only [handOn, List.mem_cons, reduceCtorEq, Choice.answer.injEq, Except.ok.injEq,
      List.not_mem_nil, or_false, false_or] at hv
    rw [hv.2]
    exact ⟨1, trivial, trivial, trivial⟩
  · rw [hresult]
    exact inRange_handedOn _
  · rw [hresult]
    exact readsBack_handedOn _ rfl
  · rw [hresult]
    intro entry hentry v hv
    rw [output_handedOn _ v entry hentry hv]
    decide
  · rw [hresult]
    intro id r hr
    have hentry := (Entries.find?_eq_some_iff (handedOn _).nodes (List.nodup_singleton "start")
      id r).mp hr
    intro hnull
    exact nomatch output_handedOn _ _ _ hentry hnull

/-- Null is handed on, and the text of the result says so, but whoever reads it
    finds no output. -/
theorem null_not_found : ∃ s found, Course relay (handOn .null) s ∧
    Decoder.ofText? RunResult.decode (s.result relay).toJson.compact = some found ∧
    ((s.result relay).node? "start").bind NodeRun.output = some .null ∧
    (found.node? "start").bind NodeRun.output = none ∧ found ≠ s.result relay := by
  rcases Course.exists_of_observed relay (handOn .null) (RunState.result relay) (handedOn .null)
    rfl rfl with ⟨s, hcourse, hresult⟩
  have hregular : (handedOn .null).Regular := by
    refine ⟨List.pairwise_singleton _ _, ?_, inRange_handedOn _⟩
    intro entry hentry v hv
    rw [output_handedOn _ v entry hentry hv]
    exact ⟨0, trivial⟩
  have hroom : (handedOn .null).FitsRoom := by
    intro entry hentry v hv
    rw [output_handedOn _ v entry hentry hv]
    exact Nat.zero_le _
  have hback := readsBack_handedOn .null rfl
  have hwrites : (handedOn .null).Writes (handedOn .null).toJson.compact := Or.inl rfl
  rw [← hresult] at hregular hroom hback hwrites
  refine ⟨s, (handedOn .null).archived, hcourse, ?_, ?_, rfl, ?_⟩
  · rw [← hresult, hwrites.ofText?_eq hregular hback]
    exact (s.result relay).decode_toJson hregular hback hroom
  · rw [hresult]
    rfl
  · rw [hresult]
    intro hsame
    exact (handedOn .null).archived_eq_iff.mp hsame _ List.mem_cons_self rfl

end Workflow
