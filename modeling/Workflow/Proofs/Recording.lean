import Mathlib.Data.List.Pairwise
import Workflow.Proofs.Archiving
import Workflow.Run.Log

/-!
# What a Line of a Log Says

A line of a log is the written form of an event in another arrangement. What
happens, in which run and at which node stands at the head of the line, where
one looks first, and the other fields stand in an object of their own.

Nothing is lost or made up by that. No field of an event has the name of another
one, so the fields at the head can be put back among the others, and the fields
of the event are there again (`restored_ofEvent`), whether the line is taken as
it was written or read from its text (`read?_line`). And the fields of an event
say which event it is (`Event.eq_of_fields_eq`), although events of several kinds
have fields of the same names.

The text of a line is one line. It has no character below U+0020, not even a line
break (`printable_line`), because between quotes these are written by others.

## Main definitions

* `Json.Printable`: There is no character below U+0020 in a text.
* `Json.Flat`: A value is a text, a list of texts or a natural number.
* `Event.fields`: The written form of an event, as a map.
* `Event.InRange`: The numbers of an event fit in the words that hold them.
* `LogEntry.restored`: What a line says, with the fields at its head put back.
* `LogEntry.Tells`: A line says what an event says.

## Theorems

* `Entries.Ordered.eq_of_mem_iff`, `Entries.Ordered.ext`: When maps are the same.
* `Entries.mem_ofList_iff`: The entries of the map of a list.
* `Entries.merge_ofList`: Adding entries under new keys to a map.
* `Json.printable_compact`: When the text of a value is printable.
* `Json.read?_object`: An object is found again in its text.
* `Event.eq_of_fields_eq`: The fields of an event say which event it is.
* `LogEntry.detail_ofEvent`: What is not told at the head of a line.
* `LogEntry.restored_ofEvent`, `LogEntry.tells_toJson`: A line says what its event
  says.
* `LogEntry.Tells.unique`: A line is written for one event only.
* `LogEntry.printable_line`, `LogEntry.read?_line`: The text of a line.
-/

namespace Workflow

namespace Entries

variable {β : Type}

theorem find?_append (key : String) (front back : List (String × β)) :
    find? key (front ++ back) = (find? key front).or (find? key back) := by
  induction front with
  | nil => rfl
  | cons entry rest ih =>
      rw [List.cons_append, find?, find?, ih]
      by_cases hkey : entry.1 = key
      · rw [if_pos hkey, if_pos hkey, Option.some_or]
      · rw [if_neg hkey, if_neg hkey]

theorem find?_ofList (key : String) (added : List (String × β)) (hkeys : (keys added).Nodup) :
    find? key (ofList added) = find? key added := by
  rw [ofList, find?_merge key [] added hkeys, find?, Option.or_none]

/-- Maps with the same entries are the same. -/
theorem Ordered.eq_of_mem_iff {entries others : Entries β} (hentries : entries.Ordered)
    (hothers : others.Ordered) (h : ∀ entry, entry ∈ entries ↔ entry ∈ others) :
    entries = others := by
  have hperm : entries.Perm others :=
    (List.perm_ext_iff_of_nodup hentries.nodup_keys.of_map hothers.nodup_keys.of_map).mpr h
  exact hperm.eq_of_pairwise
    (fun a b _ _ hab hba => absurd (String.lt_trans hab hba) (String.lt_irrefl a.1))
    hentries hothers

/-- Maps in which the same is found are the same. -/
theorem Ordered.ext {entries others : Entries β} (hentries : entries.Ordered)
    (hothers : others.Ordered) (h : ∀ key, find? key entries = find? key others) :
    entries = others := by
  refine hentries.eq_of_mem_iff hothers fun entry => ?_
  rw [← find?_eq_some_iff entries hentries.nodup_keys entry.1 entry.2, h entry.1,
    find?_eq_some_iff others hothers.nodup_keys]

/-- The map of a list of different keys has the entries of the list. -/
theorem mem_ofList_iff (added : List (String × β)) (hkeys : (keys added).Nodup)
    (entry : String × β) : entry ∈ ofList added ↔ entry ∈ added := by
  rw [← find?_eq_some_iff _ (ordered_ofList added).nodup_keys entry.1 entry.2,
    find?_ofList entry.1 added hkeys, find?_eq_some_iff added hkeys]

/-- Entries that are added under new keys come to the map of all of them. -/
theorem merge_ofList (base added : List (String × β)) (hkeys : (keys (added ++ base)).Nodup) :
    merge (ofList base) added = ofList (added ++ base) := by
  have hparts := hkeys
  rw [keys, List.map_append, List.nodup_append] at hparts
  refine (ordered_merge (ordered_ofList base) added).ext (ordered_ofList _) fun key => ?_
  rw [find?_merge key _ added hparts.1, find?_ofList key base hparts.2.1,
    find?_ofList key _ hkeys, find?_append]

end Entries

namespace Json

/-- There is no character below U+0020 in a text, so it has no line break. -/
def Printable (cs : List Char) : Prop := ∀ c ∈ cs, 32 ≤ c.toNat

instance (cs : List Char) : Decidable (Printable cs) :=
  List.decidableBAll (fun c : Char => 32 ≤ c.toNat) cs

theorem printable_append_iff (front back : List Char) :
    Printable (front ++ back) ↔ Printable front ∧ Printable back :=
  List.forall_mem_append

theorem printable_cons_iff (c : Char) (rest : List Char) :
    Printable (c :: rest) ↔ 32 ≤ c.toNat ∧ Printable rest :=
  List.forall_mem_cons

theorem printable_escape (c : Char) : Printable (escape c) := by
  rcases Nat.lt_or_ge c.toNat 32 with hlow | hhigh
  · have hcontrol : ∀ n < 32, Printable (escape (Char.ofNat n)) := by decide
    rw [← Char.ofNat_toNat c]
    exact hcontrol c.toNat hlow
  · have hself : Printable [c] := fun d hd => (List.mem_singleton.mp hd).symm ▸ hhigh
    rw [escape]
    -- What is not written as it is has a backslash and a letter.
    split_ifs
    all_goals first | exact hself | decide | omega

theorem printable_quote (s : List Char) : Printable (quote s) := by
  have hquote : Printable ['"'] := by decide
  have hinside : Printable (s.flatMap escape) := by
    intro d hd
    rcases List.mem_flatMap.mp hd with ⟨c, -, hc⟩
    exact printable_escape c d hc
  rw [quote, printable_cons_iff, printable_append_iff]
  exact ⟨by decide, hinside, hquote⟩

mutual

/-- The text of a value is printable, if the texts of its numbers are. -/
theorem printable_compact (v : Json) (hnumbers : ∀ n ∈ v.numbers, Printable n.chars) :
    Printable v.compactChars := by
  match v with
  | .null => decide
  | .bool b => cases b <;> decide
  | .number n => exact hnumbers n List.mem_cons_self
  | .string s => exact printable_quote s.toList
  | .array items =>
      rw [compactChars, printable_cons_iff, printable_append_iff]
      exact ⟨by decide, printable_compactItems items hnumbers, by decide⟩
  | .object members =>
      rw [compactChars, printable_cons_iff, printable_append_iff]
      exact ⟨by decide, printable_compactMembers members hnumbers, by decide⟩
termination_by sizeOf v

theorem printable_compactItems (items : List Json)
    (hnumbers : ∀ n ∈ numbersOfItems items, Printable n.chars) :
    Printable (compactItems items) := by
  match items with
  | [] => exact nofun
  | [item] =>
      exact printable_compact item fun n hn => hnumbers n (List.mem_append_left _ hn)
  | item :: next :: rest =>
      have hitem := printable_compact item fun n hn => hnumbers n (List.mem_append_left _ hn)
      have hrest := printable_compactItems (next :: rest) fun n hn =>
        hnumbers n (List.mem_append_right _ hn)
      rw [compactItems, printable_append_iff, printable_cons_iff]
      exact ⟨hitem, by decide, hrest⟩
termination_by sizeOf items

theorem printable_compactMembers (members : List (String × Json))
    (hnumbers : ∀ n ∈ numbersOfMembers members, Printable n.chars) :
    Printable (compactMembers members) := by
  match members with
  | [] => exact nofun
  | [(key, value)] =>
      have hvalue := printable_compact value fun n hn => hnumbers n (List.mem_append_left _ hn)
      rw [compactMembers, printable_append_iff, printable_cons_iff]
      exact ⟨printable_quote key.toList, by decide, hvalue⟩
  | (key, value) :: next :: rest =>
      have hvalue := printable_compact value fun n hn => hnumbers n (List.mem_append_left _ hn)
      have hrest := printable_compactMembers (next :: rest) fun n hn =>
        hnumbers n (List.mem_append_right _ hn)
      rw [compactMembers, printable_append_iff, printable_cons_iff, printable_append_iff,
        printable_cons_iff]
      exact ⟨printable_quote key.toList, by decide, hvalue, by decide, hrest⟩
termination_by sizeOf members

end

/-- An object is found again in its text, as the map of its members. -/
theorem read?_object (members : List (String × Json)) (hkept : KeptMembers 126 members)
    (hback : ∀ n ∈ numbersOfMembers members, n.ReadsBack) :
    read? (Json.object members).compact = some (.object (Entries.ofList members)) := by
  have hliteral : ∀ n ∈ (Json.object members).numbers, n.IsLiteral := fun n hn => (hback n hn).1
  have hroom : Scope.text.room = 126 + 1 := rfl
  have hfound := membersToJson?_documents 126 members hkept hback
  rw [read?, Decoder.ofText?, read?_compact _ hliteral, Option.bind_eq_bind, Option.bind_some,
    Decoder.json, document, hroom, Document.toJson?, hfound, Option.map_some]

end Json

namespace Number

/-- The text of a whole number is printable. -/
theorem printable_nat (n : Nat) : Json.Printable (Number.int n).chars := by
  intro c hc
  have hdigit := isDigit_of_mem_numeral n c hc
  simp only [Char.isDigit, Bool.and_eq_true, decide_eq_true_eq] at hdigit
  exact Nat.le_trans (by decide) hdigit.1

end Number

namespace Json

/-- A value is a text, a list of texts or a natural number. -/
inductive Flat : Json → Prop
  | string (text : String) : Flat (.string text)
  | strings (texts : List String) : Flat (.strings texts)
  | nat (n : Nat) : Flat (.nat n)

variable {v : Json}

theorem numbers_strings (texts : List String) : (strings texts).numbers = [] := by
  induction texts with
  | nil => rfl
  | cons text rest ih => exact ih

theorem Flat.natural (h : v.Flat) : ∀ n ∈ v.numbers, ∃ k : Nat, n = .int k := by
  cases h with
  | string text => exact nofun
  | strings texts =>
      rw [numbers_strings]
      exact nofun
  | nat k => exact fun n hn => ⟨k, List.mem_singleton.mp hn⟩

/-- A flat value is kept, if its number fits. -/
theorem Flat.kept (h : v.Flat) (hfits : ∀ n ∈ v.numbers, n.Fits) (room : Nat) :
    v.Kept (room + 1) := by
  cases h with
  | string text => exact trivial
  | strings texts =>
      have hitems : ∀ texts : List String, KeptItems room (texts.map .string) := by
        intro texts
        induction texts with
        | nil => exact trivial
        | cons text rest ih => exact ⟨trivial, ih⟩
      exact hitems texts
  | nat k => exact hfits (.int k) List.mem_cons_self

theorem strings_inj {texts others : List String} (h : strings texts = strings others) :
    texts = others :=
  List.map_injective_iff.mpr (fun _ _ => Json.string.inj) (Json.array.inj h)

theorem nat_inj {n m : Nat} (h : nat n = nat m) : n = m :=
  Int.ofNat.inj (Number.int.inj (Json.number.inj h))

end Json

theorem NodeStatus.label_inj {s t : NodeStatus} (h : s.label = t.label) : s = t :=
  Option.some.inj ((ofLabel?_label s).symm.trans ((congrArg ofLabel? h).trans (ofLabel?_label t)))

theorem RunStatus.label_inj {s t : RunStatus} (h : s.label = t.label) : s = t :=
  Option.some.inj ((ofLabel?_label s).symm.trans ((congrArg ofLabel? h).trans (ofLabel?_label t)))

namespace Event

/-- The written form of an event, as a map. -/
def fields (e : Event) : Entries Json := Entries.ofList (e.toJson.members?.getD [])

/-- The fields of an event that are told at the head of a line. -/
def address (e : Event) : List (String × Json) :=
  ("type", .string e.what.label) :: ("run_id", .string e.run) ::
    match e.what.node? with
    | some node => [("node_id", .string node)]
    | none => []

theorem fields_eq (e : Event) : e.fields = Entries.ofList (e.address ++ e.what.particulars) := rfl

/-- No field of an event has the name of another one. -/
theorem nodup_names (e : Event) : (Entries.keys (e.address ++ e.what.particulars)).Nodup := by
  rcases e with ⟨run, what⟩
  cases what <;> simp [Entries.keys, address, Happening.node?, Happening.particulars]

theorem find?_fields (e : Event) (key : String) :
    Entries.find? key e.fields = Entries.find? key (e.address ++ e.what.particulars) := by
  rw [fields_eq, Entries.find?_ofList key _ e.nodup_names]

theorem flat_particulars (what : Happening) : ∀ field ∈ what.particulars, field.2.Flat := by
  cases what <;> simp [Happening.particulars, Json.Flat.string, Json.Flat.strings, Json.Flat.nat]

/-- The numbers of an event fit in the words that hold them. -/
def InRange (e : Event) : Prop :=
  ∀ field ∈ e.what.particulars, ∀ n ∈ field.2.numbers, n.Fits

/-- What happens is told by its name, and then each field by its own. -/
theorem what_eq_of_found {run run' : String} {what what' : Happening}
    (hfound : ∀ key, Entries.find? key (address ⟨run, what⟩ ++ what.particulars) =
      Entries.find? key (address ⟨run', what'⟩ ++ what'.particulars)) : what = what' := by
  have hlabel : what.label = what'.label :=
    Json.string.inj (Option.some.inj (hfound "type"))
  -- No two kinds of event have the same name.
  cases what with
  | runStarted graph stages nodes =>
      cases what' with
      | runStarted graph' stages' nodes' =>
          have hgraph : graph = graph' := Json.string.inj (Option.some.inj (hfound "graph_id"))
          have hstages : stages = stages' := Json.nat_inj (Option.some.inj (hfound "stages"))
          have hnodes : nodes = nodes' := Json.nat_inj (Option.some.inj (hfound "nodes"))
          rw [hgraph, hstages, hnodes]
      | _ => exact absurd hlabel (by simp [Happening.label])
  | stageStarted index nodes =>
      cases what' with
      | stageStarted index' nodes' =>
          have hindex : index = index' := Json.nat_inj (Option.some.inj (hfound "index"))
          have hnodes : nodes = nodes' := Json.strings_inj (Option.some.inj (hfound "nodes"))
          rw [hindex, hnodes]
      | _ => exact absurd hlabel (by simp [Happening.label])
  | nodeStarted node attempt =>
      cases what' with
      | nodeStarted node' attempt' =>
          have hnode : node = node' := Json.string.inj (Option.some.inj (hfound "node_id"))
          have hattempt : attempt = attempt' := Json.nat_inj (Option.some.inj (hfound "attempt"))
          rw [hnode, hattempt]
      | _ => exact absurd hlabel (by simp [Happening.label])
  | nodeRetrying node attempt backoff error =>
      cases what' with
      | nodeRetrying node' attempt' backoff' error' =>
          have hnode : node = node' := Json.string.inj (Option.some.inj (hfound "node_id"))
          have hattempt : attempt = attempt' := Json.nat_inj (Option.some.inj (hfound "attempt"))
          have hbackoff : backoff = backoff' := Json.nat_inj (Option.some.inj (hfound "backoff_ms"))
          have herror : error = error' := Json.string.inj (Option.some.inj (hfound "error"))
          rw [hnode, hattempt, hbackoff, herror]
      | _ => exact absurd hlabel (by simp [Happening.label])
  | nodeFinished node status attempts elapsed =>
      cases what' with
      | nodeFinished node' status' attempts' elapsed' =>
          have hnode : node = node' := Json.string.inj (Option.some.inj (hfound "node_id"))
          have hstatus : status = status' :=
            NodeStatus.label_inj (Json.string.inj (Option.some.inj (hfound "status")))
          have hattempts : attempts = attempts' :=
            Json.nat_inj (Option.some.inj (hfound "attempts"))
          have helapsed : elapsed = elapsed' := Json.nat_inj (Option.some.inj (hfound "elapsed_ms"))
          rw [hnode, hstatus, hattempts, helapsed]
      | _ => exact absurd hlabel (by simp [Happening.label])
  | nodeSkipped node reason =>
      cases what' with
      | nodeSkipped node' reason' =>
          have hnode : node = node' := Json.string.inj (Option.some.inj (hfound "node_id"))
          have hreason : reason = reason' := Json.string.inj (Option.some.inj (hfound "reason"))
          rw [hnode, hreason]
      | _ => exact absurd hlabel (by simp [Happening.label])
  | runCompleted status elapsed =>
      cases what' with
      | runCompleted status' elapsed' =>
          have hstatus : status = status' :=
            RunStatus.label_inj (Json.string.inj (Option.some.inj (hfound "status")))
          have helapsed : elapsed = elapsed' := Json.nat_inj (Option.some.inj (hfound "elapsed_ms"))
          rw [hstatus, helapsed]
      | _ => exact absurd hlabel (by simp [Happening.label])

/-- The fields of an event say which event it is. -/
theorem eq_of_fields_eq {e f : Event} (h : e.fields = f.fields) : e = f := by
  have hfound : ∀ key, Entries.find? key (e.address ++ e.what.particulars) =
      Entries.find? key (f.address ++ f.what.particulars) := by
    intro key
    rw [← find?_fields, ← find?_fields, h]
  have hrun : e.run = f.run := Json.string.inj (Option.some.inj (hfound "run_id"))
  have hwhat : e.what = f.what := what_eq_of_found hfound
  rcases e with ⟨run, what⟩
  rw [Event.mk.injEq]
  exact ⟨hrun, hwhat⟩

end Event

namespace LogEntry

/-- The names at the head of a line and the fields of an event that stand there. -/
def names : List (String × String) :=
  [("event_type", "type"), ("run_id", "run_id"), ("node_id", "node_id")]

/-- What is not told at the head of a line are the fields of the event, without
    those that are. -/
theorem detail_ofEvent (e : Event) : (ofEvent e).detail =
    Entries.erase "node_id" (Entries.erase "run_id" (Entries.erase "type" e.fields)) := by
  -- The fields that are taken out say where an event belongs, and those that are left never do.
  have hhead : ∀ field ∈ e.address,
      field.1 = "type" ∨ field.1 = "run_id" ∨ field.1 = "node_id" := by
    rw [Event.address]
    cases e.what.node? <;> simp
  have hrest : ∀ field ∈ e.what.particulars,
      field.1 ≠ "type" ∧ field.1 ≠ "run_id" ∧ field.1 ≠ "node_id" := by
    cases e.what <;> simp [Happening.particulars]
  have hkeys := e.nodup_names
  have hown : (Entries.keys e.what.particulars).Nodup := by
    rw [Entries.keys, List.map_append, List.nodup_append] at hkeys
    exact hkeys.2.1
  -- Both lists are in order, so it is enough that they have the same fields.
  have hordered : e.fields.Ordered := Entries.ordered_ofList _
  refine (Entries.ordered_ofList _).eq_of_mem_iff (((hordered.filter _).filter _).filter _)
    fun field => ?_
  simp only [Entries.erase, List.mem_filter, decide_eq_true_eq, e.fields_eq]
  rw [Entries.mem_ofList_iff _ hown, Entries.mem_ofList_iff _ hkeys, List.mem_append]
  constructor
  · intro hfield
    rcases hrest field hfield with ⟨htype, hrun, hnode⟩
    exact ⟨⟨⟨Or.inr hfield, htype⟩, hrun⟩, hnode⟩
  · rintro ⟨⟨⟨hfield, htype⟩, hrun⟩, hnode⟩
    refine hfield.resolve_left fun haddress => ?_
    rcases hhead field haddress with heq | heq | heq
    · exact htype heq
    · exact hrun heq
    · exact hnode heq

/-- What a line says, with the fields at its head put back among the others. -/
def restored (line : Entries Json) : Entries Json :=
  Entries.merge (((Entries.find? "detail" line).bind Json.members?).getD []) <|
    names.filterMap fun name =>
      (Entries.find? name.1 line).map fun value => (name.2, value)

/-- The members of a line, in the order in which they are written. -/
def members (entry : LogEntry) (time : String) : List (String × Json) :=
  (entry.toJson time).members?.getD []

theorem nodup_members (entry : LogEntry) (time : String) :
    (Entries.keys (entry.members time)).Nodup := by
  rcases entry with ⟨run, what, node, detail⟩
  cases node <;> cases detail <;>
    simp [members, toJson, Json.members?, Entries.keys]

/-- Only what is found in a line matters to what it says. -/
theorem restored_ofList (added : List (String × Json)) (hkeys : (Entries.keys added).Nodup) :
    restored (Entries.ofList added) = restored added := by
  simp only [restored, Entries.find?_ofList _ added hkeys]

theorem restored_members (entry : LogEntry) (time : String) :
    restored (entry.members time) =
      Entries.merge entry.detail
        (("type", .string entry.what) :: ("run_id", .string entry.run) ::
          match entry.node with
          | some node => [("node_id", .string node)]
          | none => []) := by
  rcases entry with ⟨run, what, node, detail⟩
  cases node <;> cases detail <;> rfl

/-- A line says what its event says. -/
theorem restored_ofEvent (e : Event) (time : String) :
    restored ((ofEvent e).members time) = e.fields := by
  rw [restored_members, e.fields_eq]
  exact Entries.merge_ofList e.what.particulars e.address e.nodup_names

/-- A member of a line is a text, or the object of the other fields. -/
theorem mem_members (entry : LogEntry) (time : String) : ∀ member ∈ entry.members time,
    (∃ text, member.2 = .string text) ∨ member.2 = .object entry.detail := by
  rcases entry with ⟨run, what, node, detail⟩
  cases node <;> cases detail <;> simp [members, toJson, Json.members?]

/-- A number in a line is one of its event. -/
theorem exists_field_of_mem_numbers (e : Event) (time : String) (n : Number)
    (hn : n ∈ Json.numbersOfMembers ((ofEvent e).members time)) :
    ∃ field ∈ e.what.particulars, n ∈ field.2.numbers := by
  rcases (Json.mem_numbersOfMembers_iff _ n).mp hn with ⟨member, hmember, hnumber⟩
  rcases (ofEvent e).mem_members time member hmember with ⟨text, htext⟩ | hdetail
  · rw [htext] at hnumber
    exact absurd hnumber List.not_mem_nil
  · rw [hdetail] at hnumber
    rcases (Json.mem_numbersOfMembers_iff _ n).mp hnumber with ⟨field, hfield, hnumber⟩
    exact ⟨field, Entries.mem_of_mem_ofList _ field hfield, hnumber⟩

/-- A reader of texts has room for a line. -/
theorem kept_members (e : Event) (time : String) (hrange : e.InRange) :
    Json.KeptMembers 126 ((ofEvent e).members time) := by
  rw [Json.keptMembers_iff]
  intro member hmember
  rcases (ofEvent e).mem_members time member hmember with ⟨text, htext⟩ | hdetail
  · rw [htext]
    exact trivial
  · rw [hdetail]
    refine ⟨Entries.ordered_ofList _, Json.keptMembers_ofList 125 _ ?_⟩
    rw [Json.keptMembers_iff]
    exact fun field hfield => (Event.flat_particulars e.what field hfield).kept
      (hrange field hfield) 124

/-- A line says what an event says: it is an object, and with the fields at its
    head put back among the others it has the fields of the event. -/
def Tells (line : Json) (e : Event) : Prop :=
  ∃ members, line = .object members ∧ restored members = e.fields

/-- A line is written for one event only. -/
theorem Tells.unique {line : Json} {e f : Event} (he : Tells line e) (hf : Tells line f) :
    e = f := by
  rcases he with ⟨members, hmembers, he⟩
  rcases hf with ⟨others, hothers, hf⟩
  have hsame : members = others := Json.object.inj (hmembers.symm.trans hothers)
  exact Event.eq_of_fields_eq (he.symm.trans (hsame ▸ hf))

theorem tells_toJson (e : Event) (time : String) : Tells ((ofEvent e).toJson time) e :=
  ⟨(ofEvent e).members time, rfl, restored_ofEvent e time⟩

/-- The text of a line is one line. -/
theorem printable_line (e : Event) (time : String) :
    Json.Printable ((ofEvent e).toJson time).compactChars := by
  refine Json.printable_compact _ fun n hn => ?_
  rcases exists_field_of_mem_numbers e time n hn with ⟨field, hfield, hnumber⟩
  rcases (Event.flat_particulars e.what field hfield).natural n hnumber with ⟨k, rfl⟩
  exact Number.printable_nat k

/-- What is read from the text of a line says what the event says. -/
theorem read?_line (e : Event) (time : String) (hrange : e.InRange) :
    ∃ line, Json.read? ((ofEvent e).toJson time).compact = some line ∧ Tells line e := by
  have hback : ∀ n ∈ Json.numbersOfMembers ((ofEvent e).members time), n.ReadsBack := by
    intro n hn
    rcases exists_field_of_mem_numbers e time n hn with ⟨field, hfield, hnumber⟩
    have hfits := hrange field hfield n hnumber
    rcases (Event.flat_particulars e.what field hfield).natural n hnumber with ⟨k, rfl⟩
    exact Number.readsBack_int k hfits
  have hread := Json.read?_object _ (kept_members e time hrange) hback
  have hkeys := nodup_members (ofEvent e) time
  exact ⟨_, hread, _, rfl, (restored_ofList _ hkeys).trans (restored_ofEvent e time)⟩

end LogEntry

end Workflow
