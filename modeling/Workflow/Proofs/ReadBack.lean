import Mathlib.Data.List.TakeWhile
import Workflow.Proofs.Spelling

/-!
# Values That Are Read Back

What a reader keeps of a document, and what it makes of the text of a value
that it has kept.

Whatever is kept has three properties (`Json.Kept`): its integers fit in 64
bits, the keys of its objects ascend, and it is not nested deeper than the
reader has room for. A value with these properties is found again in its text,
except for one question, which is not asked here: whether a binary64 number is
the one that its decimal text is read as. That is a property of the number
(`Number.ReadsBack`), and it is asked of every such number in the value.
Integers have it all.

## Main definitions

* `Number.ReadsBack`: A number is found again in its text.
* `Number.Fits`: An integer fits in 64 bits.
* `Json.Kept`: A value is one that a reader keeps.

## Theorems

* `Entries.ofList_of_ordered`: The map of a list that is in order is the list.
* `readsBack_int`: Integers are found again.
* `kept_of_toJson?`: What a reader makes of a document is kept.
* `toJson?_document`: What is kept is found again.
-/

namespace Workflow

namespace Entries

variable {β : Type}

/-- The last key is added at the end. -/
theorem insert_last (key : String) (value : β) (entries : Entries β)
    (h : ∀ entry ∈ entries, entry.1 < key) :
    insert key value entries = entries ++ [(key, value)] := by
  induction entries with
  | nil => rfl
  | cons entry rest ih =>
      have hfirst := h entry List.mem_cons_self
      have hnot : ¬ key < entry.1 := fun hlt => String.lt_irrefl key (String.lt_trans hlt hfirst)
      have hne : entry.1 ≠ key := fun heq => String.lt_irrefl key (heq ▸ hfirst)
      rw [insert, if_neg hnot, if_neg hne, ih fun other hother =>
        h other (List.mem_cons_of_mem _ hother), List.cons_append]

theorem merge_of_ordered (base added : Entries β) (h : Ordered (base ++ added)) :
    merge base added = base ++ added := by
  induction added generalizing base with
  | nil => exact (List.append_nil base).symm
  | cons entry rest ih =>
      have hlast : ∀ other ∈ base, other.1 < entry.1 := fun other hother =>
        (List.pairwise_append.mp h).2.2 other hother entry List.mem_cons_self
      rw [List.append_cons] at h
      rw [merge, List.foldl_cons, insert_last _ _ base hlast]
      exact (ih _ h).trans (List.append_assoc ..)

/-- The map of a list that is in order is the list. -/
theorem ofList_of_ordered (entries : Entries β) (h : Ordered entries) :
    ofList entries = entries :=
  merge_of_ordered [] entries h

/-- A map has the entries of its list. -/
theorem mem_of_mem_merge (base : Entries β) (added : List (String × β)) (entry : String × β)
    (h : entry ∈ merge base added) : entry ∈ base ∨ entry ∈ added := by
  induction added generalizing base with
  | nil => exact Or.inl h
  | cons first rest ih =>
      rcases ih _ h with hbase | hrest
      · rcases mem_keys_insert hbase with heq | hold
        · exact Or.inr (heq ▸ List.mem_cons_self)
        · exact Or.inl hold
      · exact Or.inr (List.mem_cons_of_mem _ hrest)

theorem mem_of_mem_ofList (added : List (String × β)) (entry : String × β)
    (h : entry ∈ ofList added) : entry ∈ added :=
  (mem_of_mem_merge [] added entry h).resolve_left List.not_mem_nil

end Entries

namespace Number

/-- A number is found again in its text. -/
def ReadsBack (n : Number) : Prop := n.IsLiteral ∧ n.literal.number? = some n

instance (n : Number) : Decidable n.ReadsBack :=
  inferInstanceAs (Decidable (Document.literal n.chars = some (n.literal, []) ∧
    n.literal.number? = some n))

/-- An integer fits in 64 bits, signed or unsigned. -/
def Fits : Number → Prop
  | .int i => -0x8000000000000000 ≤ i ∧ i < 0x10000000000000000
  | .real _ => True

/-- The digits of a numeral as a literal. -/
def numeralLiteral (negative : Bool) (n : Nat) : Literal :=
  ⟨negative, (Decimal.numeral n).map fun c => c.toNat - 48, [], none⟩

theorem isDigit_of_mem_numeral (n : Nat) (c : Char) (h : c ∈ Decimal.numeral n) :
    c.isDigit = true :=
  Nat.isDigit_of_mem_toDigits (by decide) (by decide) h

theorem digits_numeral (n : Nat) :
    Document.digits (Decimal.numeral n) =
      ((Decimal.numeral n).map fun c => c.toNat - 48, []) := by
  have hall := isDigit_of_mem_numeral n
  rw [Document.digits, List.takeWhile_eq_self_iff.mpr hall, List.dropWhile_eq_nil_iff.mpr hall]

/-- No numeral but that of zero begins with a zero. -/
theorem eq_zero_of_numeral (n : Nat) (tail : List Char) (h : Decimal.numeral n = '0' :: tail) :
    n = 0 := by
  induction n using Nat.strongRecOn generalizing tail with
  | ind n ih =>
      rw [Decimal.numeral] at h
      -- A number with more digits begins like the number without its last one.
      by_cases hn : n < 10
      · rw [Nat.toDigits_of_lt_base hn] at h
        have hdigit : n.digitChar = '0' := (List.cons.inj h).1
        clear ih h
        revert n
        decide
      · rw [Nat.toDigits_of_base_le (by decide) (Nat.le_of_not_lt hn)] at h
        cases hfirst : Nat.toDigits 10 (n / 10) with
        | nil => exact absurd hfirst Nat.toDigits_ne_nil
        | cons c rest =>
            rw [hfirst, List.cons_append] at h
            have hc := (List.cons.inj h).1
            have hzero := ih (n / 10) (by omega) rest (by rw [Decimal.numeral, hfirst, hc])
            omega

theorem wholePart_numeral (n : Nat) :
    Document.wholePart (Decimal.numeral n) =
      some ((Decimal.numeral n).map fun c => c.toNat - 48, []) := by
  by_cases hn : n = 0
  · rw [hn]
    decide
  · have hne : ∀ tail, Decimal.numeral n = '0' :: tail → False :=
      fun tail h => hn (eq_zero_of_numeral n tail h)
    rw [Document.wholePart.eq_2 _ hne, digits_numeral]
    simp only [List.isEmpty_map]
    rw [if_neg]
    rw [List.isEmpty_iff]
    exact Nat.toDigits_ne_nil

theorem unsigned_numeral (negative : Bool) (n : Nat) :
    Document.unsigned negative (Decimal.numeral n) = some (numeralLiteral negative n, []) := by
  rw [Document.unsigned, wholePart_numeral]
  rfl

theorem literal_numeral (n : Nat) :
    Document.literal (Decimal.numeral n) = some (numeralLiteral false n, []) := by
  have hplain : ∀ tail, Decimal.numeral n ≠ '-' :: tail := by
    intro tail h
    have hdigit := isDigit_of_mem_numeral n '-' (h ▸ List.mem_cons_self)
    exact absurd hdigit (by decide)
  rw [Document.literal_plain _ hplain, unsigned_numeral]

/-- The digits of a numeral have its value. -/
theorem foldl_numeral (n : Nat) :
    ((Decimal.numeral n).map fun c => c.toNat - 48).foldl (fun n d => n * 10 + d) 0 = n := by
  have hvalue : Nat.ofDigitChars 10 (Nat.toDigits 10 n) 0 = n := Nat.ofDigitChars_ten_toDigits
  rw [Nat.ofDigitChars] at hvalue
  have hzero : '0'.toNat = 48 := rfl
  rw [List.foldl_map, Decimal.numeral]
  simpa only [Nat.mul_comm 10, hzero] using hvalue

/-- An integer that fits is found again. -/
theorem readsBack_int (i : Int) (h : (Number.int i).Fits) : (Number.int i).ReadsBack := by
  cases i with
  | ofNat n =>
      have hliteral : Document.literal (Number.int (.ofNat n)).chars =
          some (numeralLiteral false n, []) := literal_numeral n
      have heq : (Number.int (.ofNat n)).literal = numeralLiteral false n := by
        rw [literal, hliteral]
      -- The number is written as its digits, and it is small enough to stay an integer.
      have hn : n < 0x10000000000000000 := Int.ofNat_lt.mp h.2
      refine ⟨by rw [IsLiteral, heq, hliteral], ?_⟩
      rw [heq, Literal.number?, Literal.integer?, numeralLiteral]
      simp only [List.isEmpty_nil, Option.isNone_none, Bool.and_true, if_true, foldl_numeral,
        Bool.false_eq_true, if_false, if_pos hn]
      rfl
  | negSucc n =>
      have hliteral : Document.literal (Number.int (.negSucc n)).chars =
          some (numeralLiteral true (n + 1), []) :=
        (Document.literal_minus _).trans (unsigned_numeral true (n + 1))
      have heq : (Number.int (.negSucc n)).literal = numeralLiteral true (n + 1) := by
        rw [literal, hliteral]
      -- Below zero one more number is small enough.
      have hn : ¬ (decide (n + 1 = 0) || decide (0x8000000000000000 < n + 1)) = true := by
        have hlow := h.1
        simp only [Bool.or_eq_true, decide_eq_true_eq]
        omega
      refine ⟨by rw [IsLiteral, heq, hliteral], ?_⟩
      rw [heq, Literal.number?, Literal.integer?, numeralLiteral]
      simp only [List.isEmpty_nil, Option.isNone_none, Bool.and_true, if_true, foldl_numeral,
        if_neg hn]
      rfl

/-- The integer that a reader makes of a literal is the one that is written. -/
theorem integer?_of_number? (l : Literal) (i : Int) (h : l.number? = some (.int i)) :
    l.integer? = some i := by
  rw [Literal.number?] at h
  cases hl : l.integer? with
  | some j =>
      rw [hl] at h
      exact congrArg some (Number.int.inj (Option.some.inj h))
  | none =>
      rw [hl] at h
      rcases Option.map_eq_some_iff.mp h with ⟨x, -, hx⟩
      exact nomatch hx

/-- Numbers that a reader makes of literals fit. -/
theorem fits_of_number? (l : Literal) (n : Number) (h : l.number? = some n) : n.Fits := by
  cases n with
  | real x => exact trivial
  | int i =>
      have hinteger := integer?_of_number? l i h
      rw [Literal.integer?] at hinteger
      simp only [Bool.or_eq_true, decide_eq_true_eq] at hinteger
      split at hinteger
      · split at hinteger
        · split at hinteger
          · exact absurd hinteger nofun
          · rw [← Option.some.inj hinteger, Fits]
            omega
        · split at hinteger
          · rw [← Option.some.inj hinteger, Fits]
            omega
          · exact absurd hinteger nofun
      · exact absurd hinteger nofun

end Number

namespace Json

mutual

/-- A value is one that is kept by a reader that has room for so many open
    arrays and objects. -/
def Kept (room : Nat) : Json → Prop
  | .number n => n.Fits
  | .array items =>
      match room with
      | 0 => False
      | room + 1 => KeptItems room items
  | .object members =>
      match room with
      | 0 => False
      | room + 1 => Entries.Ordered members ∧ KeptMembers room members
  | _ => True

/-- The items of an array are kept. -/
def KeptItems (room : Nat) : List Json → Prop
  | [] => True
  | item :: rest => Kept room item ∧ KeptItems room rest

/-- The members of an object are kept. -/
def KeptMembers (room : Nat) : List (String × Json) → Prop
  | [] => True
  | (_, value) :: rest => Kept room value ∧ KeptMembers room rest

end

theorem keptMembers_iff (room : Nat) (members : List (String × Json)) :
    KeptMembers room members ↔ ∀ member ∈ members, member.2.Kept room := by
  induction members with
  | nil => simp only [KeptMembers, List.not_mem_nil, false_implies, implies_true]
  | cons member rest ih => rw [KeptMembers, ih, List.forall_mem_cons]

/-- The reader of a map keeps what it reads, whatever keys are repeated. -/
theorem keptMembers_ofList (room : Nat) (members : List (String × Json))
    (h : KeptMembers room members) : KeptMembers room (Entries.ofList members) := by
  rw [keptMembers_iff] at h ⊢
  exact fun member hmember => h member (Entries.mem_of_mem_ofList members member hmember)

end Json

namespace Document

mutual

/-- What a reader makes of a document is kept. -/
theorem kept_of_toJson? (room : Nat) (d : Document) (v : Json) (h : d.toJson? room = some v) :
    v.Kept room := by
  -- Each list or object takes one level of the room, and without any it is not read.
  match d with
  | .null =>
      rw [← Option.some.inj h]
      exact trivial
  | .bool b =>
      rw [← Option.some.inj h]
      exact trivial
  | .number l =>
      rcases Option.map_eq_some_iff.mp h with ⟨n, hn, rfl⟩
      exact Number.fits_of_number? l n hn
  | .string text =>
      rcases Option.map_eq_some_iff.mp h with ⟨s, -, rfl⟩
      exact trivial
  | .array items =>
      cases room with
      | zero => exact absurd h nofun
      | succ room =>
          rcases Option.map_eq_some_iff.mp h with ⟨found, hfound, rfl⟩
          exact keptItems_of_toJson? room items found hfound
  | .object members =>
      cases room with
      | zero => exact absurd h nofun
      | succ room =>
          rcases Option.map_eq_some_iff.mp h with ⟨found, hfound, rfl⟩
          exact ⟨Entries.ordered_ofList found,
            Json.keptMembers_ofList room found (keptMembers_of_toJson? room members found hfound)⟩
termination_by sizeOf d

theorem keptItems_of_toJson? (room : Nat) (items : List Document) (found : List Json)
    (h : itemsToJson? room items = some found) : Json.KeptItems room found := by
  match items with
  | [] =>
      rw [← Option.some.inj h]
      exact trivial
  | item :: rest =>
      rcases Option.bind_eq_some_iff.mp h with ⟨first, hfirst, h⟩
      rcases Option.bind_eq_some_iff.mp h with ⟨others, hothers, h⟩
      rw [← Option.some.inj h]
      exact ⟨kept_of_toJson? room item first hfirst,
        keptItems_of_toJson? room rest others hothers⟩
termination_by sizeOf items

theorem keptMembers_of_toJson? (room : Nat) (members : List (Option String × Document))
    (found : List (String × Json)) (h : membersToJson? room members = some found) :
    Json.KeptMembers room found := by
  match members with
  | [] =>
      rw [← Option.some.inj h]
      exact trivial
  | (key, value) :: rest =>
      rcases Option.bind_eq_some_iff.mp h with ⟨key, -, h⟩
      rcases Option.bind_eq_some_iff.mp h with ⟨first, hfirst, h⟩
      rcases Option.bind_eq_some_iff.mp h with ⟨others, hothers, h⟩
      rw [← Option.some.inj h]
      exact ⟨kept_of_toJson? room value first hfirst,
        keptMembers_of_toJson? room rest others hothers⟩
termination_by sizeOf members

end

end Document

namespace Number

/-- A number that fits is found again, if it is not a binary64 number that is
    lost in its text. -/
theorem readsBack_of_fits (n : Number) (hfits : n.Fits)
    (hreal : ∀ x, n = .real x → (Number.real x).ReadsBack) : n.ReadsBack := by
  cases n with
  | int i => exact readsBack_int i hfits
  | real x => exact hreal x rfl

end Number

namespace Json

mutual

theorem fits_of_kept (room : Nat) (v : Json) (h : v.Kept room) (n : Number)
    (hn : n ∈ v.numbers) : n.Fits := by
  match v with
  | .null | .bool _ | .string _ => exact absurd hn List.not_mem_nil
  | .number m =>
      rw [List.mem_singleton.mp hn]
      exact h
  | .array items =>
      cases room with
      | zero => exact absurd h id
      | succ room => exact fits_of_keptItems room items h n hn
  | .object members =>
      cases room with
      | zero => exact absurd h id
      | succ room => exact fits_of_keptMembers room members h.2 n hn
termination_by sizeOf v

theorem fits_of_keptItems (room : Nat) (items : List Json) (h : KeptItems room items)
    (n : Number) (hn : n ∈ numbersOfItems items) : n.Fits := by
  match items with
  | [] => exact absurd hn List.not_mem_nil
  | item :: rest =>
      rcases List.mem_append.mp hn with hitem | hrest
      · exact fits_of_kept room item h.1 n hitem
      · exact fits_of_keptItems room rest h.2 n hrest
termination_by sizeOf items

theorem fits_of_keptMembers (room : Nat) (members : List (String × Json))
    (h : KeptMembers room members) (n : Number) (hn : n ∈ numbersOfMembers members) :
    n.Fits := by
  match members with
  | [] => exact absurd hn List.not_mem_nil
  | (key, value) :: rest =>
      rcases List.mem_append.mp hn with hvalue | hrest
      · exact fits_of_kept room value h.1 n hvalue
      · exact fits_of_keptMembers room rest h.2 n hrest
termination_by sizeOf members

end

mutual

/-- What is kept is found again, if its numbers are. -/
theorem toJson?_document (room : Nat) (v : Json) (hkept : v.Kept room)
    (hback : ∀ n ∈ v.numbers, n.ReadsBack) : v.document.toJson? room = some v := by
  match v with
  | .null => rfl
  | .bool b => rfl
  | .number n =>
      rw [document, Document.toJson?, (hback n List.mem_cons_self).2]
      rfl
  | .string s => rfl
  | .array items =>
      cases room with
      | zero => exact absurd hkept id
      | succ room =>
          rw [document, Document.toJson?, itemsToJson?_documents room items hkept hback]
          rfl
  | .object members =>
      cases room with
      | zero => exact absurd hkept id
      | succ room =>
          rw [document, Document.toJson?, membersToJson?_documents room members hkept.2 hback,
            Option.map_some, Entries.ofList_of_ordered members hkept.1]
termination_by sizeOf v

theorem itemsToJson?_documents (room : Nat) (items : List Json) (hkept : KeptItems room items)
    (hback : ∀ n ∈ numbersOfItems items, n.ReadsBack) :
    Document.itemsToJson? room (documentsOfItems items) = some items := by
  match items with
  | [] => rfl
  | item :: rest =>
      have hitem := toJson?_document room item hkept.1 fun n hn =>
        hback n (List.mem_append_left _ hn)
      have hrest := itemsToJson?_documents room rest hkept.2 fun n hn =>
        hback n (List.mem_append_right _ hn)
      rw [documentsOfItems, Document.itemsToJson?, hitem, hrest]
      rfl
termination_by sizeOf items

theorem membersToJson?_documents (room : Nat) (members : List (String × Json))
    (hkept : KeptMembers room members) (hback : ∀ n ∈ numbersOfMembers members, n.ReadsBack) :
    Document.membersToJson? room (documentsOfMembers members) = some members := by
  match members with
  | [] => rfl
  | (key, value) :: rest =>
      have hvalue := toJson?_document room value hkept.1 fun n hn =>
        hback n (List.mem_append_left _ hn)
      have hrest := membersToJson?_documents room rest hkept.2 fun n hn =>
        hback n (List.mem_append_right _ hn)
      rw [documentsOfMembers, Document.membersToJson?, hvalue, hrest]
      rfl
termination_by sizeOf members

end

end Json

end Workflow
