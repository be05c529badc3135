import Workflow.Json.Decode
import Workflow.Json.Printer

/-!
# Texts That Spell Values

What is written as JSON is read as the document that was meant.

A list of characters spells a value when it has the tokens of the value in
their order, with blanks between them where anybody likes. Both ways of writing
a value spell it, without blanks and over lines, and the reader finds the same
document in everything that spells a value. So it does not matter here how a
value is laid out.

Texts are read character by character, and each character between the quotes
is one piece, whether it was escaped or not. Numbers are the only values whose
end is not seen: a literal goes on for as long as it can. It ends where it
should when what follows can not be a part of it (`Stops`), and in a text of
JSON nothing but a blank, a comma or a bracket follows a number.

How a number is written and read again is not looked into. It is asked of each
number that its text is a literal (`Number.IsLiteral`).

## Main definitions

* `Document.Stops`: A literal can not go on with what follows.
* `Number.IsLiteral`: The text of a number is a literal.
* `Json.numbers`: The numbers in a value.
* `Json.document`: The document that is meant by the text of a value.
* `Json.Spells`: A list of characters spells a value.

## Theorems

* `quoted_quote`: A text in quotes is read as it is.
* `literal_append`: A literal ends where it should.
* `value_of_spells`: A value that is spelled is read.
* `spells_compact`, `spells_pretty`: What is written spells the value.
* `read?_compact`, `read?_pretty`: What is written is read again.
-/

namespace Workflow

namespace Document

/-- What the reader makes of a character between quotes: one that is escaped by
    its number is a unit. -/
def pieceOf (c : Char) : Piece :=
  if c.toNat < 32 ∧ c.toNat ∉ [8, 9, 10, 12, 13] then .unit c.toNat else .char c

theorem hexDigit?_hexDigit (n : Nat) (h : n < 16) : hexDigit? (Json.hexDigit n) = some n := by
  revert n
  decide

theorem pieces_short (e c : Char) (rest : List Char) (hu : e ≠ 'u')
    (h : shortEscape? e = some c) :
    pieces ('\\' :: e :: rest) = (pieces rest).map fun found => (.char c :: found.1, found.2) := by
  rw [pieces.eq_3 e rest fun _ _ _ _ _ heq _ => hu heq, h]
  cases pieces rest <;> rfl

theorem pieces_plain (c : Char) (rest : List Char) (hquote : c ≠ '"') (hslash : c ≠ '\\')
    (hlow : 32 ≤ c.toNat) :
    pieces (c :: rest) = (pieces rest).map fun found => (.char c :: found.1, found.2) := by
  have hnone : ¬ (decide (c.toNat < 32) || decide (c = '\\')) = true := by
    simp only [hslash, decide_false, Bool.or_false, decide_eq_true_eq, Nat.not_lt, hlow]
  rw [pieces.eq_4 c rest hquote (fun _ _ _ _ _ heq _ => hslash heq)
    (fun _ _ heq _ => hslash heq), if_neg hnone]
  cases pieces rest <;> rfl

/-- A character that is escaped by its number is read as that number. -/
theorem pieces_unit (n : Nat) (rest : List Char) (h : n < 32) :
    pieces ('\\' :: 'u' :: '0' :: '0' :: Json.hexDigit (n / 16) :: Json.hexDigit (n % 16) :: rest) =
      (pieces rest).map fun found => (.unit n :: found.1, found.2) := by
  have hzero : hexDigit? '0' = some 0 := by decide
  have hhigh := hexDigit?_hexDigit (n / 16) (by omega)
  have hlow := hexDigit?_hexDigit (n % 16) (by omega)
  have hsum : ((0 * 16 + 0) * 16 + n / 16) * 16 + n % 16 = n := by omega
  rw [pieces.eq_2, hzero, hhigh, hlow]
  simp only [Option.bind_eq_bind, Option.bind_some, hsum]
  cases pieces rest <;> rfl

/-- A control character that has an escape of one letter is read as itself. -/
theorem pieces_control (e c : Char) (n : Nat) (rest : List Char) (hc : c.toNat = n)
    (hn : n ∈ [8, 9, 10, 12, 13]) (hu : e ≠ 'u') (h : shortEscape? e = some (Char.ofNat n)) :
    pieces ('\\' :: e :: rest) =
      (pieces rest).map fun found => (pieceOf c :: found.1, found.2) := by
  have hpiece : pieceOf c = .char c := by
    rw [pieceOf, if_neg]
    rw [hc]
    exact fun hunit => hunit.2 hn
  rw [← hc, Char.ofNat_toNat] at h
  rw [hpiece]
  exact pieces_short e c rest hu h

/-- Every character is one piece. -/
theorem pieces_escape (c : Char) (rest : List Char) :
    pieces (Json.escape c ++ rest) =
      (pieces rest).map fun found => (pieceOf c :: found.1, found.2) := by
  rw [Json.escape]
  by_cases hquote : c = '"'
  · rw [if_pos hquote, hquote]
    exact pieces_short '"' '"' rest (by decide) (by decide)
  rw [if_neg hquote]
  by_cases hslash : c = '\\'
  · rw [if_pos hslash, hslash]
    exact pieces_short '\\' '\\' rest (by decide) (by decide)
  rw [if_neg hslash]
  -- Five control characters have letters of their own.
  by_cases h8 : c.toNat = 8
  · rw [if_pos h8]
    exact pieces_control 'b' c 8 rest h8 (by decide) (by decide) (by decide)
  rw [if_neg h8]
  by_cases h9 : c.toNat = 9
  · rw [if_pos h9]
    exact pieces_control 't' c 9 rest h9 (by decide) (by decide) (by decide)
  rw [if_neg h9]
  by_cases h10 : c.toNat = 10
  · rw [if_pos h10]
    exact pieces_control 'n' c 10 rest h10 (by decide) (by decide) (by decide)
  rw [if_neg h10]
  by_cases h12 : c.toNat = 12
  · rw [if_pos h12]
    exact pieces_control 'f' c 12 rest h12 (by decide) (by decide) (by decide)
  rw [if_neg h12]
  by_cases h13 : c.toNat = 13
  · rw [if_pos h13]
    exact pieces_control 'r' c 13 rest h13 (by decide) (by decide) (by decide)
  rw [if_neg h13]
  -- Every other control character has its number.
  by_cases hlow : c.toNat < 32
  · have hpiece : pieceOf c = .unit c.toNat := by
      rw [pieceOf, if_pos]
      simp only [List.mem_cons, h8, h9, h10, h12, h13, List.not_mem_nil, or_self,
        not_false_eq_true, and_true, hlow]
    rw [if_pos hlow, hpiece]
    exact pieces_unit c.toNat rest hlow
  · have hpiece : pieceOf c = .char c := by
      rw [pieceOf, if_neg]
      exact fun h => hlow h.1
    rw [if_neg hlow, hpiece]
    exact pieces_plain c rest hquote hslash (Nat.le_of_not_lt hlow)

theorem pieces_flatMap_escape (s rest : List Char) :
    pieces (s.flatMap Json.escape ++ '"' :: rest) = some (s.map pieceOf, rest) := by
  induction s with
  | nil => exact pieces.eq_1 rest
  | cons c tail ih =>
      rw [List.flatMap_cons, List.append_assoc, pieces_escape, ih, Option.map_some, List.map_cons]

/-- A unit below the surrogates is a character. -/
theorem join_unit (n : Nat) (rest : List Piece) (h : n < 0xD800) :
    join (.unit n :: rest) = (join rest).map (Char.ofNat n :: ·) := by
  have hhigh : ¬ (decide (0xD800 ≤ n) && decide (n < 0xDC00)) = true := by
    rw [Bool.and_eq_true, decide_eq_true_eq, decide_eq_true_eq]
    omega
  have hlow : ¬ (decide (0xDC00 ≤ n) && decide (n < 0xE000)) = true := by
    rw [Bool.and_eq_true, decide_eq_true_eq, decide_eq_true_eq]
    omega
  rw [join.eq_def]
  simp only [if_neg hhigh, if_neg hlow]

/-- The pieces of a text are joined to the text. -/
theorem join_map_pieceOf (s : List Char) : join (s.map pieceOf) = some s := by
  induction s with
  | nil => rfl
  | cons c tail ih =>
      rw [List.map_cons, pieceOf]
      by_cases hunit : c.toNat < 32 ∧ c.toNat ∉ [8, 9, 10, 12, 13]
      · rw [if_pos hunit, join_unit _ _ (by omega), ih, Option.map_some, Char.ofNat_toNat]
      · rw [if_neg hunit, join, ih, Option.map_some]

/-- A text in quotes is read as it is. -/
theorem quoted_quote (s : String) (rest : List Char) :
    quoted (s.toList.flatMap Json.escape ++ '"' :: rest) = some (some s, rest) := by
  rw [quoted, pieces_flatMap_escape, Option.map_some, join_map_pieceOf, Option.map_some,
    String.ofList_toList]

/-- A literal cannot go on with what follows. -/
def Stops (rest : List Char) : Prop :=
  ∀ c, rest.head? = some c → c.isDigit = false ∧ c ≠ '.' ∧ c ≠ 'e' ∧ c ≠ 'E'

theorem digits_append (cs rest : List Char) (h : Stops rest) :
    digits (cs ++ rest) = ((digits cs).1, (digits cs).2 ++ rest) := by
  induction cs with
  | nil =>
      cases rest with
      | nil => rfl
      | cons c tail =>
          -- The first character after a number is not a digit.
          have hc := (h c rfl).1
          rw [List.nil_append, digits, List.takeWhile_cons, List.dropWhile_cons, hc]
          rfl
  | cons c tail ih =>
      rw [digits, digits, Prod.mk.injEq] at ih
      rw [List.cons_append, digits, digits, List.takeWhile_cons, List.dropWhile_cons,
        List.takeWhile_cons, List.dropWhile_cons]
      cases hc : c.isDigit with
      | true =>
          simp only [if_true, List.map_cons, Prod.mk.injEq, List.cons.injEq, true_and]
          exact ih
      | false => rfl

theorem wholePart_nil : wholePart [] = none := rfl

theorem wholePart_append (cs rest after : List Char) (found : List Nat) (hstops : Stops rest)
    (h : wholePart cs = some (found, after)) :
    wholePart (cs ++ rest) = some (found, after ++ rest) := by
  cases cs with
  | nil =>
      -- There is a digit to begin with.
      rw [wholePart_nil] at h
      exact absurd h nofun
  | cons c tail =>
      -- A zero stands alone, and other numbers take all digits that follow.
      by_cases hzero : c = '0'
      · rw [hzero, wholePart.eq_1, Option.some.injEq, Prod.mk.injEq] at h
        rw [hzero, List.cons_append, wholePart.eq_1, ← h.1, ← h.2]
      · rw [wholePart.eq_2 _ fun _ heq => hzero (List.cons.inj heq).1] at h
        rw [List.cons_append, wholePart.eq_2 _ fun _ heq => hzero (List.cons.inj heq).1,
          ← List.cons_append, digits_append _ _ hstops]
        simp only at h ⊢
        split at h
        · exact absurd h (by simp only [reduceCtorEq, not_false_eq_true])
        · rename_i hsome
          rw [Option.some.injEq, Prod.mk.injEq] at h
          rw [if_neg hsome, h.1, h.2]

theorem fractionPart_append (cs rest after : List Char) (found : List Nat) (hstops : Stops rest)
    (h : fractionPart cs = some (found, after)) :
    fractionPart (cs ++ rest) = some (found, after ++ rest) := by
  cases cs with
  | nil =>
      rw [fractionPart.eq_2 [] nofun, Option.some.injEq, Prod.mk.injEq] at h
      -- What follows the number does not begin with a point.
      have hne : ∀ t, rest = '.' :: t → False := by
        intro t heq
        exact (hstops '.' (by rw [heq]; rfl)).2.1 rfl
      rw [List.nil_append, fractionPart.eq_2 rest hne, ← h.1, ← h.2, List.nil_append]
  | cons c tail =>
      -- A point has to be followed by a digit.
      by_cases hpoint : c = '.'
      · rw [hpoint, fractionPart.eq_1] at h
        rw [hpoint, List.cons_append, fractionPart.eq_1, digits_append _ _ hstops]
        simp only at h ⊢
        split at h
        · exact absurd h (by simp only [reduceCtorEq, not_false_eq_true])
        · rename_i hsome
          rw [Option.some.injEq, Prod.mk.injEq] at h
          rw [if_neg hsome, h.1, h.2]
      · rw [fractionPart.eq_2 _ fun _ heq => hpoint (List.cons.inj heq).1, Option.some.injEq,
          Prod.mk.injEq] at h
        rw [List.cons_append, fractionPart.eq_2 _ fun _ heq => hpoint (List.cons.inj heq).1, ← h.1,
          ← h.2, List.cons_append]

/-- The digits of an exponent, after its sign. -/
def exponentDigits (negative : Bool) (cs : List Char) : Option (Option Int × List Char) :=
  let (found, after) := digits cs
  if found.isEmpty then none
  else
    let n : Nat := found.foldl (fun n d => n * 10 + d) 0
    some (some (if negative then -(n : Int) else n), after)

theorem exponentDigits_append (negative : Bool) (cs rest after : List Char) (found : Option Int)
    (hstops : Stops rest) (h : exponentDigits negative cs = some (found, after)) :
    exponentDigits negative (cs ++ rest) = some (found, after ++ rest) := by
  rw [exponentDigits] at h
  rw [exponentDigits, digits_append _ _ hstops]
  simp only at h ⊢
  split at h
  · exact absurd h (by simp only [reduceCtorEq, not_false_eq_true])
  · rename_i hsome
    rw [Option.some.injEq, Prod.mk.injEq] at h
    rw [if_neg hsome, h.1, h.2]

/-- A sign or none, and then digits. -/
theorem exponentPart_mark (e : Char) (cs : List Char)
    (he : (decide (e = 'e') || decide (e = 'E')) = true) :
    exponentPart (e :: cs) =
      match cs with
      | '+' :: tail => exponentDigits false tail
      | '-' :: tail => exponentDigits true tail
      | _ => exponentDigits false cs := by
  split
  · rw [exponentPart.eq_1, if_pos he]
    rfl
  · rw [exponentPart.eq_2, if_pos he]
    rfl
  · rename_i hplus hminus
    rw [exponentPart.eq_3 _ _ hplus hminus, if_pos he]
    rfl

theorem exponentPart_plain (cs : List Char)
    (h : ∀ c, cs.head? = some c → ¬ (decide (c = 'e') || decide (c = 'E')) = true) :
    exponentPart cs = some (none, cs) := by
  cases cs with
  | nil => exact exponentPart.eq_4
  | cons c tail =>
      rw [exponentPart.eq_def]
      exact if_neg (h c rfl)

theorem exponentPart_append (cs rest after : List Char) (found : Option Int) (hstops : Stops rest)
    (h : exponentPart cs = some (found, after)) :
    exponentPart (cs ++ rest) = some (found, after ++ rest) := by
  -- What follows the number does not begin with a mark of an exponent.
  have hmark : ∀ c, rest.head? = some c → ¬ (decide (c = 'e') || decide (c = 'E')) = true := by
    intro c hc
    simp only [(hstops c hc).2.2.1, (hstops c hc).2.2.2, decide_false, Bool.or_self,
      Bool.false_eq_true, not_false_eq_true]
  cases cs with
  | nil =>
      rw [exponentPart.eq_4, Option.some.injEq, Prod.mk.injEq] at h
      rw [← h.1, ← h.2]
      exact exponentPart_plain rest hmark
  | cons e tail =>
      -- A mark may be followed by a sign, and is followed by a digit.
      by_cases he : (decide (e = 'e') || decide (e = 'E')) = true
      · rw [exponentPart_mark e tail he] at h
        rw [List.cons_append, exponentPart_mark e _ he]
        cases tail with
        | nil => exact absurd h (by simp only [exponentDigits, digits, List.takeWhile_nil,
            List.map_nil, List.isEmpty_nil, if_true, reduceCtorEq, not_false_eq_true])
        | cons c tail =>
            rw [List.cons_append]
            split at h
            · rename_i heq
              rw [(List.cons.inj heq).1, (List.cons.inj heq).2]
              exact exponentDigits_append false _ rest after found hstops h
            · rename_i heq
              rw [(List.cons.inj heq).1, (List.cons.inj heq).2]
              exact exponentDigits_append true _ rest after found hstops h
            · rename_i hplus hminus
              split
              · rename_i heq
                exact absurd (congrArg (· :: tail) (List.cons.inj heq).1) (hplus tail)
              · rename_i heq
                exact absurd (congrArg (· :: tail) (List.cons.inj heq).1) (hminus tail)
              · rw [← List.cons_append]
                exact exponentDigits_append false _ rest after found hstops h
      -- Without a mark there is no exponent.
      · have hplain : ∀ t c, (e :: t).head? = some c →
            ¬ (decide (c = 'e') || decide (c = 'E')) = true := by
          intro t c hc
          rw [← Option.some.inj hc]
          exact he
        rw [exponentPart_plain _ (hplain tail), Option.some.injEq, Prod.mk.injEq] at h
        rw [List.cons_append, exponentPart_plain _ (hplain (tail ++ rest)), ← h.1, ← h.2,
          List.cons_append]

/-- A literal after its sign. -/
def unsigned (negative : Bool) (cs : List Char) : Option (Literal × List Char) := do
  let (whole, cs) ← wholePart cs
  let (fraction, cs) ← fractionPart cs
  let (exponent, cs) ← exponentPart cs
  return (⟨negative, whole, fraction, exponent⟩, cs)

theorem literal_minus (cs : List Char) : literal ('-' :: cs) = unsigned true cs :=
  literal.eq_1 cs

theorem literal_plain (cs : List Char) (h : ∀ tail, cs ≠ '-' :: tail) :
    literal cs = unsigned false cs := by
  rw [literal]
  · rfl
  · exact fun tail heq => h tail heq

theorem unsigned_append (negative : Bool) (cs rest after : List Char) (found : Literal)
    (hstops : Stops rest) (h : unsigned negative cs = some (found, after)) :
    unsigned negative (cs ++ rest) = some (found, after ++ rest) := by
  rw [unsigned] at h
  simp only [Option.bind_eq_bind, Option.bind_eq_some_iff, Prod.exists, Option.pure_def,
    Option.some.injEq, Prod.mk.injEq] at h
  -- The parts are read one after another, and none of them reads on into the rest.
  rcases h with ⟨whole, cs₁, hwhole, fraction, cs₂, hfraction, exponent, cs₃, hexponent, hfound,
    hafter⟩
  rw [unsigned, wholePart_append _ _ _ _ hstops hwhole]
  simp only [Option.bind_eq_bind, Option.bind_some]
  rw [fractionPart_append _ _ _ _ hstops hfraction]
  simp only [Option.bind_some]
  rw [exponentPart_append _ _ _ _ hstops hexponent, ← hfound, ← hafter]
  rfl

/-- A literal ends where it should. -/
theorem literal_append (cs rest after : List Char) (found : Literal) (hstops : Stops rest)
    (h : literal cs = some (found, after)) :
    literal (cs ++ rest) = some (found, after ++ rest) := by
  by_cases hminus : ∃ tail, cs = '-' :: tail
  · rcases hminus with ⟨tail, rfl⟩
    rw [literal_minus] at h
    rw [List.cons_append, literal_minus]
    exact unsigned_append true tail rest after found hstops h
  · rw [literal_plain cs fun tail heq => hminus ⟨tail, heq⟩] at h
    have hplain : ∀ tail, cs ++ rest ≠ '-' :: tail := by
      intro tail heq
      -- What is added makes no sign of it, because a number was there before.
      cases cs with
      | nil =>
          rw [unsigned, wholePart_nil] at h
          exact absurd h nofun
      | cons c other => exact hminus ⟨other, by rw [(List.cons.inj heq).1]⟩
    rw [literal_plain _ hplain]
    exact unsigned_append false cs rest after found hstops h

/-- What a literal begins with. -/
def opensLiteral (c : Char) : Bool := c = '-' || c.isDigit

theorem ne_of_opensLiteral (c other : Char) (h : opensLiteral c = true)
    (hother : opensLiteral other = false) : c ≠ other := by
  intro heq
  rw [heq, hother] at h
  exact absurd h Bool.false_ne_true

theorem isSpace_of_opensLiteral (c : Char) (h : opensLiteral c = true) : isSpace c = false := by
  have hne := ne_of_opensLiteral c
  simp only [isSpace, hne ' ' h (by decide), hne '\n' h (by decide), hne '\t' h (by decide),
    hne '\r' h (by decide), decide_false, Bool.or_self]

/-- A literal begins with a sign or a digit. -/
theorem head_of_literal (cs after : List Char) (found : Literal)
    (h : literal cs = some (found, after)) :
    ∃ c tail, cs = c :: tail ∧ opensLiteral c = true := by
  by_cases hminus : ∃ tail, cs = '-' :: tail
  · rcases hminus with ⟨tail, rfl⟩
    exact ⟨'-', tail, rfl, by decide⟩
  rw [literal_plain cs fun tail heq => hminus ⟨tail, heq⟩] at h
  rcases Option.bind_eq_some_iff.mp h with ⟨⟨whole, cs₁⟩, hwhole, -⟩
  cases cs with
  | nil =>
      rw [wholePart_nil] at hwhole
      exact absurd hwhole nofun
  | cons c tail =>
      refine ⟨c, tail, rfl, ?_⟩
      rw [opensLiteral, Bool.or_eq_true]
      refine Or.inr ?_
      -- The number begins with a zero, or with another digit.
      by_cases hzero : c = '0'
      · rw [hzero]
        decide
      · rw [wholePart.eq_2 _ fun t heq => hzero (List.cons.inj heq).1, digits,
          List.takeWhile_cons] at hwhole
        cases hc : c.isDigit with
        | true => rfl
        | false =>
            rw [hc] at hwhole
            exact absurd hwhole nofun

end Document

namespace Number

/-- The literal that the text of a number begins with. -/
def literal (n : Number) : Literal :=
  match Document.literal n.chars with
  | some (found, _) => found
  | none => ⟨false, [], [], none⟩

/-- The text of a number is a literal. -/
def IsLiteral (n : Number) : Prop := Document.literal n.chars = some (n.literal, [])

end Number

namespace Json

mutual

/-- The numbers in a value. -/
def numbers : Json → List Number
  | .number n => [n]
  | .array items => numbersOfItems items
  | .object members => numbersOfMembers members
  | _ => []

/-- The numbers in the items of an array. -/
def numbersOfItems : List Json → List Number
  | [] => []
  | item :: rest => numbers item ++ numbersOfItems rest

/-- The numbers in the members of an object. -/
def numbersOfMembers : List (String × Json) → List Number
  | [] => []
  | (_, value) :: rest => numbers value ++ numbersOfMembers rest

end

mutual

/-- The document that is meant by the text of a value. -/
def document : Json → Document
  | .null => .null
  | .bool b => .bool b
  | .number n => .number n.literal
  | .string s => .string (some s)
  | .array items => .array (documentsOfItems items)
  | .object members => .object (documentsOfMembers members)

/-- The documents of the items of an array. -/
def documentsOfItems : List Json → List Document
  | [] => []
  | item :: rest => document item :: documentsOfItems rest

/-- The documents of the members of an object. -/
def documentsOfMembers : List (String × Json) → List (Option String × Document)
  | [] => []
  | (key, value) :: rest => (some key, document value) :: documentsOfMembers rest

end

/-- Nothing but characters between tokens. -/
def Blank (cs : List Char) : Prop := ∀ c ∈ cs, Document.isSpace c = true

mutual

/-- A list of characters spells a value. -/
def Spells : Json → List Char → Prop
  | .null, cs => cs = "null".toList
  | .bool b, cs => cs = if b then "true".toList else "false".toList
  | .number n, cs => cs = n.chars
  | .string s, cs => cs = quote s.toList
  | .array items, cs => ∃ inner, cs = '[' :: (inner ++ [']']) ∧ SpellsItems items inner
  | .object members, cs =>
      ∃ inner, cs = '\x7b' :: (inner ++ ['\x7d']) ∧ SpellsMembers members inner

/-- A list of characters spells the items of an array. -/
def SpellsItems : List Json → List Char → Prop
  | [], inner => Blank inner
  | [item], inner => ∃ before cs after, inner = before ++ (cs ++ after) ∧ Blank before ∧
      Spells item cs ∧ Blank after
  | item :: next :: rest, inner => ∃ before cs after more,
      inner = before ++ (cs ++ (after ++ ',' :: more)) ∧ Blank before ∧ Spells item cs ∧
        Blank after ∧ SpellsItems (next :: rest) more

/-- A list of characters spells the members of an object. -/
def SpellsMembers : List (String × Json) → List Char → Prop
  | [], inner => Blank inner
  | [(key, value)], inner => ∃ before gap cs after,
      inner = before ++ (quote key.toList ++ ':' :: (gap ++ (cs ++ after))) ∧ Blank before ∧
        Blank gap ∧ Spells value cs ∧ Blank after
  | (key, value) :: next :: rest, inner => ∃ before gap cs after more,
      inner = before ++ (quote key.toList ++ ':' :: (gap ++ (cs ++ (after ++ ',' :: more)))) ∧
        Blank before ∧ Blank gap ∧ Spells value cs ∧ Blank after ∧
          SpellsMembers (next :: rest) more

end

/-- What a value begins with, wherever it is spelled. -/
theorem head_of_spells (v : Json) (cs : List Char) (hliteral : ∀ n ∈ v.numbers, n.IsLiteral)
    (h : v.Spells cs) : ∃ c tail, cs = c :: tail ∧ Document.isSpace c = false ∧ c ≠ ']' := by
  cases v with
  | null => exact ⟨'n', _, h, by decide, by decide⟩
  | bool b =>
      cases b with
      | true => exact ⟨'t', _, h, by decide, by decide⟩
      | false => exact ⟨'f', _, h, by decide, by decide⟩
  | number n =>
      rcases Document.head_of_literal _ _ _ (hliteral n List.mem_cons_self) with
        ⟨c, tail, hcs, hc⟩
      exact ⟨c, tail, h.trans hcs, Document.isSpace_of_opensLiteral c hc,
        Document.ne_of_opensLiteral c ']' hc (by decide)⟩
  | string s => exact ⟨'"', _, h, by decide, by decide⟩
  | array items =>
      rcases h with ⟨inner, hcs, -⟩
      exact ⟨'[', _, hcs, by decide, by decide⟩
  | object members =>
      rcases h with ⟨inner, hcs, -⟩
      exact ⟨'\x7b', _, hcs, by decide, by decide⟩

end Json

namespace Document

open Json (Blank)

theorem dropWhile_blank (before cs : List Char) (h : Blank before) :
    (before ++ cs).dropWhile isSpace = cs.dropWhile isSpace :=
  List.dropWhile_append_of_pos h

theorem dropWhile_solid (c : Char) (tail : List Char) (h : isSpace c = false) :
    (c :: tail).dropWhile isSpace = c :: tail :=
  List.dropWhile_cons_of_neg (Bool.eq_false_iff.mp h)

/-- Blanks before a value are skipped. -/
theorem value_blank (fuel : Nat) (before cs : List Char) (h : Blank before) :
    value fuel (before ++ cs) = value fuel cs := by
  cases fuel with
  | zero => rfl
  | succ fuel => rw [value, value, dropWhile_blank before cs h]

theorem value_null (fuel : Nat) (rest : List Char) :
    value (fuel + 1) ("null".toList ++ rest) = some (.null, rest) := rfl

theorem value_bool (fuel : Nat) (b : Bool) (rest : List Char) :
    value (fuel + 1) ((if b then "true".toList else "false".toList) ++ rest) =
      some (.bool b, rest) := by
  cases b with
  | true => rfl
  | false => rfl

theorem value_quote (fuel : Nat) (s : String) (rest : List Char) :
    value (fuel + 1) (Json.quote s.toList ++ rest) = some (.string (some s), rest) := by
  have hquoted := quoted_quote s rest
  rw [Json.quote, List.cons_append, List.append_assoc, List.singleton_append, value,
    dropWhile_solid _ _ (by decide)]
  simp only [hquoted]
  rfl

theorem value_literal (fuel : Nat) (cs after : List Char) (found : Literal)
    (h : literal cs = some (found, after)) :
    value (fuel + 1) cs = some (.number found, after) := by
  rcases head_of_literal cs after found h with ⟨c, tail, hcs, hc⟩
  have hne := ne_of_opensLiteral c
  rw [value, hcs, dropWhile_solid c tail (isSpace_of_opensLiteral c hc)]
  split
  case h_7 => rw [← hcs, h]; rfl
  all_goals
    rename_i heq
    have hhead := (List.cons.inj heq).1
    exact absurd hhead (hne _ hc (by decide))

theorem value_empty_array (fuel : Nat) (blank rest : List Char) (h : Blank blank) :
    value (fuel + 1) ('[' :: (blank ++ ']' :: rest)) = some (.array [], rest) := by
  rw [value, dropWhile_solid _ _ (by decide)]
  simp only [dropWhile_blank blank _ h, dropWhile_solid ']' rest (by decide)]

theorem value_array (fuel : Nat) (c : Char) (cs tail after : List Char) (found : List Document)
    (hopens : cs.dropWhile isSpace = c :: tail) (hc : c ≠ ']')
    (h : items fuel cs = some (found, after)) :
    value (fuel + 1) ('[' :: cs) = some (.array found, after) := by
  rw [value, dropWhile_solid _ _ (by decide)]
  simp only [hopens, h]
  split
  · rename_i heq
    exact absurd (List.cons.inj heq).1 hc
  · rfl

theorem value_empty_object (fuel : Nat) (blank rest : List Char) (h : Blank blank) :
    value (fuel + 1) ('\x7b' :: (blank ++ '\x7d' :: rest)) = some (.object [], rest) := by
  rw [value, dropWhile_solid _ _ (by decide)]
  simp only [dropWhile_blank blank _ h, dropWhile_solid '\x7d' rest (by decide)]

theorem value_object (fuel : Nat) (c : Char) (cs tail after : List Char)
    (found : List (Option String × Document)) (hopens : cs.dropWhile isSpace = c :: tail)
    (hc : c ≠ '\x7d') (h : members fuel cs = some (found, after)) :
    value (fuel + 1) ('\x7b' :: cs) = some (.object found, after) := by
  rw [value, dropWhile_solid _ _ (by decide)]
  simp only [hopens, h]
  split
  · rename_i heq
    exact absurd (List.cons.inj heq).1 hc
  · rfl

theorem items_last (fuel : Nat) (cs after rest : List Char) (found : Document)
    (hvalue : value fuel cs = some (found, after))
    (hclose : after.dropWhile isSpace = ']' :: rest) :
    items (fuel + 1) cs = some ([found], rest) := by
  rw [items, hvalue]
  simp only [Option.bind_eq_bind, Option.bind_some, hclose, Option.pure_def]

theorem items_next (fuel : Nat) (cs after more rest : List Char) (found : Document)
    (others : List Document) (hvalue : value fuel cs = some (found, after))
    (hcomma : after.dropWhile isSpace = ',' :: more)
    (hmore : items fuel more = some (others, rest)) :
    items (fuel + 1) cs = some (found :: others, rest) := by
  rw [items, hvalue]
  simp only [Option.bind_eq_bind, Option.bind_some, hcomma, hmore, Option.pure_def]

theorem members_last (fuel : Nat) (before cs after rest : List Char) (key : String)
    (found : Document) (hbefore : Blank before) (hvalue : value fuel cs = some (found, after))
    (hclose : after.dropWhile isSpace = '\x7d' :: rest) :
    members (fuel + 1) (before ++ (Json.quote key.toList ++ ':' :: cs)) =
      some ([(some key, found)], rest) := by
  have hquoted := quoted_quote key (':' :: cs)
  rw [members, dropWhile_blank before _ hbefore, Json.quote, List.cons_append, List.append_assoc,
    List.singleton_append, dropWhile_solid _ _ (by decide)]
  simp only [hquoted, Option.bind_eq_bind, Option.bind_some, dropWhile_solid ':' cs (by decide),
    hvalue, hclose, Option.pure_def]

theorem members_next (fuel : Nat) (before cs after more rest : List Char) (key : String)
    (found : Document) (others : List (Option String × Document)) (hbefore : Blank before)
    (hvalue : value fuel cs = some (found, after)) (hcomma : after.dropWhile isSpace = ',' :: more)
    (hmore : members fuel more = some (others, rest)) :
    members (fuel + 1) (before ++ (Json.quote key.toList ++ ':' :: cs)) =
      some ((some key, found) :: others, rest) := by
  have hquoted := quoted_quote key (':' :: cs)
  rw [members, dropWhile_blank before _ hbefore, Json.quote, List.cons_append, List.append_assoc,
    List.singleton_append, dropWhile_solid _ _ (by decide)]
  simp only [hquoted, Option.bind_eq_bind, Option.bind_some, dropWhile_solid ':' cs (by decide),
    hvalue, hcomma, hmore, Option.pure_def]

theorem stops_cons (c : Char) (tail : List Char)
    (h : c.isDigit = false ∧ c ≠ '.' ∧ c ≠ 'e' ∧ c ≠ 'E') : Stops (c :: tail) := by
  intro other hother
  rw [← Option.some.inj hother]
  exact h

/-- No blank is a part of a literal. -/
theorem stops_blank (after rest : List Char) (h : Blank after) (hrest : Stops rest) :
    Stops (after ++ rest) := by
  cases after with
  | nil => exact hrest
  | cons c tail =>
      have hc := h c List.mem_cons_self
      simp only [isSpace, Bool.or_eq_true, decide_eq_true_eq] at hc
      apply stops_cons
      rcases hc with ((rfl | rfl) | rfl) | rfl
      all_goals decide

theorem opens_of_spellsItems (item : Json) (others : List Json) (inner rest : List Char)
    (hliteral : ∀ n ∈ Json.numbersOfItems (item :: others), n.IsLiteral)
    (h : Json.SpellsItems (item :: others) inner) :
    ∃ c tail, (inner ++ rest).dropWhile isSpace = c :: tail ∧ c ≠ ']' := by
  -- The first item comes after nothing but blanks.
  have hinner : ∃ before cs more, inner = before ++ (cs ++ more) ∧ Blank before ∧
      item.Spells cs := by
    cases others with
    | nil =>
        rcases h with ⟨before, cs, after, heq, hbefore, hitem, -⟩
        exact ⟨before, cs, after, heq, hbefore, hitem⟩
    | cons next others =>
        rcases h with ⟨before, cs, after, more, heq, hbefore, hitem, -, -⟩
        exact ⟨before, cs, _, heq, hbefore, hitem⟩
  rcases hinner with ⟨before, cs, more, rfl, hbefore, hitem⟩
  rcases item.head_of_spells cs (fun n hn => hliteral n (List.mem_append_left _ hn)) hitem with
    ⟨c, tail, rfl, hspace, hc⟩
  refine ⟨c, tail ++ more ++ rest, ?_, hc⟩
  rw [List.append_assoc, dropWhile_blank before _ hbefore, List.cons_append, List.cons_append,
    dropWhile_solid c _ hspace]

theorem opens_of_spellsMembers (member : String × Json) (others : List (String × Json))
    (inner rest : List Char) (h : Json.SpellsMembers (member :: others) inner) :
    ∃ tail, (inner ++ rest).dropWhile isSpace = '"' :: tail := by
  -- The first member comes after nothing but blanks.
  have hinner : ∃ before more, inner = before ++ '"' :: more ∧ Blank before := by
    cases others with
    | nil =>
        rcases h with ⟨before, gap, cs, after, heq, hbefore, -⟩
        exact ⟨before, _, heq, hbefore⟩
    | cons next others =>
        rcases h with ⟨before, gap, cs, after, more, heq, hbefore, -⟩
        exact ⟨before, _, heq, hbefore⟩
  rcases hinner with ⟨before, more, rfl, hbefore⟩
  refine ⟨more ++ rest, ?_⟩
  rw [List.append_assoc, dropWhile_blank before _ hbefore, List.cons_append,
    dropWhile_solid '"' _ (by decide)]

mutual

/-- A value that is spelled is read, whatever follows that does not make its
    last number longer. Each of its characters needs two steps at most. -/
theorem value_of_spells (v : Json) (cs rest : List Char) (fuel : Nat)
    (hliteral : ∀ n ∈ v.numbers, n.IsLiteral) (hstops : Stops rest) (h : v.Spells cs)
    (hfuel : 2 * cs.length ≤ fuel) : value fuel (cs ++ rest) = some (v.document, rest) := by
  have hopens := v.head_of_spells cs hliteral h
  -- No value is spelled by nothing, so there is fuel for its first character.
  have hpos : fuel = fuel - 1 + 1 := by
    rcases hopens with ⟨c, tail, rfl, -⟩
    rw [List.length_cons] at hfuel
    omega
  rw [hpos]
  cases v with
  | null =>
      rw [h]
      exact value_null _ rest
  | bool b =>
      rw [h]
      exact value_bool _ b rest
  | number n =>
      have hn : Document.literal n.chars = some (n.literal, []) := hliteral n List.mem_cons_self
      rw [h]
      exact value_literal _ _ _ _ (literal_append _ rest [] n.literal hstops hn)
  | string s =>
      rw [h]
      exact value_quote _ s rest
  | array items =>
      rcases h with ⟨inner, rfl, hinner⟩
      rw [List.cons_append, List.append_assoc, List.singleton_append]
      simp only [List.length_cons, List.length_append, List.length_nil] at hfuel
      cases items with
      | nil => exact value_empty_array _ inner rest hinner
      | cons item others =>
          rcases opens_of_spellsItems item others inner (']' :: rest) hliteral hinner with
            ⟨c, tail, hdrop, hc⟩
          exact value_array _ c _ tail rest _ hdrop hc
            (items_of_spells item others inner rest _ hliteral hinner (by omega))
  | object members =>
      rcases h with ⟨inner, rfl, hinner⟩
      rw [List.cons_append, List.append_assoc, List.singleton_append]
      simp only [List.length_cons, List.length_append, List.length_nil] at hfuel
      cases members with
      | nil => exact value_empty_object _ inner rest hinner
      | cons member others =>
          rcases opens_of_spellsMembers member others inner ('\x7d' :: rest) hinner with
            ⟨tail, hdrop⟩
          exact value_object _ '"' _ tail rest _ hdrop (by decide)
            (members_of_spells member others inner rest _ hliteral hinner (by omega))
termination_by sizeOf v

/-- The items of an array that are spelled are read up to the bracket. -/
theorem items_of_spells (item : Json) (others : List Json) (inner rest : List Char) (fuel : Nat)
    (hliteral : ∀ n ∈ Json.numbersOfItems (item :: others), n.IsLiteral)
    (h : Json.SpellsItems (item :: others) inner) (hfuel : 2 * inner.length + 1 ≤ fuel) :
    items fuel (inner ++ ']' :: rest) =
      some (Json.documentsOfItems (item :: others), rest) := by
  have hitem : ∀ n ∈ item.numbers, n.IsLiteral :=
    fun n hn => hliteral n (List.mem_append_left _ hn)
  have hothers : ∀ n ∈ Json.numbersOfItems others, n.IsLiteral :=
    fun n hn => hliteral n (List.mem_append_right _ hn)
  have hpos : fuel = fuel - 1 + 1 := by omega
  rw [hpos]
  match others, h with
  | [], h =>
      rcases h with ⟨before, cs, after, rfl, hbefore, hcs, hafter⟩
      simp only [List.length_append] at hfuel
      -- What follows the item can not make a number in it longer.
      have hstops : Stops (after ++ ']' :: rest) :=
        stops_blank after _ hafter (stops_cons ']' rest (by decide))
      have hvalue := value_of_spells item cs (after ++ ']' :: rest) (fuel - 1) hitem hstops hcs
        (by omega)
      rw [← value_blank _ _ _ hbefore] at hvalue
      simp only [List.append_assoc]
      exact items_last _ _ _ rest _ hvalue
        ((dropWhile_blank after _ hafter).trans (dropWhile_solid ']' rest (by decide)))
  | next :: others, h =>
      rcases h with ⟨before, cs, after, more, rfl, hbefore, hcs, hafter, hmore⟩
      simp only [List.length_append, List.length_cons] at hfuel
      have hstops : Stops (after ++ ',' :: (more ++ ']' :: rest)) :=
        stops_blank after _ hafter (stops_cons ',' _ (by decide))
      have hvalue := value_of_spells item cs (after ++ ',' :: (more ++ ']' :: rest)) (fuel - 1)
        hitem hstops hcs (by omega)
      have hrest := items_of_spells next others more rest (fuel - 1) hothers hmore (by omega)
      rw [← value_blank _ _ _ hbefore] at hvalue
      simp only [List.append_assoc, List.cons_append]
      exact items_next _ _ _ _ rest _ _ hvalue
        ((dropWhile_blank after _ hafter).trans (dropWhile_solid ',' _ (by decide))) hrest
termination_by sizeOf (item :: others)

/-- The members of an object that are spelled are read up to the brace. -/
theorem members_of_spells (member : String × Json) (others : List (String × Json))
    (inner rest : List Char) (fuel : Nat)
    (hliteral : ∀ n ∈ Json.numbersOfMembers (member :: others), n.IsLiteral)
    (h : Json.SpellsMembers (member :: others) inner) (hfuel : 2 * inner.length + 1 ≤ fuel) :
    members fuel (inner ++ '\x7d' :: rest) =
      some (Json.documentsOfMembers (member :: others), rest) := by
  match member with
  | (key, item) =>
  have hitem : ∀ n ∈ item.numbers, n.IsLiteral :=
    fun n hn => hliteral n (List.mem_append_left _ hn)
  have hothers : ∀ n ∈ Json.numbersOfMembers others, n.IsLiteral :=
    fun n hn => hliteral n (List.mem_append_right _ hn)
  have hpos : fuel = fuel - 1 + 1 := by omega
  rw [hpos]
  match others, h with
  | [], h =>
      rcases h with ⟨before, gap, cs, after, rfl, hbefore, hgap, hcs, hafter⟩
      simp only [List.length_append, List.length_cons] at hfuel
      have hstops : Stops (after ++ '\x7d' :: rest) :=
        stops_blank after _ hafter (stops_cons '\x7d' rest (by decide))
      have hvalue := value_of_spells item cs (after ++ '\x7d' :: rest) (fuel - 1) hitem hstops hcs
        (by omega)
      rw [← value_blank _ _ _ hgap] at hvalue
      simp only [List.append_assoc, List.cons_append]
      exact members_last _ before _ _ rest key _ hbefore hvalue
        ((dropWhile_blank after _ hafter).trans (dropWhile_solid '\x7d' rest (by decide)))
  | next :: others, h =>
      rcases h with ⟨before, gap, cs, after, more, rfl, hbefore, hgap, hcs, hafter, hmore⟩
      -- A comma follows, and then the other members, with less fuel.
      simp only [List.length_append, List.length_cons] at hfuel
      have hstops : Stops (after ++ ',' :: (more ++ '\x7d' :: rest)) :=
        stops_blank after _ hafter (stops_cons ',' _ (by decide))
      have hvalue := value_of_spells item cs (after ++ ',' :: (more ++ '\x7d' :: rest)) (fuel - 1)
        hitem hstops hcs (by omega)
      have hrest := members_of_spells next others more rest (fuel - 1) hothers hmore (by omega)
      rw [← value_blank _ _ _ hgap] at hvalue
      simp only [List.append_assoc, List.cons_append]
      exact members_next _ before _ _ _ rest key _ _ hbefore hvalue
        ((dropWhile_blank after _ hafter).trans (dropWhile_solid ',' _ (by decide))) hrest
termination_by sizeOf (member :: others)

end

/-- A text that spells a value is read as the document that is meant. -/
theorem readChars?_of_spells (v : Json) (cs : List Char)
    (hliteral : ∀ n ∈ v.numbers, n.IsLiteral) (h : v.Spells cs) :
    readChars? cs = some v.document := by
  have hstops : Stops [] := nofun
  have hvalue := value_of_spells v cs [] (2 * cs.length + 2) hliteral hstops h (by omega)
  rw [List.append_nil] at hvalue
  rw [readChars?, hvalue]
  rfl

end Document

namespace Json

theorem blank_nil : Blank [] := nofun

theorem blank_space : Blank [' '] := by
  intro c hc
  rw [List.mem_singleton.mp hc]
  decide

theorem blank_lineBreak (level : Nat) : Blank (lineBreak level) := by
  intro c hc
  rcases List.mem_cons.mp hc with rfl | hspace
  · decide
  · rw [(List.mem_replicate.mp hspace).2]
    decide

mutual

/-- The text without blanks spells the value. -/
theorem spells_compact (v : Json) : v.Spells v.compactChars := by
  cases v with
  | null => rfl
  | bool b => rfl
  | number n => rfl
  | string s => rfl
  | array items => exact ⟨compactItems items, rfl, spellsItems_compact items⟩
  | object members => exact ⟨compactMembers members, rfl, spellsMembers_compact members⟩
termination_by sizeOf v

theorem spellsItems_compact (items : List Json) : SpellsItems items (compactItems items) := by
  match items with
  | [] => exact blank_nil
  | [item] =>
      exact ⟨[], compactChars item, [], (List.append_nil _).symm, blank_nil, spells_compact item,
        blank_nil⟩
  | item :: next :: rest =>
      exact ⟨[], compactChars item, [], compactItems (next :: rest), rfl, blank_nil,
        spells_compact item, blank_nil, spellsItems_compact (next :: rest)⟩
termination_by sizeOf items

theorem spellsMembers_compact (members : List (String × Json)) :
    SpellsMembers members (compactMembers members) := by
  match members with
  | [] => exact blank_nil
  | [(key, value)] =>
      exact ⟨[], [], compactChars value, [], by rw [List.append_nil]; rfl, blank_nil, blank_nil,
        spells_compact value, blank_nil⟩
  | (key, value) :: next :: rest =>
      exact ⟨[], [], compactChars value, [], compactMembers (next :: rest), rfl, blank_nil,
        blank_nil, spells_compact value, blank_nil, spellsMembers_compact (next :: rest)⟩
termination_by sizeOf members

end

mutual

/-- The text over lines spells the value. -/
theorem spells_pretty (level : Nat) (v : Json) : v.Spells (v.prettyChars level) := by
  match v with
  | .null => rfl
  | .bool b => rfl
  | .number n => rfl
  | .string s => rfl
  | .array [] => exact ⟨[], rfl, blank_nil⟩
  | .array (item :: rest) =>
      refine ⟨lineBreak (level + 1) ++ prettyItems (level + 1) (item :: rest) ++ lineBreak level,
        rfl, ?_⟩
      exact spellsItems_pretty (level + 1) item rest _ _ (blank_lineBreak _) (blank_lineBreak _)
  | .object [] => exact ⟨[], rfl, blank_nil⟩
  | .object (member :: rest) =>
      refine ⟨lineBreak (level + 1) ++ prettyMembers (level + 1) (member :: rest) ++
        lineBreak level, rfl, ?_⟩
      exact spellsMembers_pretty (level + 1) member rest _ _ (blank_lineBreak _)
        (blank_lineBreak _)
termination_by sizeOf v

theorem spellsItems_pretty (level : Nat) (item : Json) (rest : List Json)
    (before after : List Char) (hbefore : Blank before) (hafter : Blank after) :
    SpellsItems (item :: rest) (before ++ prettyItems level (item :: rest) ++ after) := by
  match rest with
  | [] =>
      exact ⟨before, prettyChars level item, after, List.append_assoc .., hbefore,
        spells_pretty level item, hafter⟩
  | next :: rest =>
      have hrest := spellsItems_pretty level next rest _ after (blank_lineBreak level) hafter
      refine ⟨before, prettyChars level item, [], _, ?_, hbefore, spells_pretty level item,
        blank_nil, hrest⟩
      simp only [prettyItems, List.append_assoc, List.cons_append, List.nil_append]
termination_by sizeOf (item :: rest)

theorem spellsMembers_pretty (level : Nat) (member : String × Json)
    (rest : List (String × Json)) (before after : List Char) (hbefore : Blank before)
    (hafter : Blank after) :
    SpellsMembers (member :: rest) (before ++ prettyMembers level (member :: rest) ++ after) := by
  match member, rest with
  | (key, value), [] =>
      refine ⟨before, [' '], prettyChars level value, after, ?_, hbefore, blank_space,
        spells_pretty level value, hafter⟩
      simp only [prettyMembers, List.append_assoc, List.cons_append, List.nil_append]
  | (key, value), next :: rest =>
      have hrest := spellsMembers_pretty level next rest _ after (blank_lineBreak level) hafter
      refine ⟨before, [' '], prettyChars level value, [], _, ?_, hbefore, blank_space,
        spells_pretty level value, blank_nil, hrest⟩
      simp only [prettyMembers, List.append_assoc, List.cons_append, List.nil_append]
termination_by sizeOf (member :: rest)

end

/-- What is written without blanks is read again. -/
theorem read?_compact (v : Json) (hliteral : ∀ n ∈ v.numbers, n.IsLiteral) :
    Document.read? v.compact = some v.document := by
  rw [compact, Document.read?, String.toList_ofList]
  exact Document.readChars?_of_spells v _ hliteral v.spells_compact

/-- What is written over lines is read again. -/
theorem read?_pretty (v : Json) (hliteral : ∀ n ∈ v.numbers, n.IsLiteral) :
    Document.read? v.pretty = some v.document := by
  rw [pretty, Document.read?, String.toList_ofList]
  exact Document.readChars?_of_spells v _ hliteral (v.spells_pretty 0)

end Json

end Workflow
