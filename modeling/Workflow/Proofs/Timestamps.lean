import Mathlib.Algebra.GroupWithZero.Nat
import Mathlib.Data.List.Forall2
import Workflow.Proofs.Storing

/-!
# The Order of Timestamps

A store on disk has the times of its graphs as texts, and it lists its graphs in
the order of these texts. A text comes before another one when the instant does,
so listing by texts is listing by instants (`listTexts_eq`).

The texts compare character by character. Year, month, day, hour, minute and
second are numerals of fixed widths, so the first of them that differs decides
(`written_lt`), and it decides in the same way as for the numbers
(`fixed_lt`). That the date of a later day is a later date is said of the year
that begins in March and of the day in it first (`march_lt`), and then of the
date that they make (`before_ofMarch`). The fraction of a second has a length
that varies, but it is written in groups of three digits, and what follows the
last one is a plus sign, which comes before every digit (`grouped_lt`).

All this holds for the years that have four digits, so it is asked of the clock
that it shows no other year (`Instant.Dated`).

## Main definitions

* `Date.Before`: The order of the calendar.
* `Date.march`, `Date.ofMarch`: A day, by the year that begins in March.
* `Instant.fixed`: A numeral of a fixed width.
* `Instant.written`: Numerals of fixed widths, each with what follows it.
* `Instant.grouped`: A fraction in groups of three digits.
* `Instant.Dated`: The year of an instant has four digits.
* `Summary.textBefore`, `Table.listTexts`: Listing by texts.
* `Table.Dated`: All times in a table have years of four digits.

## Theorems

* `dayOfYear_bounds`, `yearOfEra_mono`: Years of an era, and days in a year.
* `march_lt`, `before_ofMarch`, `before_ofDays`: A later day has a later date.
* `fixed_lt`, `fixed_append_lt`, `padded_eq_fixed`, `fixed_add`: Numerals of fixed
  widths.
* `written_lt`: The first number that differs decides.
* `parts_lt`: A later second has later numbers.
* `grouped_lt`: The order of fractions.
* `offsetText_lt_iff`: The text of an earlier instant comes first.
* `listTexts_eq`: Listing by texts is listing by instants.
* `dated_perform`, `listed_by_texts`: A store whose clock shows years of four
  digits.
-/

namespace Workflow

namespace Date

/-- The order of the calendar. -/
def Before (a b : Date) : Prop :=
  a.year < b.year ∨
    a.year = b.year ∧ (a.month < b.month ∨ a.month = b.month ∧ a.day < b.day)

/-- The year of an era that a day is in, counted from zero. Both begin in
    March. -/
def yearOfEra (day : Int) : Int :=
  (day - day / 1460 + day / 36524 - day / 146096) / 365

/-- The day of that year, counted from zero. -/
def dayOfYear (day : Int) : Int :=
  day - (365 * yearOfEra day + yearOfEra day / 4 - yearOfEra day / 100)

/-- The year that begins in March, and the day in it. -/
def march (days : Int) : Int × Int :=
  let shifted := days + 719468
  let era := shifted.fdiv 146097
  let day := shifted - era * 146097
  (yearOfEra day + era * 400, dayOfYear day)

/-- The date of a day in a year that begins in March. -/
def ofMarch (day : Int × Int) : Date :=
  let month := (5 * day.2 + 2) / 153
  let shown := if month < 10 then month + 3 else month - 9
  ⟨if shown ≤ 2 then day.1 + 1 else day.1, shown.toNat,
    (day.2 - (153 * month + 2) / 5 + 1).toNat⟩

theorem ofDays_eq (days : Int) : ofDays days = ofMarch (march days) := rfl

/-- A year has no more than 366 days, and they come one after another. -/
theorem dayOfYear_bounds (day : Int) (hday : 0 ≤ day) (hlast : day < 146097) :
    0 ≤ dayOfYear day ∧ dayOfYear day ≤ 365 := by
  have hyear : yearOfEra day = (day - day / 1460 + day / 36524 - day / 146096) / 365 := rfl
  rw [dayOfYear]
  generalize yearOfEra day = year at hyear ⊢
  -- Only the last century of an era ends with a leap day.
  by_cases hend : day = 146096
  · rw [hyear, hend]
    decide
  have hera : day / 146096 = 0 := by omega
  rw [hera] at hyear
  have hcenturies : day / 36524 = 0 ∨ day / 36524 = 1 ∨ day / 36524 = 2 ∨ day / 36524 = 3 := by
    omega
  have hcentury : year / 100 = day / 36524 := by
    rcases hcenturies with hc | hc | hc | hc <;> rw [hc] at hyear ⊢ <;> omega
  have hleap : year / 4 ≤ day / 1460 ∧ day / 1460 ≤ year / 4 + 1 := by
    rcases hcenturies with hc | hc | hc | hc <;> rw [hc] at hyear <;> omega
  omega

theorem yearOfEra_bounds (day : Int) (hday : 0 ≤ day) (hlast : day < 146097) :
    0 ≤ yearOfEra day ∧ yearOfEra day < 400 := by
  rw [yearOfEra]
  omega

/-- A later day of an era is in no earlier year. -/
theorem yearOfEra_mono (day later : Int) (h : day ≤ later) : yearOfEra day ≤ yearOfEra later := by
  rw [yearOfEra, yearOfEra]
  exact Int.ediv_le_ediv (by decide) (by omega)

/-- A day is given by its era and the day in it. -/
theorem march_eq (days : Int) : ∃ era day : Int, 0 ≤ day ∧ day < 146097 ∧
    days + 719468 = era * 146097 + day ∧
    march days = (yearOfEra day + era * 400, dayOfYear day) := by
  refine ⟨(days + 719468).fdiv 146097, days + 719468 - (days + 719468).fdiv 146097 * 146097,
    ?_, ?_, by omega, rfl⟩
  · rw [Int.fdiv_eq_ediv_of_nonneg _ (by decide)]
    omega
  · rw [Int.fdiv_eq_ediv_of_nonneg _ (by decide)]
    omega

/-- A later day is in a later year, or later in the same year. -/
theorem march_lt (days later : Int) (h : days < later) :
    (march days).1 < (march later).1 ∨
      (march days).1 = (march later).1 ∧ (march days).2 < (march later).2 := by
  rcases march_eq days with ⟨era, day, hday, hlast, hdays, hmarch⟩
  rcases march_eq later with ⟨era', day', hday', hlast', hdays', hmarch'⟩
  have hyear := yearOfEra_bounds day hday hlast
  have hyear' := yearOfEra_bounds day' hday' hlast'
  rw [hmarch, hmarch']
  simp only
  by_cases hera : era = era'
  · have hmono := yearOfEra_mono day day' (by omega)
    by_cases hsame : yearOfEra day = yearOfEra day'
    -- What comes before the year is the same for both days.
    · rw [dayOfYear, dayOfYear, hsame]
      omega
    · omega
  · omega

theorem march_bounds (days : Int) : 0 ≤ (march days).2 ∧ (march days).2 ≤ 365 := by
  rcases march_eq days with ⟨_, day, hday, hlast, -, hmarch⟩
  rw [hmarch]
  exact dayOfYear_bounds day hday hlast

theorem ofMarch_bounds (day : Int × Int) (h : 0 ≤ day.2 ∧ day.2 ≤ 365) :
    (ofMarch day).month < 100 ∧ (ofMarch day).day < 100 := by
  simp only [ofMarch]
  constructor
  · split <;> omega
  · omega

/-- January and February belong to the next year, but also come last in the year
    that begins in March, so the dates are in the same order. -/
theorem before_ofMarch (day later : Int × Int) (hday : 0 ≤ day.2 ∧ day.2 ≤ 365)
    (hlater : 0 ≤ later.2 ∧ later.2 ≤ 365)
    (h : day.1 < later.1 ∨ day.1 = later.1 ∧ day.2 < later.2) :
    (ofMarch day).Before (ofMarch later) := by
  simp only [Before, ofMarch]
  generalize hmonth : (5 * day.2 + 2) / 153 = month
  generalize hmonth' : (5 * later.2 + 2) / 153 = month'
  split <;> split <;> split <;> split <;> omega

/-- A later day has a later date. -/
theorem before_ofDays (days later : Int) (h : days < later) :
    (ofDays days).Before (ofDays later) := by
  rw [ofDays_eq, ofDays_eq]
  exact before_ofMarch _ _ (march_bounds days) (march_bounds later) (march_lt days later h)

theorem ofDays_bounds (days : Int) : (ofDays days).month < 100 ∧ (ofDays days).day < 100 := by
  rw [ofDays_eq]
  exact ofMarch_bounds _ (march_bounds days)

end Date

namespace Instant

/-- What comes first decides, when it is equally long. -/
theorem append_lt_append {first first' : List Char} (h : first < first')
    (hlength : first.length = first'.length) (rest rest' : List Char) :
    first ++ rest < first' ++ rest' := by
  induction first generalizing first' with
  | nil => exact absurd (List.eq_nil_of_length_eq_zero hlength.symm ▸ h) (List.not_lt_nil _)
  | cons c cs ih =>
      cases first' with
      | nil => exact absurd hlength (Nat.succ_ne_zero _)
      | cons d ds =>
          rw [List.cons_append, List.cons_append, List.cons_lt_cons_iff]
          rcases List.cons_lt_cons_iff.mp h with hlt | ⟨heq, hlt⟩
          · exact Or.inl hlt
          · exact Or.inr ⟨heq, ih hlt (Nat.succ.inj hlength)⟩

/-- A numeral of a fixed width: the last digits of a number. -/
def fixed : Nat → Nat → List Char
  | 0, _ => []
  | width + 1, n => fixed width (n / 10) ++ [Nat.digitChar (n % 10)]

theorem length_fixed (width n : Nat) : (fixed width n).length = width := by
  induction width generalizing n with
  | zero => rfl
  | succ width ih => rw [fixed, List.length_append, ih, List.length_singleton]

theorem digitChar_lt : ∀ n < 10, ∀ m < n, Nat.digitChar m < Nat.digitChar n := by decide

/-- A plus sign comes before every digit. -/
theorem plus_lt_digitChar : ∀ n < 10, '+' < Nat.digitChar n := by decide

/-- A numeral of a smaller number comes first. -/
theorem fixed_lt (width : Nat) {m n : Nat} (h : m < n) (hn : n < 10 ^ width) :
    fixed width m < fixed width n := by
  induction width generalizing m n with
  | zero => omega
  | succ width ih =>
      rw [fixed, fixed]
      -- Either the numbers differ before their last digits, or only in them.
      rcases Nat.lt_or_ge (m / 10) (n / 10) with hlt | hge
      · have hn' : n / 10 < 10 ^ width := Nat.div_lt_of_lt_mul (by rw [Nat.pow_succ] at hn; omega)
        have hlength := (length_fixed width (m / 10)).trans (length_fixed width (n / 10)).symm
        exact append_lt_append (ih hlt hn') hlength _ _
      · have heq : m / 10 = n / 10 := by omega
        rw [heq]
        refine List.append_left_lt (List.cons_lt_cons_iff.mpr (Or.inl ?_))
        exact digitChar_lt _ (Nat.mod_lt _ (by decide)) _ (by omega)

/-- So it does when anything follows. -/
theorem fixed_append_lt (width : Nat) {m n : Nat} (h : m < n) (hn : n < 10 ^ width)
    (rest rest' : List Char) : fixed width m ++ rest < fixed width n ++ rest' :=
  append_lt_append (fixed_lt width h hn)
    ((length_fixed width m).trans (length_fixed width n).symm) rest rest'

/-- Zeros on the left fill a numeral up to a fixed width. -/
theorem padded_eq_fixed (width n : Nat) (hn : n < 10 ^ (width + 1)) :
    padded (width + 1) n = fixed (width + 1) n := by
  induction width generalizing n with
  | zero =>
      have hsmall : n < 10 := by omega
      rw [padded, fixed, fixed, Decimal.numeral, Nat.toDigits_of_lt_base hsmall,
        Nat.mod_eq_of_lt hsmall]
      rfl
  | succ width ih =>
      have hn' : n / 10 < 10 ^ (width + 1) :=
        Nat.div_lt_of_lt_mul (by rw [Nat.pow_succ] at hn; omega)
      rw [fixed, ← ih (n / 10) hn']
      -- A number of one digit is filled up with zeros, and any other one has its last digit.
      by_cases hsmall : n < 10
      · rw [padded, padded, Decimal.numeral, Decimal.numeral, Nat.toDigits_of_lt_base hsmall,
          Nat.div_eq_of_lt hsmall, Nat.mod_eq_of_lt hsmall, Nat.toDigits_of_lt_base (by decide)]
        simp only [List.length_singleton, Nat.add_sub_cancel, List.replicate_succ']
        rfl
      · have hbase : 10 ≤ n := by omega
        rw [padded, padded, Decimal.numeral, Decimal.numeral,
          Nat.toDigits_of_base_le (by decide) hbase]
        simp only [List.length_append, List.length_singleton, Nat.add_sub_add_right,
          List.append_assoc]

/-- A wide numeral is one of the first digits and one of the last. -/
theorem fixed_add (first last n : Nat) :
    fixed (first + last) n = fixed first (n / 10 ^ last) ++ fixed last n := by
  induction last generalizing n with
  | zero => rw [Nat.add_zero, Nat.pow_zero, Nat.div_one, fixed, List.append_nil]
  | succ last ih =>
      rw [← Nat.add_assoc, fixed, ih, fixed, List.append_assoc, Nat.div_div_eq_div_mul,
        Nat.pow_succ, Nat.mul_comm]

/-- A numeral shows only the last digits of a number. -/
theorem fixed_mod (width n : Nat) : fixed width (n % 10 ^ width) = fixed width n := by
  induction width generalizing n with
  | zero => rfl
  | succ width ih =>
      rw [fixed, fixed, ← ih (n / 10), Nat.pow_succ, Nat.mul_comm, Nat.mod_mul_right_div_self,
        Nat.mod_mul_right_mod]

/-- Numerals of fixed widths, each with what follows it. -/
def written : List (Nat × List Char) → List Nat → List Char
  | (width, after) :: form, n :: numbers => fixed width n ++ after ++ written form numbers
  | _, _ => []

/-- Numbers are small enough for their widths. -/
abbrev Fits (form : List (Nat × List Char)) (numbers : List Nat) : Prop :=
  List.Forall₂ (fun part n => n < 10 ^ part.1) form numbers

theorem length_written {form : List (Nat × List Char)} {numbers others : List Nat}
    (h : Fits form numbers) (hothers : Fits form others) :
    (written form numbers).length = (written form others).length := by
  induction h generalizing others with
  | nil =>
      cases hothers
      rfl
  | cons _ _ ih =>
      cases hothers with
      | cons _ hrest =>
          simp only [written, List.length_append, length_fixed, ih hrest]

/-- The first number that differs decides. -/
theorem written_lt {form : List (Nat × List Char)} {numbers others : List Nat}
    (h : Fits form numbers) (hothers : Fits form others) (hlt : numbers < others) :
    written form numbers < written form others := by
  induction h generalizing others with
  | nil =>
      cases hothers
      exact absurd hlt (List.not_lt_nil _)
  | @cons part n form numbers _ _ ih =>
      cases hothers with
      | @cons _ m _ others hfits hrest =>
          rw [written, written, List.append_assoc, List.append_assoc]
          rcases List.cons_lt_cons_iff.mp hlt with hn | ⟨rfl, hlater⟩
          · exact fixed_append_lt part.1 hn hfits _ _
          · exact List.append_left_lt (List.append_left_lt (ih hrest hlater))

/-- What is not zero of a fraction, in groups of three digits. -/
def grouped : Nat → Nat → List Char
  | 0, _ => []
  | groups + 1, n =>
      if n = 0 then []
      else fixed 3 (n / 1000 ^ groups) ++ grouped groups (n % 1000 ^ groups)

/-- A smaller fraction comes first, when a plus sign follows both. -/
theorem grouped_lt (groups : Nat) {m n : Nat} (h : m < n) (hn : n < 1000 ^ groups)
    (zone : List Char) : grouped groups m ++ '+' :: zone < grouped groups n ++ '+' :: zone := by
  induction groups generalizing m n with
  | zero => omega
  | succ groups ih =>
      have hpos : 0 < 1000 ^ groups := Nat.pow_pos (by decide)
      rw [grouped, grouped, if_neg (by omega : n ≠ 0)]
      by_cases hm : m = 0
      -- The plus sign stands where the other fraction has a digit.
      · rw [if_pos hm, fixed_add 1 2]
        exact List.cons_lt_cons_iff.mpr (Or.inl (plus_lt_digitChar _ (Nat.mod_lt _ (by decide))))
      · rw [if_neg hm, List.append_assoc, List.append_assoc]
        rcases Nat.lt_or_ge (m / 1000 ^ groups) (n / 1000 ^ groups) with hlt | hge
        · have hfirst : n / 1000 ^ groups < 10 ^ 3 :=
            Nat.div_lt_of_lt_mul (by rw [Nat.pow_succ] at hn; omega)
          exact fixed_append_lt 3 hlt hfirst _ _
        · have heq : m / 1000 ^ groups = n / 1000 ^ groups :=
            Nat.le_antisymm (Nat.div_le_div_right (Nat.le_of_lt h)) hge
          have hm' := Nat.div_add_mod m (1000 ^ groups)
          have hn' := Nat.div_add_mod n (1000 ^ groups)
          rw [heq] at hm' ⊢
          exact List.append_left_lt (ih (by omega) (Nat.mod_lt _ hpos))

/-- The fraction of a second is a point and its groups of digits. -/
theorem fractionText_eq (nanos : Nat) (h : nanos < 1000000000) (hne : nanos ≠ 0) :
    fractionText nanos = '.' :: grouped 3 nanos := by
  have hgroup : ∀ m n, m % 1000 = n % 1000 → fixed 3 m = fixed 3 n := by
    intro m n hmn
    rw [← fixed_mod 3 m, ← fixed_mod 3 n]
    exact congrArg (fixed 3) hmn
  have hsplit : ∀ n, fixed 6 n = fixed 3 (n / 1000) ++ fixed 3 n := fixed_add 3 3
  have hwide : ∀ n, fixed 9 n = fixed 3 (n / 1000000) ++ fixed 6 n := fixed_add 3 6
  rw [fractionText, if_neg hne, grouped, if_neg hne]
  change _ = '.' :: (fixed 3 (nanos / 1000000) ++ grouped 2 (nanos % 1000000))
  rw [grouped]
  change _ = '.' :: (_ ++ if nanos % 1000000 = 0 then [] else
    fixed 3 (nanos % 1000000 / 1000) ++ grouped 1 (nanos % 1000000 % 1000))
  rw [grouped]
  -- The fraction ends with the last group that is not zero.
  by_cases hsix : nanos % 1000000 = 0
  · rw [if_pos hsix, if_pos hsix, padded_eq_fixed 2 _ (by omega), List.append_nil]
  · rw [if_neg hsix, if_neg hsix, hgroup (nanos % 1000000 / 1000) (nanos / 1000) (by omega)]
    by_cases hthree : nanos % 1000 = 0
    · rw [if_pos hthree, if_pos (by omega), padded_eq_fixed 5 _ (by omega), hsplit,
        List.append_nil, hgroup (nanos / 1000 / 1000) (nanos / 1000000) (by omega)]
    · rw [if_neg hthree, if_neg (by omega), padded_eq_fixed 8 _ (by omega), hwide, hsplit,
        grouped, List.append_nil]
      change _ = '.' :: (_ ++ (_ ++ fixed 3 (nanos % 1000000 % 1000 / 1)))
      rw [hgroup (nanos % 1000000 % 1000 / 1) nanos (by omega)]

/-- The year of an instant has four digits, and it is not in a leap second. -/
structure Dated (t : Instant) : Prop where
  year : 0 ≤ t.date.year ∧ t.date.year ≤ 9999
  nanos : t.nanos < 1000000000

/-- What is written of an instant up to the second. -/
def parts (t : Instant) : List Nat :=
  [t.date.year.toNat, t.date.month, t.date.day, t.secondOfDay / 3600, t.secondOfDay / 60 % 60,
    t.secondOfDay % 60]

/-- How it is written. -/
def form : List (Nat × List Char) :=
  [(4, ['-']), (2, ['-']), (2, ['T']), (2, [':']), (2, [':']), (2, [])]

theorem secondOfDay_lt (t : Instant) : t.secondOfDay < 86400 := by
  rw [secondOfDay, Int.fdiv_eq_ediv_of_nonneg _ (by decide)]
  omega

theorem fits_parts (t : Instant) (h : t.Dated) : Fits form t.parts := by
  have hdate := Date.ofDays_bounds (t.seconds.fdiv 86400)
  have hsecond := t.secondOfDay_lt
  have hyear : t.date.year.toNat < 10000 := by
    have := h.year
    omega
  exact .cons hyear <| .cons hdate.1 <| .cons hdate.2 <| .cons (by change _ < 100; omega) <|
    .cons (by change _ < 100; omega) <| .cons (by change _ < 100; omega) .nil

/-- Up to the second, an instant is written in numerals of fixed widths. -/
theorem chars_eq (t : Instant) (h : t.Dated) :
    t.chars = written form t.parts ++ fractionText t.nanos := by
  have hyear : (decide (0 ≤ t.date.year) && decide (t.date.year ≤ 9999)) = true := by
    rw [Bool.and_eq_true, decide_eq_true_eq, decide_eq_true_eq]
    exact h.year
  have htwo : ∀ n < 100, padded 2 n = fixed 2 n := fun n hn => padded_eq_fixed 1 n hn
  have hfour : padded 4 t.date.year.toNat = fixed 4 t.date.year.toNat :=
    padded_eq_fixed 3 _ (by have := h.year; omega)
  have hdate : t.date.month < 100 ∧ t.date.day < 100 := Date.ofDays_bounds _
  have hsecond := t.secondOfDay_lt
  rw [chars, Nat.mod_eq_of_lt h.nanos, secondChars, yearText, Nat.div_eq_of_lt h.nanos,
    if_pos hyear, hfour, Nat.add_zero, htwo _ hdate.1, htwo _ hdate.2, htwo _ (by omega),
    htwo _ (by omega), htwo _ (by omega)]
  simp only [written, form, parts, List.append_assoc, List.append_nil]

/-- A later second has later numbers. -/
theorem parts_lt (a b : Instant) (ha : a.Dated) (hb : b.Dated) (h : a.seconds < b.seconds) :
    a.parts < b.parts := by
  have hsecond := a.secondOfDay_lt
  have hsecond' := b.secondOfDay_lt
  have hyear := ha.year
  have hyear' := hb.year
  simp only [parts, List.cons_lt_cons_iff, List.not_lt_nil, and_false, or_false]
  rcases Int.lt_or_le (a.seconds.fdiv 86400) (b.seconds.fdiv 86400) with hday | hday
  -- The days differ, so the dates do.
  · have hbefore : a.date.Before b.date := Date.before_ofDays _ _ hday
    rw [Date.Before] at hbefore
    omega
  -- It is the same day, so the time of the day is later.
  · have hsame : a.seconds.fdiv 86400 = b.seconds.fdiv 86400 := by
      refine Int.le_antisymm ?_ hday
      rw [Int.fdiv_eq_ediv_of_nonneg a.seconds (by decide),
        Int.fdiv_eq_ediv_of_nonneg b.seconds (by decide)]
      exact Int.ediv_le_ediv (by decide) (Int.le_of_lt h)
    have hdate : a.date = b.date := congrArg Date.ofDays hsame
    have htime : a.secondOfDay < b.secondOfDay := by
      rw [secondOfDay, secondOfDay, ← hsame, Int.fdiv_eq_ediv_of_nonneg a.seconds (by decide)]
      omega
    rw [hdate]
    omega

/-- The text of an earlier instant comes first. -/
theorem offsetText_lt (a b : Instant) (ha : a.Dated) (hb : b.Dated) (h : a.before b = true) :
    a.offsetText < b.offsetText := by
  have hlength := length_written (a.fits_parts ha) (b.fits_parts hb)
  have hzone : "+00:00".toList = '+' :: ['0', '0', ':', '0', '0'] := rfl
  rw [String.lt_iff, offsetText, offsetText, hzone, String.toList_ofList, String.toList_ofList,
    a.chars_eq ha, b.chars_eq hb, List.append_assoc, List.append_assoc]
  simp only [before, Bool.or_eq_true, Bool.and_eq_true, decide_eq_true_eq] at h
  rcases h with hlt | ⟨hsame, hnanos⟩
  · exact append_lt_append (written_lt (a.fits_parts ha) (b.fits_parts hb) (a.parts_lt b ha hb hlt))
      hlength _ _
  · have hparts : a.parts = b.parts := by
      simp only [parts, date, secondOfDay, hsame]
    rw [hparts]
    refine List.append_left_lt ?_
    rw [fractionText_eq b.nanos hb.nanos (by omega)]
    by_cases hzero : a.nanos = 0
    -- The plus sign stands where the other instant has a point.
    · rw [hzero, fractionText, if_pos rfl, List.nil_append, List.cons_append]
      exact List.cons_lt_cons_iff.mpr (Or.inl (by decide))
    · rw [fractionText_eq a.nanos ha.nanos hzero, List.cons_append, List.cons_append]
      exact List.cons_lt_cons_iff.mpr (Or.inr ⟨rfl, grouped_lt 3 hnanos hb.nanos _⟩)

/-- So texts of instants are in the order of the instants. -/
theorem offsetText_lt_iff (a b : Instant) (ha : a.Dated) (hb : b.Dated) :
    a.offsetText < b.offsetText ↔ a.before b = true := by
  constructor
  · intro h
    by_contra hnot
    -- Then the other one is earlier, or they are the same instant.
    by_cases hother : b.before a = true
    · exact String.lt_irrefl _ (String.lt_trans h (b.offsetText_lt a hb ha hother))
    · have hsame : a = b := by
        simp only [before, Bool.or_eq_true, Bool.and_eq_true, decide_eq_true_eq] at hnot hother
        rcases a with ⟨seconds, nanos⟩
        rcases b with ⟨seconds', nanos'⟩
        rw [mk.injEq]
        simp only at hnot hother
        omega
      rw [hsame] at h
      exact String.lt_irrefl _ h
  · exact a.offsetText_lt b ha hb

end Instant

namespace Summary

/-- The order of a listing by texts: the latest text first, then by id. -/
def textBefore (a b : Summary) : Bool :=
  decide (b.updatedAt.offsetText < a.updatedAt.offsetText) ||
    (!decide (a.updatedAt.offsetText < b.updatedAt.offsetText) && decide (a.id ≤ b.id))

theorem textBefore_eq (a b : Summary) (ha : a.updatedAt.Dated) (hb : b.updatedAt.Dated) :
    a.textBefore b = a.before b := by
  have hlater := b.updatedAt.offsetText_lt_iff a.updatedAt hb ha
  have hearlier := a.updatedAt.offsetText_lt_iff b.updatedAt ha hb
  simp only [textBefore, before, hlater, hearlier, Bool.decide_eq_true]

end Summary

namespace Table

variable {β : Type}

/-- All graphs, the latest text of an update first. -/
def listTexts (t : Table β) : List Summary :=
  (t.map fun (id, row) => row.line id).mergeSort Summary.textBefore

/-- All times in a table have years of four digits. -/
def Dated (t : Table β) : Prop := ∀ entry ∈ t, entry.2.updatedAt.Dated

/-- Listing by texts is listing by instants. -/
theorem listTexts_eq (t : Table β) (h : t.Dated) : t.listTexts = t.listNotes := by
  have hdated : ∀ line ∈ t.map (fun (id, row) => row.line id), line.updatedAt.Dated := by
    intro line hline
    rcases List.mem_map.mp hline with ⟨entry, hentry, rfl⟩
    exact h entry hentry
  have hsame : ∀ a ∈ t.map (fun (id, row) => row.line id),
      ∀ b ∈ t.map (fun (id, row) => row.line id), Summary.textBefore a b = Summary.before a b :=
    fun a ha b hb => a.textBefore_eq b (hdated a ha) (hdated b hb)
  have hsorted := List.map_mergeSort hsame
  rwa [List.map_id', List.map_id'] at hsorted

end Table

namespace Store

/-- A store that keeps texts goes on doing so, and when the clock shows a year of
    four digits, its times have such years. -/
theorem dated_perform (t : Table String) (h : t.Dated) (now : Instant) (hnow : now.Dated)
    (operation : Operation) :
    ∃ t', ((text t).perform now operation).2 = text t' ∧ t'.Dated := by
  cases operation with
  | load id =>
      rw [perform]
      cases (text t).load id <;> exact ⟨t, rfl, h⟩
  | list => exact ⟨t, rfl, h⟩
  | delete id => exact ⟨_, rfl, Table.forall_delete h id⟩
  | save id title graph expected =>
      -- Only a row that is new gets another time.
      rw [perform, save_eq]
      cases checkVersion id ((text t).versionOf id) expected with
      | error e => exact ⟨t, rfl, h⟩
      | ok _ =>
          rw [Except.bind]
          by_cases hfound : (text t).holds id title graph = true
          · rw [if_pos hfound]
            exact ⟨t, rfl, h⟩
          · rw [if_neg hfound]
            exact ⟨_, rfl, Entries.forall_insert h hnow⟩
  | markPublished id version =>
      rw [perform, markPublished, Table.markPublished_eq]
      cases Entries.find? id t with
      | none => exact ⟨t, rfl, h⟩
      | some row =>
          simp only
          cases checkVersion id row.version (some version) with
          | error e => exact ⟨t, rfl, h⟩
          | ok _ => exact ⟨_, rfl, Table.forall_stamp h now id fun _ hrow => hrow⟩

/-- As long as the clock shows years of four digits, a store that keeps texts may
    list its graphs by the texts of their times. -/
theorem listed_by_texts (ops : List (Instant × Operation)) (hclock : ∀ entry ∈ ops, entry.1.Dated)
    (t : Table String) (h : t.Dated) :
    ∃ t', (text t).after ops = text t' ∧ (text t').list = t'.listTexts := by
  induction ops generalizing t with
  | nil => exact ⟨t, rfl, (t.listTexts_eq h).symm⟩
  | cons entry rest ih =>
      rcases entry with ⟨now, operation⟩
      rcases dated_perform t h now (hclock _ List.mem_cons_self) operation with ⟨t', hstep, h'⟩
      rw [after, hstep]
      exact ih (fun later hlater => hclock later (List.mem_cons_of_mem _ hlater)) t' h'

end Store

end Workflow
