import Workflow.Proofs.Escaping

/-!
# What Is Left of a Page

What cannot be in the text of a page.

Taking something out of a text brings together what stood around it, so a text
could have a tag where the page had none. It does not. An opening bracket is kept
only where no tag begins with it: because it is followed by a closing bracket at
once, or because no closing bracket follows it at all. Both are still so after
more was taken out behind it, and after line breaks were cut. So whether a text
is without tags is asked bracket by bracket (`tagless_cons_iff`), and each step
answers it for one character at a time.

Entities are another matter: a tag that the page spells out with them appears in
the text. A page without an ampersand has none of them, and its text is what is
left of it when characters are taken out (`text_stripped`).

## Main definitions

* `IsTag`: A bracket, other characters, and the closing bracket.
* `Tagless`: A text in which no tag occurs.

## Theorems

* `tagless_cons_iff`: When a text has no tag, by its first character.
* `afterTag_eq_none_iff`: When no tag is recognised.
* `skip_sublist`, `cutBreaksFrom_sublist`: Characters are taken out only.
* `tagless_dropTags`: No tag is left behind.
* `tagless_cutBreaksFrom`: Cutting line breaks makes no tag.
* `breaks_cutBreaksFrom`: Three line breaks in a row are not left.
* `tidy_text`: A text has no blanks at its ends, and no three line breaks in a
  row.
* `text_stripped`: What is left of a page.
-/

namespace Workflow

namespace Text

theorem dropEnds_part (p : Char → Bool) (s : List Char) : dropEnds p s <:+: s := by
  rcases dropRight_append_dropped p (s.dropWhile p) with ⟨removed, heq, -⟩
  have hstart : dropEnds p s <+: s.dropWhile p := ⟨removed, heq.symm⟩
  exact hstart.isInfix.trans (List.dropWhile_suffix p).isInfix

/-- A trimmed text does not end with a removed character. -/
theorem getLast_dropEnds_not (p : Char → Bool) (s : List Char) (c : Char)
    (h : (dropEnds p s).getLast? = some c) : p c = false := by
  rw [dropEnds, dropRight, List.getLast?_reverse] at h
  have hnot := List.head?_dropWhile_not p (s.dropWhile p).reverse
  rw [h] at hnot
  exact hnot

end Text

namespace Web

namespace Page

/-- A tag is a bracket, at least one other character, and the closing bracket. -/
def IsTag (t : List Char) : Prop := ∃ inside, t = '<' :: (inside ++ ['>']) ∧ inside ≠ [] ∧
  '>' ∉ inside

/-- No tag occurs in a text. -/
def Tagless (s : List Char) : Prop := ∀ t, IsTag t → ¬ t <:+: s

theorem tagless_nil : Tagless [] := by
  rintro t ⟨inside, rfl, -⟩ hwithin
  exact absurd (List.infix_nil.mp hwithin) (List.cons_ne_nil _ _)

theorem Tagless.of_part {s part : List Char} (h : Tagless s) (hpart : part <:+: s) :
    Tagless part :=
  fun t ht hwithin => h t ht (hwithin.trans hpart)

/-- A text has no tag when none begins with its first character and there is none
    in the rest. No tag begins with a bracket when it is followed by a closing one
    at once, or by none at all. -/
theorem tagless_cons_iff (c : Char) (rest : List Char) :
    Tagless (c :: rest) ↔
      (c = '<' → rest.head? = some '>' ∨ '>' ∉ rest) ∧ Tagless rest := by
  constructor
  · intro h
    refine ⟨fun hc => ?_, h.of_part (List.suffix_cons c rest).isInfix⟩
    by_contra hopen
    rw [not_or, not_not] at hopen
    rcases List.eq_append_cons_of_mem hopen.2 with ⟨inside, after, rfl, hinside⟩
    have hne : inside ≠ [] := by
      rintro rfl
      exact hopen.1 rfl
    refine h _ ⟨inside, rfl, hne, hinside⟩ ⟨[], after, ?_⟩
    rw [hc, List.nil_append, List.cons_append, List.append_assoc, List.singleton_append]
  · rintro ⟨hfirst, hrest⟩ t ht hwithin
    rcases List.infix_cons_iff.mp hwithin with hstart | hinner
    · rcases ht with ⟨inside, rfl, hne, hinside⟩
      rcases List.cons_prefix_cons.mp hstart with ⟨rfl, hahead⟩
      rcases hfirst rfl with hclosed | hnone
      -- The closing bracket would stand inside the tag.
      · rcases List.exists_cons_of_ne_nil hne with ⟨d, inside, rfl⟩
        rcases List.head?_eq_some_iff.mp hclosed with ⟨others, rfl⟩
        rw [List.cons_append, List.cons_prefix_cons] at hahead
        exact hinside (hahead.1 ▸ List.mem_cons_self)
      · exact hnone (hahead.subset (List.mem_append_right _ List.mem_cons_self))
    · exact hrest t ht hinner

theorem afterBracket_eq_none_iff (cs : List Char) : afterBracket cs = none ↔ '>' ∉ cs := by
  induction cs with
  | nil => simp only [afterBracket, List.not_mem_nil, not_false_eq_true]
  | cons c rest ih =>
      rw [List.mem_cons, not_or, ← ih]
      by_cases hc : c = '>'
      · simp only [hc, afterBracket, reduceCtorEq, not_true_eq_false, false_and]
      · rw [afterBracket]
        · exact (and_iff_right (Ne.symm hc)).symm
        · exact hc

/-- A tag is not recognised exactly where none begins. -/
theorem afterTag_eq_none_iff (c : Char) (rest : List Char) :
    afterTag (c :: rest) = none ↔ (c = '<' → rest.head? = some '>' ∨ '>' ∉ rest) := by
  by_cases hc : c = '<'
  · subst hc
    rw [forall_prop_of_true rfl]
    cases rest with
    | nil => simp only [afterTag, List.not_mem_nil, not_false_eq_true, or_true]
    | cons d rest =>
        rw [afterTag, List.head?_cons, Option.some.injEq, List.mem_cons, not_or]
        by_cases hd : d = '>'
        · simp only [hd, if_true, true_or]
        · rw [if_neg hd, afterBracket_eq_none_iff, or_iff_right hd]
          exact (and_iff_right (Ne.symm hd)).symm
  · refine iff_of_true ?_ fun h => absurd h hc
    rw [afterTag]
    rintro _ _ heq
    exact hc (List.cons.inj heq).1

theorem afterBracket_suffix {cs following : List Char} (h : afterBracket cs = some following) :
    following <:+ cs := by
  induction cs with
  | nil => exact absurd h nofun
  | cons c rest ih =>
      by_cases hc : c = '>'
      · rw [hc, afterBracket, Option.some.injEq] at h
        exact h ▸ List.suffix_cons c rest
      · rw [afterBracket] at h
        · exact (ih h).trans (List.suffix_cons c rest)
        · exact hc

theorem afterName_suffix (name : List Char) {cs following : List Char}
    (h : afterName name cs = some following) : following <:+ cs := by
  induction name generalizing cs with
  | nil => exact Option.some.inj h ▸ List.suffix_refl cs
  | cons letter name ih =>
      cases cs with
      | nil => exact absurd h nofun
      | cons c rest =>
          rw [afterName, Option.ite_none_right_eq_some] at h
          exact (ih h.2).trans (List.suffix_cons c rest)

theorem afterFirst_suffix (name : List Char) {cs following : List Char}
    (h : afterFirst name cs = some following) : following <:+ cs := by
  induction cs with
  | nil => exact afterName_suffix name h
  | cons c rest ih =>
      rw [afterFirst] at h
      split at h
      · rename_i after hafter
        exact Option.some.inj h ▸ afterName_suffix name hafter
      · exact (ih h).trans (List.suffix_cons c rest)

theorem afterBlock_suffix (name : List Char) {cs following : List Char}
    (h : afterBlock name cs = some following) : following <:+ cs := by
  rcases Option.bind_eq_some_iff.mp h with ⟨inTag, htag, h⟩
  rcases Option.bind_eq_some_iff.mp h with ⟨content, hcontent, h⟩
  exact ((afterFirst_suffix _ h).trans (afterBracket_suffix hcontent)).trans
    (afterName_suffix _ htag)

theorem afterTag_suffix {c : Char} {rest following : List Char}
    (h : afterTag (c :: rest) = some following) : following <:+ rest := by
  rw [afterTag.eq_def] at h
  split at h
  · rename_i d others heq
    rw [Option.ite_none_left_eq_some] at h
    rw [(List.cons.inj heq).2]
    exact (afterBracket_suffix h.2).trans (List.suffix_cons d others)
  · exact absurd h nofun

/-- Skipping takes characters out, and does nothing else. -/
theorem skip_sublist {after : List Char → Option (List Char)}
    (hafter : ∀ cs following, after cs = some following → following <:+ cs) (fuel : Nat)
    (cs : List Char) : (skip after fuel cs).Sublist cs := by
  induction fuel generalizing cs with
  | zero => exact List.Sublist.refl cs
  | succ fuel ih =>
      cases cs with
      | nil => exact List.Sublist.refl []
      | cons c rest =>
          rw [skip]
          split
          · rename_i following h
            exact (ih following).trans (hafter _ _ h).sublist
          · exact (ih rest).cons_cons c

theorem dropBlocks_sublist (name cs : List Char) : (dropBlocks name cs).Sublist cs :=
  skip_sublist (fun _ _ => afterBlock_suffix name) cs.length cs

theorem skip_tags_sublist (fuel : Nat) (cs : List Char) : (skip afterTag fuel cs).Sublist cs := by
  refine skip_sublist (fun cs following h => ?_) fuel cs
  cases cs with
  | nil => exact absurd h nofun
  | cons c rest => exact (afterTag_suffix h).trans (List.suffix_cons c rest)

/-- A closing bracket at the beginning is kept. -/
theorem head?_skip_tags (fuel : Nat) {cs : List Char} (h : cs.head? = some '>') :
    (skip afterTag fuel cs).head? = some '>' := by
  rcases List.head?_eq_some_iff.mp h with ⟨rest, rfl⟩
  cases fuel with
  | zero => exact h
  | succ fuel =>
      have hkept : afterTag ('>' :: rest) = none :=
        (afterTag_eq_none_iff '>' rest).mpr fun heq => absurd heq (by decide)
      rw [skip, hkept]
      rfl

/-- No tag is left behind, and none arises from what is brought together. -/
theorem tagless_skip_tags (fuel : Nat) (cs : List Char) (hfuel : cs.length ≤ fuel) :
    Tagless (skip afterTag fuel cs) := by
  induction fuel generalizing cs with
  | zero =>
      rw [List.length_eq_zero_iff.mp (Nat.le_zero.mp hfuel)]
      exact tagless_nil
  | succ fuel ih =>
      cases cs with
      | nil => exact tagless_nil
      | cons c rest =>
          have hrest : rest.length ≤ fuel := Nat.le_of_succ_le_succ hfuel
          cases h : afterTag (c :: rest) with
          | some following =>
              rw [skip, h]
              exact ih following (Nat.le_trans (afterTag_suffix h).length_le hrest)
          | none =>
              rw [skip, h]
              refine (tagless_cons_iff c _).mpr ⟨fun hc => ?_, ih rest hrest⟩
              rcases (afterTag_eq_none_iff c rest).mp h hc with hclosed | hnone
              · exact Or.inl (head?_skip_tags fuel hclosed)
              · exact Or.inr fun hmem => hnone ((skip_tags_sublist fuel rest).subset hmem)

theorem dropTags_sublist (cs : List Char) : (dropTags cs).Sublist cs :=
  skip_tags_sublist cs.length cs

theorem tagless_dropTags (cs : List Char) : Tagless (dropTags cs) :=
  tagless_skip_tags cs.length cs (Nat.le_refl _)

/-- Only line breaks are taken out, whatever was seen before. -/
theorem cutBreaksFrom_cons (run : Nat) (c : Char) (rest : List Char) : ∃ next,
    cutBreaksFrom run (c :: rest) = c :: cutBreaksFrom next rest ∨
      c = '\n' ∧ cutBreaksFrom run (c :: rest) = cutBreaksFrom next rest := by
  rw [cutBreaksFrom]
  split
  · rename_i hc
    refine ⟨run + 1, ?_⟩
    split
    · exact Or.inl rfl
    · exact Or.inr ⟨hc, rfl⟩
  · exact ⟨0, Or.inl rfl⟩

theorem cutBreaksFrom_sublist (run : Nat) (cs : List Char) :
    (cutBreaksFrom run cs).Sublist cs := by
  induction cs generalizing run with
  | nil => exact List.Sublist.refl []
  | cons c rest ih =>
      rcases cutBreaksFrom_cons run c rest with ⟨next, heq | ⟨-, heq⟩⟩
      · exact heq ▸ (ih next).cons_cons c
      · exact heq ▸ (ih next).cons c

/-- Cutting line breaks makes no tag: what follows a bracket at once stays there,
    and nothing is put in. -/
theorem tagless_cutBreaksFrom (run : Nat) {cs : List Char} (h : Tagless cs) :
    Tagless (cutBreaksFrom run cs) := by
  induction cs generalizing run with
  | nil => exact h
  | cons c rest ih =>
      rcases (tagless_cons_iff c rest).mp h with ⟨hfirst, hrest⟩
      rcases cutBreaksFrom_cons run c rest with ⟨next, heq | ⟨-, heq⟩⟩
      · rw [heq]
        refine (tagless_cons_iff c _).mpr ⟨fun hbracket => ?_, ih next hrest⟩
        rcases hfirst hbracket with hclosed | hnone
        · rcases List.head?_eq_some_iff.mp hclosed with ⟨others, rfl⟩
          exact Or.inl rfl
        · exact Or.inr fun hmem => hnone ((cutBreaksFrom_sublist next rest).subset hmem)
      · exact heq ▸ ih next hrest

/-- After some line breaks, only as many follow as make two of them. -/
theorem breaks_of_start (run count : Nat) (cs : List Char)
    (h : List.replicate count '\n' <+: cutBreaksFrom run cs) : count = 0 ∨ count + run ≤ 2 := by
  induction cs generalizing run count with
  | nil => exact Or.inl (List.replicate_eq_nil_iff _ |>.mp (List.prefix_nil.mp h))
  | cons c rest ih =>
      cases count with
      | zero => exact Or.inl rfl
      | succ count =>
          rw [cutBreaksFrom] at h
          split at h
          · split at h
            · rw [List.replicate_succ, List.cons_prefix_cons] at h
              have hmore := ih (run + 1) count h.2
              omega
            · have hmore := ih (run + 1) (count + 1) h
              omega
          · rename_i hc
            rw [List.replicate_succ, List.cons_prefix_cons] at h
            exact absurd h.1.symm hc

theorem breaks_cutBreaksFrom (run : Nat) (cs : List Char) :
    ¬ List.replicate 3 '\n' <:+: cutBreaksFrom run cs := by
  induction cs generalizing run with
  | nil => exact fun h => absurd (List.infix_nil.mp h) (List.cons_ne_nil _ _)
  | cons c rest ih =>
      intro h
      have hstart : ¬ List.replicate 3 '\n' <+: cutBreaksFrom run (c :: rest) := fun hahead => by
        have hfew := breaks_of_start run 3 (c :: rest) hahead
        omega
      rcases cutBreaksFrom_cons run c rest with ⟨next, heq | ⟨-, heq⟩⟩
      · rw [heq] at h hstart
        exact ih next ((List.infix_cons_iff.mp h).resolve_left hstart)
      · rw [heq] at h
        exact ih next h

/-- A text has no blanks at its ends, and no three line breaks in a row. -/
theorem tidy_text (page : List Char) : Tidy (text page) where
  starts := Text.head_dropEnds_not Text.isBlank _
  ends := Text.getLast_dropEnds_not Text.isBlank _
  breaks := fun h => breaks_cutBreaksFrom 0 _ (h.trans (Text.dropEnds_part Text.isBlank _))

/-- There is no entity without an ampersand. -/
theorem resolve_eq_self {cs : List Char} (hcs : '&' ∉ cs) : resolve cs = cs := by
  refine (resolveWith_eq_self_iff entities (by decide) cs).mpr fun entity hentity hwithin => ?_
  have hampersand : ∀ entity ∈ entities, '&' ∈ entity.1 := by decide
  exact hcs (hwithin.subset (hampersand entity hentity))

/-- What is left of a page. Without ampersands in the page there is no tag in its
    text, and the text is what is left of the page when characters are taken out.
    In any case it has no blanks at its ends, and no three line breaks in a row. -/
theorem text_stripped (page : List Char) :
    ('&' ∉ page → Tagless (text page) ∧ (text page).Sublist page) ∧ Tidy (text page) := by
  refine ⟨fun hpage => ?_, tidy_text page⟩
  have hblocks : (dropBlocks "style".toList (dropBlocks "script".toList page)).Sublist page :=
    (dropBlocks_sublist _ _).trans (dropBlocks_sublist _ page)
  have htags := (dropTags_sublist _).trans hblocks
  have hresolve := resolve_eq_self fun hmem => hpage (htags.subset hmem)
  have htrim := Text.dropEnds_part Text.isBlank
  rw [text, hresolve]
  constructor
  · exact (tagless_cutBreaksFrom 0 (tagless_dropTags _)).of_part (htrim _)
  · exact ((htrim _).sublist.trans (cutBreaksFrom_sublist 0 _)).trans htags

-- A page with ampersands can say so.
example : text "&lt;b&gt;".toList = "<b>".toList := by decide

/-- A page in which a script is taken out of the middle of a tag. -/
def spliced : List Char := " <scr<script>x</script>ipt>y</script> <>z\n\n\n<b\n".toList

/-- What is put together there is a tag, and it is taken out with the others. -/
theorem text_stripped_spliced : '&' ∉ spliced ∧ text spliced = "y <>z\n\n<b".toList ∧
    Tagless "y <>z\n\n<b".toList ∧ "y <>z\n\n<b".toList.Sublist spliced ∧
    Tidy "y <>z\n\n<b".toList := by
  have hpage : '&' ∉ spliced := by decide
  have htext : text spliced = "y <>z\n\n<b".toList := by decide +kernel
  have hstripped := text_stripped spliced
  rw [htext] at hstripped
  rcases hstripped.1 hpage with ⟨htagless, hsublist⟩
  exact ⟨hpage, htext, htagless, hsublist, hstripped.2⟩

end Page

end Web

end Workflow
