import Workflow.Proofs.Replacing

/-!
# Escaped Texts

What is read back when a text was escaped before it became part of a page.

Escaping writes an entity for each of five characters, for all of them at once.
The entities of a page are resolved one after another, and the one for the
ampersand comes first. That undoes the escaping of ampersands, and what the text
itself says about the other entities is then taken for entities, too. So an
escaped text is read as the text would be, unescaped, if there were no entity
for the ampersand (`resolve_escape`). A text comes back exactly when it speaks of
none of the other entities (`text_escape_iff`): `&lt;` is read back as a bracket
(`bracket_appears`), although `&amp;` is read back as it was.

The argument is one for tables of entities, and takes the entities of a table
one after another. It needs that different entities are told apart by where they
begin and end, and that no entity uses a character that is escaped but the
ampersand in front (`Regular`).

## Main definitions

* `escapes`: The characters that are escaped, with their entities.
* `escapeWith`, `escape`: A text with entities for some of its characters.
* `resolveWith`: What is left of a text when the entities of a table are
  resolved.
* `IsEntity`, `Regular`: What entities and tables of them look like.
* `Tidy`: A text that is neither cut nor trimmed.

## Theorems

* `prefix_of_prefix_escape`: Escaping adds no occurrence of plain characters.
* `replaceAll_escape`: One entity is resolved, the others remain.
* `resolveWith_escape`: The same for a table without an ampersand.
* `resolve_escape`: What resolving makes of an escaped text.
* `resolveWith_eq_self_iff`: When resolving leaves a text alone.
* `text_escape`: What is read where an escaped text was written.
* `text_escape_iff`: When an escaped text comes back.
* `bracket_appears`: A text that does not.
-/

namespace Workflow

namespace Web

namespace Page

/-- Characters with the entities that stand for them. -/
abbrev Table := List (Char × List Char)

/-- The characters that are escaped, with their entities. -/
def escapes : Table :=
  [('&', "&amp;".toList), ('<', "&lt;".toList), ('>', "&gt;".toList), ('"', "&quot;".toList),
    ('\'', "&#39;".toList)]

/-- A text with the characters of a table written as their entities, each once
    and all at the same time. -/
def escapeWith (table : Table) (s : List Char) : List Char :=
  s.flatMap fun c => (table.lookup c).getD [c]

/-- A text with ampersands, brackets and quotes written as entities. -/
def escape (s : List Char) : List Char := escapeWith escapes s

/-- Resolves some entities, one after another. -/
def resolveWith (entities : List (List Char × List Char)) (cs : List Char) : List Char :=
  entities.foldl (fun cs entity => Text.replaceAll entity.1 entity.2 cs) cs

/-- The entities of a table, with what they stand for. -/
def entitiesOf (table : Table) : List (List Char × List Char) :=
  table.map fun entry => (entry.2, [entry.1])

/-- An entity begins with an ampersand and ends with a semicolon, and has neither
    in between. -/
def IsEntity (name : List Char) : Prop :=
  ∃ body, name = '&' :: (body ++ [';']) ∧ '&' ∉ body ∧ ';' ∉ body

/-- A table that gives different characters different entities, and in whose
    entities no character of the table follows the ampersand. -/
structure Regular (table : Table) : Prop where
  shaped : ∀ entry ∈ table, IsEntity entry.2
  keys : (table.map (·.1)).Nodup
  names : (table.map (·.2)).Nodup
  apart : ∀ entry ∈ table, ∀ other ∈ table, entry.1 ∉ other.2.tail

/-- A text that is neither cut nor trimmed: no blanks at its ends, and no three
    line breaks in a row. -/
structure Tidy (s : List Char) : Prop where
  starts : ∀ c ∈ s.head?, Text.isBlank c = false
  ends : ∀ c ∈ s.getLast?, Text.isBlank c = false
  breaks : ¬ List.replicate 3 '\n' <:+: s

/-- A text with characters at its ends that are no blanks. -/
theorem tidy_of_ends {s : List Char} {first last : Char} (hfirst : s.head? = some first)
    (hlast : s.getLast? = some last) (hstarts : Text.isBlank first = false)
    (hends : Text.isBlank last = false) (hbreaks : ¬ List.replicate 3 '\n' <:+: s) : Tidy s where
  starts := fun c hc => by
    rw [hfirst, Option.mem_some_iff] at hc
    rw [← hc]
    exact hstarts
  ends := fun c hc => by
    rw [hlast, Option.mem_some_iff] at hc
    rw [← hc]
    exact hends
  breaks := hbreaks

/-- What is escaped is resolved, and blanks are resolved that are not escaped. -/
theorem entities_eq : entities = entitiesOf escapes ++ [("&nbsp;".toList, [' '])] := rfl

theorem regular_escapes : Regular escapes where
  shaped := by
    intro entry hentry
    simp only [escapes, List.mem_cons, List.not_mem_nil, or_false] at hentry
    rcases hentry with rfl | rfl | rfl | rfl | rfl
    · exact ⟨"amp".toList, rfl, by decide, by decide⟩
    · exact ⟨"lt".toList, rfl, by decide, by decide⟩
    · exact ⟨"gt".toList, rfl, by decide, by decide⟩
    · exact ⟨"quot".toList, rfl, by decide, by decide⟩
    · exact ⟨"#39".toList, rfl, by decide, by decide⟩
  keys := by decide
  names := by decide
  apart := by decide

theorem Regular.tail {entry : Char × List Char} {table : Table} (h : Regular (entry :: table)) :
    Regular table where
  shaped := fun e he => h.shaped e (List.mem_cons_of_mem _ he)
  keys := (List.nodup_cons.mp h.keys).2
  names := (List.nodup_cons.mp h.names).2
  apart := fun e he f hf => h.apart e (List.mem_cons_of_mem _ he) f (List.mem_cons_of_mem _ hf)

theorem mem_of_lookup {table : Table} {c : Char} {name : List Char}
    (h : table.lookup c = some name) : (c, name) ∈ table := by
  rcases List.lookup_eq_some_iff.mp h with ⟨before, after, heq, _⟩
  rw [heq]
  exact List.mem_append_right before List.mem_cons_self

theorem lookup_eq_none {table : Table} {c : Char} (h : ∀ entry ∈ table, entry.1 ≠ c) :
    table.lookup c = none := by
  rw [List.lookup_eq_none_iff]
  intro entry hentry
  rw [bne_iff_ne]
  exact (h entry hentry).symm

theorem lookup_cons_of_ne {c d : Char} (name : List Char) (table : Table) (hc : c ≠ d) :
    ((d, name) :: table : Table).lookup c = table.lookup c := by
  rw [List.lookup_cons, beq_eq_false_iff_ne.mpr hc]

theorem escapeWith_nil (table : Table) : escapeWith table [] = [] := rfl

theorem escapeWith_cons (table : Table) (c : Char) (rest : List Char) :
    escapeWith table (c :: rest) = escapeWith table [c] ++ escapeWith table rest := by
  rw [escapeWith, escapeWith, escapeWith, List.flatMap_cons, List.flatMap_singleton]

theorem escapeWith_plain {table : Table} {c : Char} (hc : table.lookup c = none)
    (rest : List Char) : escapeWith table (c :: rest) = c :: escapeWith table rest := by
  rw [escapeWith, List.flatMap_cons, hc]
  rfl

theorem escapeWith_key {table : Table} {c : Char} {name : List Char}
    (hc : table.lookup c = some name) (rest : List Char) :
    escapeWith table (c :: rest) = name ++ escapeWith table rest := by
  rw [escapeWith, List.flatMap_cons, hc]
  rfl

theorem escapeWith_append {table : Table} {xs : List Char} (hxs : ∀ c ∈ xs, table.lookup c = none)
    (rest : List Char) : escapeWith table (xs ++ rest) = xs ++ escapeWith table rest := by
  induction xs with
  | nil => rfl
  | cons c xs ih =>
      rw [List.cons_append, escapeWith_plain (hxs c List.mem_cons_self),
        ih fun d hd => hxs d (List.mem_cons_of_mem c hd)]
      rfl

/-- What escaping puts in begins with an ampersand, so it adds no occurrence of
    characters without one. -/
theorem prefix_of_prefix_escape {table : Table} (hshaped : ∀ entry ∈ table, IsEntity entry.2)
    {body : List Char} (hbody : '&' ∉ body) (rest : List Char)
    (h : body <+: escapeWith table rest) : body <+: rest := by
  induction body generalizing rest with
  | nil => exact List.nil_prefix
  | cons d body ih =>
      rw [List.mem_cons, not_or] at hbody
      cases rest with
      | nil => exact h
      | cons c rest =>
          cases hc : table.lookup c with
          | none =>
              rw [escapeWith_plain hc, List.cons_prefix_cons] at h
              exact List.cons_prefix_cons.mpr ⟨h.1, ih hbody.2 rest h.2⟩
          | some name =>
              -- What stands for the character begins with an ampersand, and the body has none.
              rcases hshaped _ (mem_of_lookup hc) with ⟨inner, hname, _⟩
              rw [escapeWith_key hc, show name = _ from hname, List.cons_append,
                List.cons_prefix_cons] at h
              exact absurd h.1.symm hbody.1

theorem IsEntity.ne_nil {name : List Char} (h : IsEntity name) : name ≠ [] := by
  rcases h with ⟨body, rfl, _⟩
  exact List.cons_ne_nil _ _

/-- No entity is the beginning of another one. -/
theorem IsEntity.eq_of_prefix {name other rest : List Char} (hname : IsEntity name)
    (hother : IsEntity other) (h : name <+: other ++ rest) : name = other := by
  rcases hname with ⟨body, rfl, _, hbody⟩
  rcases hother with ⟨body', rfl, _, hbody'⟩
  rcases h with ⟨tail, htail⟩
  simp only [List.cons_append, List.append_assoc, List.cons.injEq, true_and] at htail
  rw [(Text.first_unique hbody hbody' htail).1]

/-- An entity stays when another one is resolved. -/
theorem replaceAll_entity {name other replacement : List Char} (hname : IsEntity name)
    (hother : IsEntity other) (hne : name ≠ other) (rest : List Char) :
    Text.replaceAll name replacement (other ++ rest) =
      other ++ Text.replaceAll name replacement rest := by
  have hprefix : ¬ name <+: other ++ rest := fun h => hne (hname.eq_of_prefix hother h)
  rcases hname with ⟨body, rfl, _⟩
  rcases hother with ⟨body', rfl, hamp, _⟩
  have hinner : '&' ∉ body' ++ [';'] := by
    rw [List.mem_append, not_or]
    exact ⟨hamp, by decide⟩
  rw [List.cons_append] at hprefix ⊢
  rw [Text.replaceAll_cons hprefix, Text.replaceAll_append hinner]
  rfl

section Resolving

variable {d : Char} {name : List Char} {table : Table} (h : Regular ((d, name) :: table))

include h

theorem lookup_head : table.lookup d = none := by
  refine lookup_eq_none fun entry hentry heq => ?_
  exact (List.nodup_cons.mp h.keys).1 (List.mem_map.mpr ⟨entry, hentry, heq⟩)

/-- Where the other entities of a table stand, nothing is resolved. -/
theorem replaceAll_other {c : Char} {other : List Char} (hc : table.lookup c = some other)
    (rest : List Char) : Text.replaceAll name [d] (other ++ rest) =
      other ++ Text.replaceAll name [d] rest := by
  have hmem := mem_of_lookup hc
  refine replaceAll_entity (h.shaped _ List.mem_cons_self) (h.tail.shaped _ hmem) ?_ rest
  intro heq
  exact (List.nodup_cons.mp h.names).1 (List.mem_map.mpr ⟨_, hmem, heq.symm⟩)

/-- One character of an escaped text: the entity is resolved where it stands for
    the character, and every other character is left as it is escaped. -/
theorem replaceAll_escape_cons (c : Char) (rest : List Char)
    (hplain : c ≠ d → ¬ name <+: c :: escapeWith ((d, name) :: table) rest) :
    Text.replaceAll name [d] (escapeWith ((d, name) :: table) (c :: rest)) =
      escapeWith table [c] ++ Text.replaceAll name [d] (escapeWith ((d, name) :: table) rest) := by
  have hentity : IsEntity name := h.shaped (d, name) List.mem_cons_self
  by_cases hc : c = d
  · rw [hc, escapeWith_key List.lookup_cons_self, Text.replaceAll_pattern hentity.ne_nil,
      escapeWith_plain (lookup_head h)]
    rfl
  -- Another character is escaped by the rest of the table, or not at all.
  · have hlookup := lookup_cons_of_ne name table hc
    cases hother : table.lookup c with
    | some other =>
        rw [escapeWith_key (hlookup.trans hother), replaceAll_other h hother,
          escapeWith_key hother, escapeWith_nil, List.append_nil]
    | none =>
        rw [escapeWith_plain (hlookup.trans hother), Text.replaceAll_cons (hplain hc),
          escapeWith_plain hother]
        rfl

/-- When the ampersand itself is escaped, its entity occurs only where it was
    put in, and resolving it leaves what escaping the other characters gives. -/
theorem replaceAll_escape_ampersand (hd : d = '&') (s : List Char) :
    Text.replaceAll name [d] (escapeWith ((d, name) :: table) s) = escapeWith table s := by
  induction s with
  | nil => rfl
  | cons c rest ih =>
      have hplain : c ≠ d → ¬ name <+: c :: escapeWith ((d, name) :: table) rest := by
        intro hc hstart
        rcases h.shaped (d, name) List.mem_cons_self with ⟨body, hname, _⟩
        rw [show name = _ from hname, List.cons_prefix_cons] at hstart
        exact hc (hstart.1.symm.trans hd.symm)
      rw [replaceAll_escape_cons h c rest hplain, ih, ← escapeWith_cons]

/-- When the ampersand is not escaped, an entity also occurs where the text says
    so. It is resolved there as it would be in the text. -/
theorem replaceAll_escape (hamp : ((d, name) :: table : Table).lookup '&' = none)
    (s : List Char) : Text.replaceAll name [d] (escapeWith ((d, name) :: table) s) =
      escapeWith table (Text.replaceAll name [d] s) := by
  have hentity : IsEntity name := h.shaped (d, name) List.mem_cons_self
  have hne := hentity.ne_nil
  rcases hentity with ⟨body, rfl, hbody, _⟩
  have hinner : '&' ∉ body ++ [';'] := by
    rw [List.mem_append, not_or]
    exact ⟨hbody, by decide⟩
  induction s using Text.replace_induction hne with
  | empty => rfl
  | occurrence rest ih =>
      -- No character of the entity is escaped itself.
      have hkept : ∀ c ∈ '&' :: (body ++ [';']),
          List.lookup c ((d, '&' :: (body ++ [';'])) :: table) = none := by
        intro c hc
        rcases List.mem_cons.mp hc with rfl | hc
        · exact hamp
        · exact lookup_eq_none fun entry hentry heq =>
            h.apart entry hentry _ List.mem_cons_self (heq ▸ hc)
      rw [escapeWith_append hkept, Text.replaceAll_pattern hne, ih,
        Text.replaceAll_pattern hne, List.singleton_append, List.singleton_append,
        escapeWith_plain (lookup_head h)]
  | character c rest hnone ih =>
      rw [replaceAll_escape_cons h c rest ?_, ih, Text.replaceAll_cons hnone, ← escapeWith_cons]
      intro _ hstart
      rw [List.cons_prefix_cons] at hstart hnone
      exact hnone ⟨hstart.1, prefix_of_prefix_escape h.shaped hinner rest hstart.2⟩

end Resolving

/-- Resolving the entities of a table after escaping does the same as resolving
    them in the text itself, when the ampersand is not escaped. -/
theorem resolveWith_escape {table : Table} (h : Regular table) (hamp : table.lookup '&' = none)
    (s : List Char) : resolveWith (entitiesOf table) (escapeWith table s) =
      resolveWith (entitiesOf table) s := by
  induction table generalizing s with
  | nil => exact congrArg (resolveWith []) (List.flatMap_singleton' s)
  | cons entry table ih =>
      rcases entry with ⟨d, name⟩
      have hd : '&' ≠ d := by
        intro heq
        rw [heq, List.lookup_cons_self] at hamp
        exact Option.some_ne_none _ hamp
      have hrest := (lookup_cons_of_ne name table hd).symm.trans hamp
      calc resolveWith (entitiesOf ((d, name) :: table)) (escapeWith ((d, name) :: table) s)
          = resolveWith (entitiesOf table) (escapeWith table (Text.replaceAll name [d] s)) :=
            congrArg (resolveWith (entitiesOf table)) (replaceAll_escape h hamp s)
        _ = resolveWith (entitiesOf table) (Text.replaceAll name [d] s) := ih h.tail hrest _

theorem resolveWith_append (entities others : List (List Char × List Char)) (cs : List Char) :
    resolveWith (entities ++ others) cs = resolveWith others (resolveWith entities cs) :=
  List.foldl_append

/-- An escaped text is resolved as the text would be if there were no entity for
    the ampersand. -/
theorem resolve_escape (s : List Char) : resolve (escape s) = resolveWith entities.tail s := by
  have hfirst : Text.replaceAll "&amp;".toList ['&'] (escape s) = escapeWith escapes.tail s :=
    replaceAll_escape_ampersand regular_escapes rfl s
  have hothers : entities.tail = entitiesOf escapes.tail ++ [("&nbsp;".toList, [' '])] :=
    congrArg List.tail entities_eq
  calc resolve (escape s)
      = resolveWith entities.tail (Text.replaceAll "&amp;".toList ['&'] (escape s)) := rfl
    _ = resolveWith [("&nbsp;".toList, [' '])]
          (resolveWith (entitiesOf escapes.tail) (escapeWith escapes.tail s)) := by
        rw [hfirst, hothers, resolveWith_append]
    _ = resolveWith [("&nbsp;".toList, [' '])] (resolveWith (entitiesOf escapes.tail) s) :=
        congrArg _ (resolveWith_escape regular_escapes.tail rfl s)
    _ = resolveWith entities.tail s := by rw [hothers, resolveWith_append]

section Entities

variable (entities : List (List Char × List Char))
  (hshorter : ∀ entity ∈ entities, entity.2.length < entity.1.length)

include hshorter

/-- Resolving makes a text shorter, unless it speaks of none of the entities. -/
theorem length_resolveWith (cs : List Char) : (resolveWith entities cs).length ≤ cs.length ∧
    ((resolveWith entities cs).length = cs.length → ∀ entity ∈ entities, ¬ entity.1 <:+: cs) := by
  induction entities generalizing cs with
  | nil => exact ⟨Nat.le_refl _, fun _ _ h => absurd h List.not_mem_nil⟩
  | cons entity entities ih =>
      have hlt := hshorter entity List.mem_cons_self
      rcases Text.length_replaceAll hlt cs with ⟨hle, hless⟩
      rcases ih (fun e he => hshorter e (List.mem_cons_of_mem _ he))
        (Text.replaceAll entity.1 entity.2 cs) with ⟨hrest, hnone⟩
      refine ⟨Nat.le_trans hrest hle, fun heq => ?_⟩
      rw [resolveWith, List.foldl_cons, ← resolveWith] at heq
      -- The first entity cannot have made it shorter, so it is not there, and
      -- the others look at the text itself.
      have habsent : ¬ entity.1 <:+: cs := fun hinfix => by
        have hshort := hless hinfix
        omega
      rw [(Text.replaceAll_eq_self_iff hlt cs).mpr habsent] at heq hnone
      rw [List.forall_mem_cons]
      exact ⟨habsent, hnone heq⟩

/-- Resolving leaves a text alone when it speaks of none of the entities. -/
theorem resolveWith_eq_self_iff (cs : List Char) :
    resolveWith entities cs = cs ↔ ∀ entity ∈ entities, ¬ entity.1 <:+: cs := by
  constructor
  · exact fun heq => (length_resolveWith entities hshorter cs).2 (congrArg List.length heq)
  · intro hnone
    induction entities with
    | nil => rfl
    | cons entity entities ih =>
        rw [List.forall_mem_cons] at hnone hshorter
        have hkept := (Text.replaceAll_eq_self_iff hshorter.1 cs).mpr hnone.1
        rw [resolveWith, List.foldl_cons, hkept]
        exact ih hshorter.2 hnone.2

end Entities

/-- No bracket is left in an escaped text. -/
theorem bracket_not_mem_escape (s : List Char) : '<' ∉ escape s := by
  rw [escape, escapeWith, List.mem_flatMap]
  rintro ⟨c, _, hc⟩
  cases hlookup : escapes.lookup c with
  | none =>
      rw [hlookup, Option.getD_none, List.mem_singleton] at hc
      rw [← hc] at hlookup
      exact Option.some_ne_none _ hlookup
  | some name =>
      rw [hlookup, Option.getD_some] at hc
      have hnames : ∀ entry ∈ escapes, '<' ∉ entry.2 := by decide
      exact hnames _ (mem_of_lookup hlookup) hc

/-- Only a bracket is a bracket in another case. -/
theorem sameLetter_bracket {c : Char} (hc : c ≠ '<') : sameLetter '<' c = false := by
  have hlower : c.toLower ≠ '<' := by
    intro heq
    delta Char.toLower at heq
    split at heq
    · rename_i hupper
      have hval : c.val + 32 = 60 := congrArg Char.val heq
      have hlow : 65 ≤ c.val := hupper.1
      grind
    · exact hc heq
  rw [sameLetter, decide_eq_false hlower]
  rfl

/-- There is no element in a text without brackets. -/
theorem dropBlocks_eq_self (name : List Char) {cs : List Char} (hcs : '<' ∉ cs) :
    dropBlocks name cs = cs := by
  refine skip_eq_self (fun c rest hc => ?_) cs.length hcs
  rw [afterBlock, afterName, sameLetter_bracket hc]
  rfl

/-- There is no tag in a text without brackets. -/
theorem dropTags_eq_self {cs : List Char} (hcs : '<' ∉ cs) : dropTags cs = cs := by
  refine skip_eq_self (fun c rest hc => ?_) cs.length hcs
  rw [afterTag]
  rintro _ _ heq
  exact hc (List.cons.inj heq).1

/-- An escaped text is read as the text is, without markup, if there were no
    entity for the ampersand. -/
theorem text_escape (s : List Char) :
    text (escape s) = Text.trim (cutBreaks (resolveWith entities.tail s)) := by
  have hnone := bracket_not_mem_escape s
  rw [text, dropBlocks_eq_self _ hnone, dropBlocks_eq_self _ hnone, dropTags_eq_self hnone,
    resolve_escape]

theorem Tidy.text_eq {s : List Char} (h : Tidy s) : Text.trim (cutBreaks s) = s := by
  rw [cutBreaks_eq_self h.breaks, Text.trim, Text.dropEnds_tidy h.starts h.ends]

/-- An escaped text comes back exactly when it does not speak of an entity other
    than that for the ampersand. -/
theorem text_escape_iff (s : List Char) (h : Tidy s) :
    text (escape s) = s ↔ ∀ entity ∈ entities.tail, ¬ entity.1 <:+: s := by
  have hshorter : ∀ entity ∈ entities.tail, entity.2.length < entity.1.length := by decide
  rw [text_escape, ← resolveWith_eq_self_iff _ hshorter]
  constructor
  -- Cutting and trimming make nothing longer, so resolving made nothing shorter.
  · intro heq
    have hlength : (resolveWith entities.tail s).length = s.length := by
      refine Nat.le_antisymm (length_resolveWith _ hshorter s).1 ?_
      calc s.length = (Text.trim (cutBreaks (resolveWith entities.tail s))).length := by rw [heq]
        _ ≤ (cutBreaks (resolveWith entities.tail s)).length := Text.length_dropEnds_le _ _
        _ ≤ (resolveWith entities.tail s).length := length_cutBreaks_le _
    have hnone := (length_resolveWith _ hshorter s).2 hlength
    exact (resolveWith_eq_self_iff _ hshorter s).mpr hnone
  · intro heq
    rw [heq, h.text_eq]

/-- A text with all that is escaped, and with the entity that does come back. -/
def recipe : List Char := "Fish & \"chips\" < 'n' > peas\n\n(write &amp; for &)".toList

theorem text_escape_recipe : Tidy recipe ∧ text (escape recipe) = recipe := by
  have htidy : Tidy recipe := tidy_of_ends rfl rfl rfl rfl (by decide +kernel)
  have hnone : ∀ entity ∈ entities.tail, ¬ entity.1 <:+: recipe := by decide +kernel
  exact ⟨htidy, (text_escape_iff recipe htidy).mpr hnone⟩

/-- The entity for a bracket becomes a bracket, although it was escaped. -/
theorem bracket_appears : Tidy "&lt;".toList ∧ escape "&lt;".toList = "&amp;lt;".toList ∧
    text (escape "&lt;".toList) = ['<'] ∧ text (escape "&lt;".toList) ≠ "&lt;".toList :=
  ⟨tidy_of_ends rfl rfl rfl rfl (by decide), by decide, by decide, by decide⟩

end Page

end Web

end Workflow
