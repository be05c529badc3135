import Workflow.Text.Blank
import Workflow.Text.Search

/-!
# Texts of Pages

What a page in HTML says. Scripts and styles are taken out with everything in
them, then every tag, then common entities are resolved, then long runs of
line breaks are cut to two, then the blanks at the ends are dropped.

Each step goes through the text once, from left to right, and does not look
again at what it has produced. Names of elements may be in any case; by the
rules of Unicode the long s is an s in another case.

## Main definitions

* `Page.dropBlocks`: Takes out an element with everything in it.
* `Page.dropTags`: Takes out tags.
* `Page.entities`: The entities that are resolved.
* `Page.cutBreaks`: Cuts runs of line breaks.
* `Page.text`: What a page says.
-/

namespace Workflow

namespace Web

namespace Page

/-- Whether a letter of a name is a character, in any case. -/
def sameLetter (letter c : Char) : Bool :=
  c.toLower = letter || (letter = 's' && c = '\u017f')

/-- What follows a name that a text starts with. -/
def afterName : List Char → List Char → Option (List Char)
  | [], cs => some cs
  | _ :: _, [] => none
  | letter :: name, c :: rest => if sameLetter letter c then afterName name rest else none

/-- What follows the first closing angle bracket. -/
def afterBracket : List Char → Option (List Char)
  | [] => none
  | '>' :: rest => some rest
  | _ :: rest => afterBracket rest

/-- What follows the first place where a name stands. -/
def afterFirst (name : List Char) : List Char → Option (List Char)
  | [] => afterName name []
  | c :: rest =>
      match afterName name (c :: rest) with
      | some after => some after
      | none => afterFirst name rest

/-- What follows an element that a text starts with: its opening tag up to the
    bracket, anything, and its first closing tag. -/
def afterBlock (name : List Char) (cs : List Char) : Option (List Char) := do
  let inTag ← afterName ('<' :: name) cs
  afterFirst ("</".toList ++ name ++ ['>']) (← afterBracket inTag)

/-- What follows a tag that a text starts with: a bracket, at least one other
    character, and the closing bracket. -/
def afterTag : List Char → Option (List Char)
  | '<' :: c :: rest => if c = '>' then none else afterBracket rest
  | _ => none

/-- Skips what a rule recognises, wherever it stands, and keeps the rest. The
    rule gives what follows; it is tried at each place that was not skipped. -/
def skip (after : List Char → Option (List Char)) : Nat → List Char → List Char
  | 0, cs => cs
  | _, [] => []
  | fuel + 1, c :: rest =>
      match after (c :: rest) with
      | some following => skip after fuel following
      | none => c :: skip after fuel rest

/-- Takes out the elements of a name with everything in them. -/
def dropBlocks (name : List Char) (cs : List Char) : List Char :=
  skip (afterBlock name) cs.length cs

/-- Takes out tags. -/
def dropTags (cs : List Char) : List Char := skip afterTag cs.length cs

/-- The entities that are resolved, in this order, and what they stand for. -/
def entities : List (List Char × List Char) :=
  [("&amp;".toList, ['&']), ("&lt;".toList, ['<']), ("&gt;".toList, ['>']),
    ("&quot;".toList, ['"']), ("&#39;".toList, ['\'']), ("&nbsp;".toList, [' '])]

/-- Resolves entities, one after another. -/
def resolve (cs : List Char) : List Char :=
  entities.foldl (fun cs entity => Text.replaceAll entity.1 entity.2 cs) cs

/-- Cuts runs of line breaks to two; `run` of them have been seen last. -/
def cutBreaksFrom (run : Nat) : List Char → List Char
  | [] => []
  | c :: rest =>
      if c = '\n' then
        if run < 2 then c :: cutBreaksFrom (run + 1) rest else cutBreaksFrom (run + 1) rest
      else c :: cutBreaksFrom 0 rest

/-- Cuts runs of line breaks to two. -/
def cutBreaks (cs : List Char) : List Char := cutBreaksFrom 0 cs

/-- What a page says. -/
def text (page : List Char) : List Char :=
  Text.trim <| cutBreaks <| resolve <| dropTags <| dropBlocks "style".toList <|
    dropBlocks "script".toList page

end Page

end Web

end Workflow
