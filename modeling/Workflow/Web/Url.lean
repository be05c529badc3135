import Workflow.Text.Search
import Workflow.Text.Utf8

/-!
# URLs of Web Pages

Reading the URL of a page, alone or relative to another one. Reading is
lenient in the way browsers are: a backslash is as good as a slash, characters
that a URL cannot hold are percent-encoded, dot segments are taken out, and
line breaks are ignored. What cannot be repaired is refused: a URL without a
host, a number after the host that is out of range, a host with forbidden
characters.

Only what a request says is kept: who the user is, which part of the page is
meant, and by which number the host is reached are dropped.

## Main definitions

* `Host`, `Url`: Hosts and URLs.
* `Url.ofText?`: The URL of a text.
* `Url.join`: The URL of a text that stands on a page.
* `Url.target`: What a request asks the host for.
-/

namespace Workflow

namespace Web

/-- A host: an address, or a name that has to be looked up. -/
inductive Host
  | address (text : String)
  | name (text : String)
deriving DecidableEq, Repr, Inhabited

/-- The URL of a page. The segments of the path and the query are encoded. -/
structure Url where
  secure : Bool
  host : Host
  path : List (List Char)
  query : Option (List Char)
deriving DecidableEq, Repr, Inhabited

namespace Url

/-- Whether a character separates segments. -/
def isSlash (c : Char) : Bool := c = '/' || c = '\\'

/-- A hexadecimal digit, in upper case. -/
def upperHex (n : Nat) : Char := Char.ofNat (if n < 10 then 48 + n else 55 + n)

/-- A character as the percent-encoding of its bytes. -/
def percent (c : Char) : List Char :=
  (String.ofList [c]).toUTF8.toList.flatMap fun b =>
    ['%', upperHex (b.toNat / 16), upperHex (b.toNat % 16)]

/-- Encodes the characters of a class, and all that are not printable ASCII. -/
def encode (special : List Char) (cs : List Char) : List Char :=
  cs.flatMap fun c =>
    if c.toNat ≤ 32 || 126 < c.toNat || special.contains c then percent c else [c]

/-- Encodes a segment of a path. -/
def encodeSegment (cs : List Char) : List Char :=
  encode ['"', '#', '<', '>', '?', '\x60', '\x7b', '\x7d'] cs

/-- Encodes a query. -/
def encodeQuery (cs : List Char) : List Char := encode ['"', '#', '<', '>', '\''] cs

/-- The bytes that a text stands for when percent-encodings are resolved. -/
def decodeBytes : List Char → List UInt8
  | '%' :: a :: b :: rest =>
      match Text.hexValue? a, Text.hexValue? b with
      | some high, some low => UInt8.ofNat (high * 16 + low) :: decodeBytes rest
      | _, _ => 37 :: decodeBytes (a :: b :: rest)
  | c :: rest => (String.ofList [c]).toUTF8.toList ++ decodeBytes rest
  | [] => []
termination_by cs => cs.length

/-- Segments with a dot or two, in all their spellings. -/
def dots (cs : List Char) : Option Nat :=
  let plain := (Text.replaceAll "%2e".toList ['.'] (cs.map Char.toLower))
  if plain = ['.'] then some 1 else if plain = ['.', '.'] then some 2 else none

/-- Adds the segments of a path to those before it. A dot stays where it is and
    two dots go back; at the end of a path they leave an empty segment. -/
def addSegments (before : List (List Char)) : List (List Char) → List (List Char)
  | [] => before
  | [last] =>
      match dots last with
      | some 1 => before ++ [[]]
      | some _ => before.dropLast ++ [[]]
      | none => before ++ [encodeSegment last]
  | segment :: rest =>
      match dots segment with
      | some 1 => addSegments before rest
      | some _ => addSegments before.dropLast rest
      | none => addSegments (before ++ [encodeSegment segment]) rest

/-- The segments of a path as it is written. -/
def segments (cs : List Char) : List (List Char) :=
  Text.splitAt '/' (cs.map fun c => if isSlash c then '/' else c)

/-- What precedes the fragment, split at the query. -/
def splitQuery (cs : List Char) : List Char × Option (List Char) :=
  let cs := cs.takeWhile (· ≠ '#')
  match Text.splitFirst ['?'] cs with
  | some (path, query) => (path, some (encodeQuery query))
  | none => (cs, none)

/-- The number of a part of an address, in decimal, octal or hexadecimal. -/
def addressPart? (cs : List Char) : Option Nat :=
  let value (base : Nat) (digits : List Char) : Option Nat := do
    let values ← digits.mapM Text.hexValue?
    if values.all (· < base) then some (values.foldl (fun n d => n * base + d) 0) else none
  match cs with
  | [] => none
  | '0' :: x :: rest => if x = 'x' || x = 'X' then value 16 rest else value 8 (x :: rest)
  | _ => value 10 cs

/-- Whether a host name has to be an address, because it ends in a number. -/
def endsInNumber (labels : List (List Char)) : Bool :=
  let labels := if labels.getLast? = some [] then labels.dropLast else labels
  match labels.getLast? with
  | none => false
  | some last =>
      (!last.isEmpty && last.all Char.isDigit)
        || (match last with
          | '0' :: x :: _ => (x = 'x' || x = 'X') && (addressPart? last).isSome
          | _ => false)

/-- The number of an address with up to four parts, where the last part fills
    what the others leave. -/
def address? (labels : List (List Char)) : Option Nat := do
  let labels := if labels.getLast? = some [] && 1 < labels.length then labels.dropLast else labels
  if 4 < labels.length then none
  else
    let parts ← labels.mapM addressPart?
    let last ← parts.getLast?
    let front := parts.dropLast
    if front.all (· < 256) && last < Nat.pow 256 (5 - parts.length) then
      some (front.foldl (fun n p => n * 256 + p) 0 * Nat.pow 256 (5 - parts.length) + last)
    else none

/-- Whether the groups of an address in brackets are well formed, and how many
    there are. A dotted address at the end counts for two. -/
def groups? (cs : List Char) : Option Nat :=
  if cs.isEmpty then some 0
  else
    let parts := Text.splitAt ':' cs
    let isGroup (p : List Char) : Bool :=
      !p.isEmpty && p.length ≤ 4 && p.all fun c => (Text.hexValue? c).isSome
    let isDotted (p : List Char) : Bool :=
      let bytes := Text.splitAt '.' p
      bytes.length = 4 && bytes.all fun b =>
        !b.isEmpty && b.length ≤ 3 && b.all Char.isDigit
          && (b.length = 1 || b.head? ≠ some '0')
          && b.foldl (fun n c => n * 10 + (c.toNat - 48)) 0 < 256
    match parts.getLast? with
    | none => none
    | some last =>
        if !parts.dropLast.all isGroup then none
        else if isGroup last then some parts.length
        else if isDotted last then some (parts.length + 1)
        else none

/-- Whether a text between brackets is an address. -/
def isBracketAddress (cs : List Char) : Bool :=
  match Text.splitFirst [':', ':'] cs with
  | some (left, right) =>
      match groups? left, groups? right with
      | some m, some n => m + n ≤ 7 && !left.contains '.'
      | _, _ => false
  | none => groups? cs = some 8

/-- Characters that no host name holds. -/
def isForbidden (c : Char) : Bool :=
  c.toNat ≤ 32 || c.toNat = 127
    || ['#', '/', ':', '<', '>', '?', '@', '[', '\\', ']', '^', '|', '%'].contains c

/-- Characters that a host name may hold but a request may not. -/
def isUnsendable (c : Char) : Bool := ['"', '\x60', '\x7b', '\x7d'].contains c

/-- The host of a text. -/
def host? (cs : List Char) : Option Host :=
  match cs with
  | '[' :: rest => do
      if rest.getLast? ≠ some ']' then none
      else if isBracketAddress rest.dropLast then some (.address (String.ofList cs))
      else none
  | _ => do
      let name := (← Text.Utf8.decode? (decodeBytes cs)).map Char.toLower
      if name.isEmpty || name.any isForbidden || name.any isUnsendable then none
      else
        let labels := Text.splitAt '.' name
        if endsInNumber labels then
          (address? labels).map fun n =>
            .address (".".intercalate ([n / 16777216, n / 65536 % 256, n / 256 % 256,
              n % 256].map toString))
        else some (.name (String.ofList name))

/-- The host of an authority. The user before it is dropped, and so is the
    number after it, which has 16 bits. -/
def authority? (cs : List Char) : Option Host := do
  let cs := (cs.reverse.takeWhile (· ≠ '@')).reverse
  let (name, number) := match cs with
    | '[' :: _ => (cs.takeWhile (· ≠ ']') ++ (if cs.contains ']' then [']'] else []),
        (cs.dropWhile (· ≠ ']')).drop 1)
    | _ => (cs.takeWhile (· ≠ ':'), cs.dropWhile (· ≠ ':'))
  let host ← host? name
  match number with
  | [] => some host
  | ':' :: digits =>
      let n := digits.foldl (fun n c => n * 10 + (c.toNat - 48)) 0
      if digits.all Char.isDigit && n < 65536 then some host else none
  | _ => none

/-- The URL after its scheme and the slashes that follow it. -/
def afterScheme? (secure : Bool) (cs : List Char) : Option Url := do
  let isEnd (c : Char) : Bool := isSlash c || c = '?' || c = '#'
  let host ← authority? (cs.takeWhile fun c => !isEnd c)
  let (path, query) := splitQuery (cs.dropWhile fun c => !isEnd c)
  let written := segments path
  some ⟨secure, host, addSegments [] (if path.isEmpty then [[]] else written.drop 1), query⟩

/-- A text without blanks at its ends and without line breaks. -/
def clean (text : List Char) : List Char :=
  let isLow (c : Char) : Bool := c.toNat ≤ 32
  let trimmed := ((text.dropWhile isLow).reverse.dropWhile isLow).reverse
  trimmed.filter fun c => c ≠ '\t' && c ≠ '\n' && c ≠ '\r'

/-- The scheme that a text starts with, in lower case, and the rest. -/
def scheme? (cs : List Char) : Option (List Char × List Char) :=
  let isPart (c : Char) : Bool := c.isAlphanum || c = '+' || c = '-' || c = '.'
  match cs with
  | first :: _ =>
      match cs.dropWhile isPart with
      | ':' :: rest =>
          if first.isAlpha then some ((cs.takeWhile isPart).map Char.toLower, rest) else none
      | _ => none
  | [] => none

/-- What a text that is to be a URL turns out to be. -/
inductive Reading
  | page (url : Url)
  /-- A URL of something that is no web page. -/
  | foreign
  | malformed
deriving DecidableEq, Repr, Inhabited

/-- A reading that has to succeed. -/
def Reading.ofOption : Option Url → Reading
  | some url => .page url
  | none => .malformed

/-- The URL of a text. -/
def ofText? (text : String) : Option Url := do
  let (scheme, rest) ← scheme? (clean text.toList)
  if scheme = "http".toList then afterScheme? false (rest.dropWhile isSlash)
  else if scheme = "https".toList then afterScheme? true (rest.dropWhile isSlash)
  else none

/-- The URL of a text that has no scheme and stands on a page. -/
def relative? (base : Url) (cs : List Char) : Option Url :=
  match cs with
  | [] => some base
  | '#' :: _ => some base
  | '?' :: _ => some { base with query := (splitQuery cs).2 }
  | a :: rest =>
      if isSlash a then
        match rest with
        | b :: more =>
            if isSlash b then afterScheme? base.secure (more.dropWhile isSlash)
            else
              let (path, query) := splitQuery rest
              some { base with path := addSegments [] (segments path), query := query }
        | [] => some { base with path := [[]], query := none }
      else
        let (path, query) := splitQuery cs
        some { base with path := addSegments base.path.dropLast (segments path), query := query }

/-- The URL of a text that stands on a page. -/
def join (base : Url) (text : String) : Reading :=
  let cs := clean text.toList
  match scheme? cs with
  | none => .ofOption (base.relative? cs)
  | some (scheme, rest) =>
      let isHttp := scheme = "http".toList
      if isHttp || scheme = "https".toList then
        -- A URL with the scheme of the page but without slashes is relative.
        if isHttp != base.secure && (rest.takeWhile isSlash).length < 2 then
          .ofOption (base.relative? rest)
        else .ofOption (afterScheme? (!isHttp) (rest.dropWhile isSlash))
      else .foreign

/-- What a request asks the host for. -/
def target (u : Url) : String :=
  let path := u.path.flatMap fun segment => '/' :: segment
  String.ofList <| path ++ (match u.query with
    | some query => '?' :: query
    | none => [])

end Url

end Web

end Workflow
