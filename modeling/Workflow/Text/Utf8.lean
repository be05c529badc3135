/-!
# UTF-8 Texts

Decoding bytes into characters. A run of bytes that cannot be continued to a
character counts as one fault, and decoding goes on at the byte that showed
the fault. A strict reader refuses a text with a fault, a lenient one puts
U+FFFD in its place.

## Main definitions

* `Lead`: What a first byte promises: how many bytes follow, and in which
  range the next one lies.
* `scan`: The characters of a byte string, with the faults between them.
* `decode?`: The characters of a byte string without faults.
* `decodeLenient`: The characters, with U+FFFD for every fault.
* `bytesOfHex?`: Bytes from their hexadecimal digits.
-/

namespace Workflow

namespace Text

namespace Utf8

/-- An unfinished character: the bytes it still needs, the range of the next
    one, and the bits read so far. -/
structure Lead where
  missing : Nat
  low : Nat
  high : Nat
  bits : Nat

/-- What a first byte promises: a whole character, an unfinished one, or
    nothing that starts a character. -/
def ofFirst (b : Nat) : Option (Char ⊕ Lead) :=
  if b < 0x80 then some (.inl (Char.ofNat b))
  else if 0xC2 ≤ b && b ≤ 0xDF then some (.inr ⟨1, 0x80, 0xBF, b % 0x20⟩)
  else if b == 0xE0 then some (.inr ⟨2, 0xA0, 0xBF, 0⟩)
  else if b == 0xED then some (.inr ⟨2, 0x80, 0x9F, b % 0x10⟩)
  else if 0xE1 ≤ b && b ≤ 0xEF then some (.inr ⟨2, 0x80, 0xBF, b % 0x10⟩)
  else if b == 0xF0 then some (.inr ⟨3, 0x90, 0xBF, 0⟩)
  else if 0xF1 ≤ b && b ≤ 0xF3 then some (.inr ⟨3, 0x80, 0xBF, b % 8⟩)
  else if b == 0xF4 then some (.inr ⟨3, 0x80, 0x8F, b % 8⟩)
  else none

/-- The characters of a byte string; `none` stands for a fault. The first
    argument is the character that the last bytes began. -/
def scan : Option Lead → List UInt8 → List (Option Char)
  | none, [] => []
  | some _, [] => [none]
  | pending, byte :: rest =>
      let b := byte.toNat
      -- A byte outside the promised range ends the unfinished character as a
      -- fault and is read again as a first byte.
      let restart : List (Option Char) :=
        match ofFirst b with
        | none => none :: scan none rest
        | some (.inl c) => some c :: scan none rest
        | some (.inr lead) => scan (some lead) rest
      match pending with
      | none => restart
      | some lead =>
          if lead.low ≤ b && b ≤ lead.high then
            let bits := lead.bits * 0x40 + b % 0x40
            if lead.missing ≤ 1 then some (Char.ofNat bits) :: scan none rest
            else scan (some ⟨lead.missing - 1, 0x80, 0xBF, bits⟩) rest
          else none :: restart

/-- The characters of a byte string without faults. -/
def decode? (bytes : List UInt8) : Option (List Char) :=
  (scan none bytes).mapM id

/-- The characters of a byte string, with U+FFFD for every fault. -/
def decodeLenient (bytes : List UInt8) : List Char :=
  (scan none bytes).map fun found => found.getD (Char.ofNat 0xFFFD)

end Utf8

/-- The value of a hexadecimal digit. -/
def hexValue? (c : Char) : Option Nat :=
  if '0' ≤ c && c ≤ '9' then some (c.toNat - 48)
  else if 'a' ≤ c && c ≤ 'f' then some (c.toNat - 87)
  else if 'A' ≤ c && c ≤ 'F' then some (c.toNat - 55)
  else none

/-- Bytes from pairs of hexadecimal digits. -/
def bytesOfHex? : List Char → Option (List UInt8)
  | [] => some []
  | [_] => none
  | a :: b :: rest => do
      let high ← hexValue? a
      let low ← hexValue? b
      let bytes ← bytesOfHex? rest
      return UInt8.ofNat (high * 16 + low) :: bytes

end Text

end Workflow
