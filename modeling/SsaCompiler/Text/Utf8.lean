/-
# UTF-8

Texts are stored in memory as bytes. Reading them back never fails: every maximal
piece that cannot be continued to a well-formed character is replaced by one
replacement character.
-/

import SsaCompiler.Crash

namespace SsaCompiler.Text

/-- The character that stands for bytes that are no text. -/
def replacement : Char := Char.ofNat 0xFFFD

/-- What a lead byte promises: the number of bytes to follow, the payload of the lead
byte and the range of the second byte. -/
structure Lead where
  /-- The number of continuation bytes. -/
  following : Nat
  /-- The payload bits of the lead byte. -/
  payload : Nat
  /-- The least second byte. -/
  low : Nat
  /-- The greatest second byte. -/
  high : Nat

/-- The promise of a lead byte outside ASCII, none for a byte that starts no
character. The ranges of the second byte keep out overlong forms, surrogates and code
points that are too large. -/
def lead? (b : Nat) : Option Lead :=
  if 0xC2 ≤ b ∧ b ≤ 0xDF then some ⟨1, b - 0xC0, 0x80, 0xBF⟩
  else if b = 0xE0 then some ⟨2, 0, 0xA0, 0xBF⟩
  else if b = 0xED then some ⟨2, 0xD, 0x80, 0x9F⟩
  else if 0xE1 ≤ b ∧ b ≤ 0xEF then some ⟨2, b - 0xE0, 0x80, 0xBF⟩
  else if b = 0xF0 then some ⟨3, 0, 0x90, 0xBF⟩
  else if 0xF1 ≤ b ∧ b ≤ 0xF3 then some ⟨3, b - 0xF0, 0x80, 0xBF⟩
  else if b = 0xF4 then some ⟨3, 4, 0x80, 0x8F⟩
  else none

/-- Where a decoder stands: between characters, or inside one of which `missing` bytes
are still to come. -/
inductive DecodeState where
  | between
  | inside (missing payload low high : Nat)

/-- The state and the characters after a byte that stands at the start of a
character. -/
def decodeFirst (b : Nat) : DecodeState × List Char :=
  if b < 0x80 then (.between, [Char.ofNat b])
  else match lead? b with
    | some l => (.inside l.following l.payload l.low l.high, [])
    | none => (.between, [replacement])

/-- The characters that a list of bytes spells, from a given state. A byte that cannot
continue the character begun before it closes that character off and is read afresh. -/
def decodeFrom : DecodeState → List UInt8 → List Char
  | .between, [] => []
  | .inside .., [] => [replacement]
  | .between, b :: rest =>
    let (state, out) := decodeFirst b.toNat
    out ++ decodeFrom state rest
  | .inside missing payload low high, b :: rest =>
    if low ≤ b.toNat ∧ b.toNat ≤ high then
      let payload := payload * 64 + (b.toNat - 0x80)
      if missing = 1 then Char.ofNat payload :: decodeFrom .between rest
      else decodeFrom (.inside (missing - 1) payload 0x80 0xBF) rest
    else
      let (state, out) := decodeFirst b.toNat
      replacement :: (out ++ decodeFrom state rest)

/-- The text that bytes spell. -/
def decode (bytes : List UInt8) : String := String.ofList (decodeFrom .between bytes)

/-- The bytes of a text. -/
def encode (s : String) : List UInt8 := s.toUTF8.toList

/-- The characters of a list that fit into `n` bytes; crashes when the limit falls
inside a character. -/
def takeBytes : Nat → List Char → Checked (List Char)
  | _, [] => .ok []
  | 0, _ :: _ => .ok []
  | n + 1, c :: rest =>
    if n + 1 < c.utf8Size then .error .splitCharacter
    else do return c :: (← takeBytes (n + 1 - c.utf8Size) rest)

/-- A text cut down to at most `n` bytes. -/
def truncate (s : String) (n : Nat) : Checked String := do
  return String.ofList (← takeBytes n s.toList)

end SsaCompiler.Text
