/-
# Hexadecimal text

Natural numbers and bytes in base sixteen.
-/

namespace SsaCompiler.Text

/-- A digit below sixteen, with small or capital letters. -/
def hexDigit (capital : Bool) (d : Nat) : Char :=
  if d < 10 then Char.ofNat (48 + d)
  else Char.ofNat ((if capital then 55 else 87) + d)

/-- The base sixteen digits of a number below `16 ^ n`, most significant first and
without leading zeros; the empty list for zero. -/
def hexDigits (capital : Bool) : Nat → Nat → List Char → List Char
  | 0, _, acc => acc
  | n + 1, v, acc =>
    if v = 0 then acc else hexDigits capital n (v / 16) (hexDigit capital (v % 16) :: acc)

/-- A number in base sixteen. -/
def hex (capital : Bool) (v : Nat) : String :=
  if v = 0 then "0" else String.ofList (hexDigits capital (v.log2 + 1) v [])

/-- An address: base sixteen with small letters behind a mark. -/
def address (v : UInt64) : String := "0x" ++ hex false v.toNat

/-- A byte as two capital base sixteen digits. -/
def hexByte (b : UInt8) : String :=
  String.ofList [hexDigit true (b.toNat / 16), hexDigit true (b.toNat % 16)]

/-- The value of a base sixteen digit with small letters. -/
def hexValue? (c : Char) : Option Nat :=
  if '0' ≤ c ∧ c ≤ '9' then some (c.toNat - 48)
  else if 'a' ≤ c ∧ c ≤ 'f' then some (c.toNat - 87)
  else none

/-- The number that base sixteen digits stand for. -/
def ofHex? (digits : List Char) : Option Nat :=
  (digits.mapM hexValue?).map fun ds => ds.foldl (fun n d => n * 16 + d) 0

end SsaCompiler.Text
