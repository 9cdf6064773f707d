/-
# Blanks and counts

Blank characters around a text, and natural numbers as a user writes them.
-/

namespace SsaCompiler.Text

/-- Whether a character is blank: the controls that move the cursor, and every space,
line and paragraph separator. -/
def isBlank (c : Char) : Bool :=
  let n := c.toNat
  (9 ≤ n && n ≤ 13) || n == 0x20 || n == 0x85 || n == 0xA0 || n == 0x1680
    || (0x2000 ≤ n && n ≤ 0x200A) || n == 0x2028 || n == 0x2029 || n == 0x202F
    || n == 0x205F || n == 0x3000

/-- The characters between the blanks at both ends. -/
def trimBlanks (cs : List Char) : List Char :=
  ((cs.dropWhile isBlank).reverse.dropWhile isBlank).reverse

/-- The number that decimal digits stand for; none when another character is among
them. -/
def digitsValue? : Nat → List Char → Option Nat
  | acc, [] => some acc
  | acc, c :: rest =>
    if c.isDigit then digitsValue? (acc * 10 + (c.toNat - 48)) rest else none

/-- A count: at least one digit, behind a plus sign or none, and below a limit. -/
def count? (cs : List Char) (limit : Nat) : Option Nat :=
  let digits := match cs with
    | '+' :: rest => rest
    | cs => cs
  if digits.isEmpty then none
  else match digitsValue? 0 digits with
    | some n => if n < limit then some n else none
    | none => none

end SsaCompiler.Text
