/-
# Formatted output

A format is read one character at a time. Outside conversions a character stands for
itself; a percent sign starts a conversion, which may have flags, a width, a precision
and length marks before the letter that says what it does. The state between two
characters is one of six modes, so reading a format is a recursion on its characters.

Widths and precisions are machine words, but a number is written with at most 65535 places.
Lengths are counted in bytes, and a text that is cut off has to be cut between two
characters.
-/

import SsaCompiler.Machine.Memory

namespace SsaCompiler

/-- What a conversion asks for besides its letter. -/
structure FormatSpec where
  /-- Pad on the right. -/
  left : Bool
  /-- Pad numbers with zeros. -/
  zero : Bool
  /-- Mark numbers that are not negative with a plus. -/
  plus : Bool
  /-- Mark numbers that are not negative with a blank. -/
  space : Bool
  /-- The least number of bytes. -/
  width : Nat
  /-- The number of places, or the greatest number of bytes of a text. -/
  precision : Option Nat
  deriving DecidableEq, Repr, Inhabited

namespace FormatSpec

/-- A conversion that asks for nothing. -/
def plain : FormatSpec := ⟨false, false, false, false, 0, none⟩

/-- The sign in front of a number. -/
def sign (s : FormatSpec) (negative : Bool) : String :=
  if negative then "-" else if s.plus then "+" else if s.space then " " else ""

/-- The characters of a text, with zeros between its sign and the rest. -/
def zeroFilled (n : Nat) : List Char → List Char
  | [] => List.replicate n '0'
  | c :: rest =>
    if c = '-' ∨ c = '+' then c :: (List.replicate n '0' ++ rest)
    else List.replicate n '0' ++ c :: rest

/-- A text with `fill` more bytes: blanks on the right or on the left, or zeros behind the
sign of a number. -/
def filled (s : FormatSpec) (fill : Nat) (body : String) (numeric : Bool) : String :=
  if s.left then body ++ String.ofList (List.replicate fill ' ')
  else if s.zero && numeric then String.ofList (zeroFilled fill body.toList)
  else String.ofList (List.replicate fill ' ') ++ body

/-- A text brought to the width. What is filled in has a length that fits a signed word. -/
def pad (s : FormatSpec) (body : String) (numeric : Bool) : Checked String :=
  if body.utf8ByteSize ≥ s.width then .ok body
  else
    let fill := s.width - body.utf8ByteSize
    if fill < wordRange / 2 then .ok (s.filled fill body numeric) else .error .overflow

end FormatSpec

/-- Where the reader of a format stands. -/
inductive FormatMode where
  /-- Outside conversions. -/
  | text
  /-- Behind a percent sign and perhaps some flags. -/
  | flags (spec : FormatSpec)
  /-- Behind a digit of the width. -/
  | width (spec : FormatSpec)
  /-- Behind the point or a digit of the precision. -/
  | precision (spec : FormatSpec)
  /-- Behind a length mark. -/
  | length (spec : FormatSpec)

/-- What one character of a format amounts to. -/
inductive FormatStep where
  /-- The character stands for itself. -/
  | literal (c : Char)
  /-- The reader goes on in a mode. -/
  | next (mode : FormatMode)
  /-- The character completes a conversion. -/
  | convert (spec : FormatSpec) (letter : Char)

/-- The value of a decimal digit. -/
def digitValue? (c : Char) : Option Nat :=
  if '0' ≤ c ∧ c ≤ '9' then some (c.toNat - 48) else none

/-- A number with one more decimal digit, as a machine word. -/
def appendDigit (n d : Nat) : Checked Nat := do
  let shifted ← Checked.word (n * 10)
  Checked.word (shifted + d)

namespace FormatStep

/-- A character where only length marks may come before the letter. -/
def afterNumbers (spec : FormatSpec) (c : Char) : FormatStep :=
  if c = 'l' ∨ c = 'h' ∨ c = 'z' then next (.length spec) else convert spec c

/-- A character where a precision may start. -/
def afterWidth (spec : FormatSpec) (c : Char) : FormatStep :=
  if c = '.' then next (.precision { spec with precision := some 0 }) else afterNumbers spec c

/-- A character where a width may go on or start. -/
def inWidth (spec : FormatSpec) (c : Char) : Checked FormatStep := do
  match digitValue? c with
  | some d => return next (.width { spec with width := ← appendDigit spec.width d })
  | none => return afterWidth spec c

/-- A character where a precision may go on. -/
def inPrecision (spec : FormatSpec) (c : Char) : Checked FormatStep := do
  match digitValue? c with
  | some d =>
    let p ← appendDigit (spec.precision.getD 0) d
    return next (.precision { spec with precision := some p })
  | none => return afterNumbers spec c

/-- A character where flags may come. -/
def inFlags (spec : FormatSpec) (c : Char) : Checked FormatStep :=
  if c = '-' then .ok (next (.flags { spec with left := true }))
  else if c = '0' then .ok (next (.flags { spec with zero := true }))
  else if c = '+' then .ok (next (.flags { spec with plus := true }))
  else if c = ' ' then .ok (next (.flags { spec with space := true }))
  else inWidth spec c

/-- What a character amounts to in a mode. -/
def ofChar : FormatMode → Char → Checked FormatStep
  | .text, c => .ok (if c = '%' then next (.flags .plain) else literal c)
  | .flags spec, c => inFlags spec c
  | .width spec, c => inWidth spec c
  | .precision spec, c => inPrecision spec c
  | .length spec, c => .ok (afterNumbers spec c)

end FormatStep

namespace Format

/-- A number of places after the point. Sixteen bits count them, for every number that is
written, also for those that have no places; beyond that writing crashes. -/
def places (n : Nat) : Checked Nat := if n < 65536 then .ok n else .error .overflow

/-- A number without exponent. -/
def fixedText (x : Double) (n : Nat) : Checked String := do
  return Text.fixed x (← places n)

/-- A number with one digit before the point and an exponent of at least two digits. What
is not finite has the exponent zero. -/
def exponentText (x : Double) (n : Nat) (capital : Bool) : Checked String := do
  let n ← places n
  let mark := if capital then "E" else "e"
  match Text.special? x with
  | some s => return s ++ mark ++ "+00"
  | none =>
    let d := Text.rounded x n
    let size := toString d.exponent.natAbs
    return Text.signText x ++ String.ofList (Text.pointed d.chars) ++ mark
      ++ (if d.exponent < 0 then "-" else "+") ++ (if size.length < 2 then "0" ++ size else size)

/-- Characters without zeros at the end and without a point that is left at the end, if
there is a point at all. -/
def stripZeros (cs : List Char) : List Char :=
  if cs.contains '.' then
    ((cs.reverse.dropWhile (· == '0')).dropWhile (· == '.')).reverse
  else cs

/-- A machine word as a signed number of thirty-two bits. -/
def toInt32 (n : Nat) : Int := (Int32.ofNat n).toInt

/-- The decimal exponent of a positive number by its logarithm, held to thirty-two bits;
zero for what is not a number. -/
def logExponent (x : Double) : Int :=
  let f := Float.floor (Float.log10 x.abs.toFloat)
  if f.isNaN then 0
  else
    let n := (Double.ofFloat f).toInt64.toInt
    max (-2147483648) (min 2147483647 n)

/-- A number in the shorter of the two notations, with a given number of digits and
without zeros at the end. -/
def generalText (x : Double) (digits : Nat) : Checked String := do
  let digits := max digits 1
  if x.isZero then return "0"
  let e := logExponent x
  if e < -4 ∨ e ≥ toInt32 digits then
    let body ← exponentText x (digits - 1) false
    let head := body.toList.takeWhile (· ≠ 'e')
    let tail := body.toList.dropWhile (· ≠ 'e')
    return String.ofList (stripZeros head ++ tail)
  else
    let body ← fixedText x (toInt32 digits - 1 - e).toNat
    return String.ofList (stripZeros body.toList)

/-- The next argument of a conversion. -/
def nextArg (letter : Char) : List Val → Fallible (Val × List Val)
  | [] => Fallible.fail (.badFormat (.missingArgument letter))
  | v :: rest => .ok (v, rest)

/-- An argument as a word. -/
def intArg (letter : Char) (v : Val) : Fallible Int64 :=
  match v.asInt? with
  | some i => .ok i
  | none => Fallible.fail (.badFormat (.expectsInteger letter v))

/-- An argument as a double; words are converted. -/
def floatArg (letter : Char) (v : Val) : Fallible Double :=
  match v with
  | .float x => .ok x
  | .int i => .ok (.ofInt64 i)
  | _ => Fallible.fail (.badFormat (.expectsDouble letter v))

/-- The text of a signed integer conversion. -/
def signedText (spec : FormatSpec) (v : Int64) : Checked String :=
  spec.pad (spec.sign (v.toInt < 0) ++ toString v.toInt.natAbs) true

/-- The text of a conversion of one argument. -/
def argText (mem : Memory) (spec : FormatSpec) (letter : Char) (v : Val) : Fallible String := do
  match letter with
  | 'd' | 'i' => signedText spec (← intArg letter v)
  | 'u' => spec.pad (toString (← intArg letter v).toUInt64.toNat) true
  | 'x' => spec.pad (Text.hex false (← intArg letter v).toUInt64.toNat) true
  | 'X' => spec.pad (Text.hex true (← intArg letter v).toUInt64.toNat) true
  | 'c' =>
    let code := (← intArg letter v).toUInt64.toNat % 256
    spec.pad (String.singleton (Char.ofNat code)) false
  | 's' =>
    match v.asPtr? with
    | none => Fallible.fail (.badFormat .expectsPointer)
    | some a =>
      let s ← mem.readText a
      match spec.precision with
      | some p => spec.pad (← Text.truncate s p) false
      | none => spec.pad s false
  | 'f' | 'F' =>
    let x ← floatArg letter v
    let body ← fixedText x.abs (spec.precision.getD 6)
    spec.pad (spec.sign (x.isNegative && !x.isZero) ++ body) true
  | 'e' | 'E' =>
    let body ← exponentText (← floatArg letter v) (spec.precision.getD 6) (letter = 'E')
    spec.pad body true
  | 'g' | 'G' =>
    let body ← generalText (← floatArg letter v) (spec.precision.getD 6)
    spec.pad body true
  | 'p' => spec.pad (Text.address (v.asPtr?.getD 0)) false
  | _ => Fallible.fail (.badFormat (.unsupported letter))

/-- Whether a letter is a conversion of an argument. -/
def takesArg (letter : Char) : Bool :=
  "diuxXcsfFeEgGp".toList.contains letter

/-- The text of a conversion and the arguments that are left. -/
def convert (mem : Memory) (spec : FormatSpec) (letter : Char) (args : List Val) :
    Fallible (String × List Val) := do
  if letter = '%' then return ("%", args)
  else if takesArg letter then
    let (v, rest) ← nextArg letter args
    return ((← argText mem spec letter v), rest)
  else Fallible.fail (.badFormat (.unsupported letter))

/-- The text of a format from a mode on, and the arguments that are left. -/
def textFrom (mem : Memory) : FormatMode → List Char → List Val →
    Fallible (List Char × List Val)
  | .text, [], args => .ok ([], args)
  | _, [], _ => Fallible.fail (.badFormat .dangling)
  | mode, c :: rest, args => do
    match ← FormatStep.ofChar mode c with
    | .literal c =>
      let (out, args) ← textFrom mem .text rest args
      return (c :: out, args)
    | .next mode => textFrom mem mode rest args
    | .convert spec letter =>
      let (piece, args) ← convert mem spec letter args
      let (out, args) ← textFrom mem .text rest args
      return (piece.toList ++ out, args)

/-- The text of a format with its arguments; arguments that are left over do not
matter. -/
def text (mem : Memory) (format : String) (args : List Val) : Fallible String := do
  let (out, _) ← textFrom mem .text format.toList args
  return String.ofList out

end Format

end SsaCompiler
