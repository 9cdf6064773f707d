/-
# Double precision numbers

A double is kept as its 64-bit pattern. The pattern is plain data, so two doubles can
be compared for identity, and arithmetic is defined on patterns: it goes through the
hardware type except where a result is not a number. Then the first operand that is
not a number is handed on, made quiet, and a fresh one carries a set sign bit.
-/

import SsaCompiler.Crash
import SsaCompiler.Text.Radix

namespace SsaCompiler

/-- A double precision number, as its bit pattern. -/
structure Double where
  /-- The sign bit, eleven exponent bits and fifty-two fraction bits. -/
  bits : UInt64
  deriving DecidableEq, Repr, Inhabited

namespace Double

/-- Positive zero. -/
def zero : Double := ⟨0⟩

/-- What an invalid operation on numbers yields. -/
def invalid : Double := ⟨0xFFF8000000000000⟩

/-- The biased exponent. -/
def exponent (x : Double) : Nat := ((x.bits >>> 52) &&& 0x7FF).toNat

/-- The fraction bits. -/
def fraction (x : Double) : Nat := (x.bits &&& 0xFFFFFFFFFFFFF).toNat

/-- Whether the sign bit is set. -/
def isNegative (x : Double) : Bool := x.bits >>> 63 == 1

/-- Whether the pattern is not a number. -/
def isNaN (x : Double) : Bool := x.exponent == 2047 && x.fraction != 0

/-- Whether the pattern is one of the two infinities. -/
def isInfinite (x : Double) : Bool := x.exponent == 2047 && x.fraction == 0

/-- Whether the pattern is one of the two zeros. -/
def isZero (x : Double) : Bool := x.bits <<< 1 == 0

/-- The number without its sign. -/
def abs (x : Double) : Double := ⟨x.bits &&& 0x7FFFFFFFFFFFFFFF⟩

/-- The integer significand of a finite number. -/
def significand (x : Double) : Nat :=
  if x.exponent = 0 then x.fraction else x.fraction + 4503599627370496

/-- The power of two that scales the significand of a finite number. -/
def scale (x : Double) : Int :=
  if x.exponent = 0 then -1074 else (x.exponent : Int) - 1075

/-- The number as the hardware holds it. -/
def toFloat (x : Double) : Float := Float.ofBits x.bits

/-- The pattern of a hardware number; everything that is not a number has the pattern
of an invalid operation. -/
def ofFloat (f : Float) : Double := if f.isNaN then invalid else ⟨f.toBits⟩

/-- The quiet form of a pattern that is not a number. -/
def quiet (x : Double) : Double := ⟨x.bits ||| 0x0008000000000000⟩

/-- An operation of two operands, where the first operand that is not a number is the
result. -/
def lift (f : Float → Float → Float) (a b : Double) : Double :=
  if a.isNaN then a.quiet
  else if b.isNaN then b.quiet
  else ofFloat (f a.toFloat b.toFloat)

/-- The sum. -/
def add (a b : Double) : Double := lift (· + ·) a b

/-- The difference. -/
def sub (a b : Double) : Double := lift (· - ·) a b

/-- The product. -/
def mul (a b : Double) : Double := lift (· * ·) a b

/-- The quotient. -/
def div (a b : Double) : Double := lift (· / ·) a b

/-- Whether the pattern is not a number and not quiet. -/
def isSignaling (x : Double) : Bool := x.isNaN && x.quiet != x

/-- The number one. -/
def one : Double := ⟨0x3FF0000000000000⟩

/-- Whether the number is an odd integer: its significand ends in a one just before the
point. -/
def isOdd (x : Double) : Bool :=
  let places := (-x.scale).toNat
  x.scale ≤ 0 && x.significand % (1 <<< (places + 1)) == 1 <<< places

/-- The power, which is one for the exponent zero and for the base one whatever the
other operand is, unless that operand is a signaling pattern. An odd power of what is not a
number has no sign. -/
def pow (a b : Double) : Double :=
  if (b.isZero && !a.isSignaling) || (a == one && !b.isSignaling) then one
  else if a.isNaN && b.isOdd then a.quiet.abs
  else lift Float.pow a b

/-- The number `m * 2 ^ q` with a sign, for values that a double can hold exactly:
the significand is brought to at most fifty-three bits by dropping zeros. -/
def ofScaled (negative : Bool) (m : Nat) (q : Int) : Double :=
  let signBit : Nat := if negative then 9223372036854775808 else 0
  if m = 0 then ⟨UInt64.ofNat signBit⟩
  else
    let top : Int := (m.log2 : Int) + q
    let base : Int := if top < -1022 then -1074 else top - 52
    let shifted : Nat := if q ≥ base then m <<< (q - base).toNat else m >>> (base - q).toNat
    let body : Nat :=
      if top < -1022 then shifted
      else ((top + 1023).toNat <<< 52) + (shifted - 4503599627370496)
    ⟨UInt64.ofNat (signBit + body)⟩

/-- The remainder of the truncated quotient, which has the sign of the dividend and is
exact: both operands are integers over a common power of two. -/
def rem (a b : Double) : Double :=
  if a.isNaN then a.quiet
  else if b.isNaN then b.quiet
  else if a.isInfinite || b.isZero then invalid
  else if b.isInfinite || a.isZero then a
  else
    let q := min a.scale b.scale
    let m := a.significand <<< (a.scale - q).toNat
    let n := b.significand <<< (b.scale - q).toNat
    ofScaled a.isNegative (m % n) q

/-- The single precision pattern nearest to a number. -/
def singleBits (x : Double) : UInt32 :=
  if x.isNaN then
    let sign : UInt32 := if x.isNegative then 0x80000000 else 0
    sign ||| (0x7FC00000 : UInt32) ||| ((x.bits >>> 29) &&& 0x3FFFFF).toUInt32
  else x.toFloat.toFloat32.toBits

/-- The number that a single precision pattern denotes. -/
def ofSingleBits (b : UInt32) : Double :=
  let fraction := b &&& 0x7FFFFF
  if (b >>> 23) &&& 0xFF == 0xFF && fraction != 0 then
    let sign : UInt64 := if b >>> 31 == 1 then 0x8000000000000000 else 0
    ⟨sign ||| (0x7FF8000000000000 : UInt64) ||| (fraction.toUInt64 <<< 29)⟩
  else ofFloat (Float32.ofBits b).toFloat

/-- The number rounded to the precision of a width: single for 32 bits, unchanged for
any other. -/
def round (x : Double) (bits : Nat) : Double :=
  if bits = 32 then ofSingleBits x.singleBits else x

/-- The double nearest to an integer. -/
def ofInt64 (v : Int64) : Double := ofFloat v.toFloat

/-- The integer part, held to the range of 64-bit integers; zero for what is not a
number. -/
def toInt64 (x : Double) : Int64 :=
  if x.isNaN then 0
  else
    let m : Nat := if x.isInfinite then wordRange
      else if x.scale ≥ 0 then
        (if x.scale > 64 then wordRange else x.significand <<< x.scale.toNat)
      else x.significand >>> (-x.scale).toNat
    if x.isNegative then
      (if m ≥ 9223372036854775808 then Int64.minValue else Int64.ofInt (-(m : Int)))
    else (if m ≥ 9223372036854775808 then Int64.maxValue else Int64.ofInt m)

/-- Whether two numbers are equal; the two zeros are. -/
def eq (a b : Double) : Bool := a.toFloat == b.toFloat

/-- Whether one number is below another. -/
def lt (a b : Double) : Bool := a.toFloat < b.toFloat

/-- Whether one number is below or equal to another. -/
def le (a b : Double) : Bool := a.toFloat ≤ b.toFloat

/-- A number as text: its bit pattern in base sixteen, sixteen digits, or a word when it is
not a number. -/
def hexText (x : Double) : String :=
  if x.isNaN then "nan"
  else
    let digits := Text.hex false x.bits.toNat
    String.ofList (List.replicate (16 - digits.length) '0') ++ digits

/-- The number that such a text stands for. -/
def ofHex? (text : String) : Option Double :=
  if text == "nan" then some ⟨0x7FF8000000000000⟩
  else (Text.ofHex? text.toList).map fun n => ⟨.ofNat n⟩

end Double

end SsaCompiler
