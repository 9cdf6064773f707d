/-
# Decimal text of doubles

Two ways to choose digits and a few ways to lay them out. The shortest digits are the
fewest that read back as the same number and, among those, the nearest to it, a tie going
away from zero. A fixed number of digits is the exact value rounded, a tie going to the even
neighbour. Both work on the exact rational value of the number.
-/

import SsaCompiler.Number.Double

namespace SsaCompiler.Text

/-- A positive rational value `num / den`. -/
structure Ratio where
  /-- The numerator. -/
  num : Nat
  /-- The denominator. -/
  den : Nat

/-- The value of a significand at a power of two. -/
def Ratio.ofScaled (m : Nat) (q : Int) : Ratio :=
  if q ≥ 0 then ⟨m <<< q.toNat, 1⟩ else ⟨m, 1 <<< (-q).toNat⟩

/-- The value times a power of ten. -/
def Ratio.timesTen (r : Ratio) (e : Int) : Ratio :=
  if e ≥ 0 then ⟨r.num * Nat.pow 10 e.toNat, r.den⟩ else ⟨r.num, r.den * Nat.pow 10 (-e).toNat⟩

/-- The nearest integer, a tie going to the even one. -/
def Ratio.round (r : Ratio) : Nat :=
  let q := r.num / r.den
  let rest := 2 * (r.num % r.den)
  if rest > r.den then q + 1
  else if rest < r.den then q
  else if q % 2 = 0 then q else q + 1

/-- The decimal digits of a number. -/
def digits (n : Nat) : List Char := Nat.toDigits 10 n

/-- The exponent of the leading decimal digit of a positive value, found by correcting
an estimate that is off by at most one. -/
def Ratio.magnitude (r : Ratio) : Int :=
  let guess : Int := ((digits r.num).length : Int) - ((digits r.den).length : Int)
  let scaled := r.timesTen (-guess)
  if scaled.num < scaled.den then guess - 1 else guess

/-- Decimal digits as an integer `value`, whose leading digit stands at the power of
ten `exponent`. -/
structure DecimalDigits where
  /-- The digits, most significant first. -/
  chars : List Char
  /-- The power of ten of the first digit. -/
  exponent : Int

/-- The digits of `n` at the power of ten `e`, without trailing zeros. -/
def DecimalDigits.ofInteger (n : Nat) (e : Int) : DecimalDigits :=
  let ds := digits n
  ⟨(ds.reverse.dropWhile (· == '0')).reverse, e + (ds.length : Int) - 1⟩

/-- The interval of values that read back as a given double, scaled by ten to a power:
twice the lower end, twice the value and twice the upper end over one denominator. -/
structure ReadInterval where
  /-- The lower end. -/
  low : Nat
  /-- The value itself. -/
  mid : Nat
  /-- The upper end. -/
  high : Nat
  /-- The common denominator. -/
  den : Nat
  /-- Whether the ends themselves read back as the number. -/
  closed : Bool

/-- Whether an integer lies in the interval. -/
def ReadInterval.contains (i : ReadInterval) (n : Nat) : Bool :=
  if i.closed then i.low ≤ n * i.den && n * i.den ≤ i.high
  else i.low < n * i.den && n * i.den < i.high

/-- The interval of a positive finite double, scaled by `10 ^ (-e)`. The lower
neighbour is only half as far away when the significand is the least of its power of
two. -/
def readInterval (x : Double) (e : Int) : ReadInterval :=
  let m := x.significand
  let narrow := x.fraction = 0 ∧ x.exponent > 1
  let unit := (Ratio.ofScaled 1 (x.scale - 2)).timesTen (-e)
  { low := (4 * m - (if narrow then 1 else 2)) * unit.num
    mid := 4 * m * unit.num
    high := (4 * m + 2) * unit.num
    den := unit.den
    closed := m % 2 = 0 }

/-- The integer that stands for a double on the grid of multiples of `10 ^ e`: the
nearer of the two neighbours that read back, a tie going to the greater one. -/
def onGrid? (x : Double) (e : Int) : Option Nat :=
  let i := readInterval x e
  let below := i.mid / i.den
  let above := below + 1
  match i.contains below && below != 0, i.contains above with
  | true, true =>
    let toBelow := i.mid - below * i.den
    let toAbove := above * i.den - i.mid
    if toBelow < toAbove then some below else some above
  | true, false => some below
  | false, true => some above
  | false, false => none

/-- The first grid, from coarse to fine, on which a double can be written. -/
def shortestFrom (x : Double) (magnitude : Int) : Nat → Nat → DecimalDigits
  | 0, _ => ⟨['0'], 0⟩
  | left + 1, count =>
    let e := magnitude - (count : Int)
    match onGrid? x e with
    | some n => DecimalDigits.ofInteger n e
    | none => shortestFrom x magnitude left (count + 1)

/-- The shortest digits of a positive finite double. -/
def shortest (x : Double) : DecimalDigits :=
  shortestFrom x ((Ratio.ofScaled x.significand x.scale).magnitude) 19 0

/-- A minus sign for a set sign bit. -/
def signText (x : Double) : String := if x.isNegative then "-" else ""

/-- The text of what is not a finite number, none for finite numbers. -/
def special? (x : Double) : Option String :=
  if x.isNaN then some "NaN"
  else if x.isInfinite then some (signText x ++ "inf")
  else none

/-- Digits with a point after the first one, if there are more. -/
def pointed : List Char → List Char
  | [] => []
  | [d] => [d]
  | d :: rest => d :: '.' :: rest

/-- Digits laid out without exponent, with at least `least` places after the point. -/
def positional (d : DecimalDigits) (least : Nat) : String :=
  let whole := if d.exponent < 0 then ['0']
    else (d.chars.take (d.exponent.toNat + 1)) ++
      List.replicate (d.exponent.toNat + 1 - d.chars.length) '0'
  let part := if d.exponent < 0 then List.replicate ((-d.exponent).toNat - 1) '0' ++ d.chars
    else d.chars.drop (d.exponent.toNat + 1)
  let part := part ++ List.replicate (least - part.length) '0'
  String.ofList (if part.isEmpty then whole else whole ++ '.' :: part)

/-- Digits laid out with an exponent. -/
def scientific (d : DecimalDigits) : String :=
  String.ofList (pointed d.chars) ++ "e" ++ toString d.exponent

/-- A double in its shortest positional form; whole numbers have no point when
`least` is zero. -/
def shortPositional (x : Double) (least : Nat) : String :=
  match special? x with
  | some s => s
  | none =>
    signText x ++ positional (if x.isZero then ⟨['0'], 0⟩ else shortest x) least

/-- A double in its shortest form with an exponent. -/
def shortScientific (x : Double) : String :=
  match special? x with
  | some s => s
  | none => signText x ++ scientific (if x.isZero then ⟨['0'], 0⟩ else shortest x)

/-- A double in its shortest form: positional between `0.0001` and `10 ^ 16`, always
with a point, and with an exponent outside. -/
def shortGeneral (x : Double) : String :=
  match special? x with
  | some s => s
  | none =>
    if x.isZero then signText x ++ "0.0"
    else
      let d := shortest x
      if d.exponent < -4 || d.exponent ≥ 16 then signText x ++ scientific d
      else signText x ++ positional d 1

/-- The number of places after the point at which the exact value of a finite double
ends. -/
def exactPlaces (x : Double) : Nat := (-x.scale).toNat

/-- A double rounded to a number of places after the point. Places behind the end of the
exact value are zeros. -/
def fixed (x : Double) (places : Nat) : String :=
  match special? x with
  | some s => s
  | none =>
    let kept := min places (exactPlaces x)
    let n := ((Ratio.ofScaled x.significand x.scale).timesTen kept).round
    let ds := digits n
    let ds := List.replicate (kept + 1 - ds.length) '0' ++ ds
    let whole := ds.take (ds.length - kept)
    let part := ds.drop (ds.length - kept) ++ List.replicate (places - kept) '0'
    signText x ++ String.ofList (if part.isEmpty then whole else whole ++ '.' :: part)

/-- A double rounded to one digit before the point and `places` after it, as those
digits and the exponent of ten. Digits behind the end of the exact value are zeros. -/
def rounded (x : Double) (places : Nat) : DecimalDigits :=
  if x.significand = 0 then ⟨List.replicate (places + 1) '0', 0⟩
  else
    let r := Ratio.ofScaled x.significand x.scale
    let magnitude := r.magnitude
    let wanted := (places : Int) - magnitude
    let kept := min wanted (exactPlaces x)
    let ds := digits (r.timesTen kept).round ++ List.replicate (wanted - kept).toNat '0'
    if ds.length > places + 1 then ⟨ds.take (places + 1), magnitude + 1⟩ else ⟨ds, magnitude⟩

end SsaCompiler.Text
