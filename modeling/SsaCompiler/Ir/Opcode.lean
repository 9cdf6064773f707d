/-
# Opcodes and their arithmetic

Integers of every width are held as 64-bit words in normal form: the low bits
sign-extended, except that a one-bit integer is zero or one. The operations compute on
words and bring the result back to normal form.
-/

import SsaCompiler.Crash
import SsaCompiler.Number.Double

namespace SsaCompiler

/-- Operations on two operands of one type. -/
inductive BinOp where
  | add | sub | mul | sdiv | srem
  | fadd | fsub | fmul | fdiv | frem
  | and | or | xor | shl | ashr
  deriving DecidableEq, Repr, Inhabited

namespace BinOp

/-- Whether the operation works on floating point numbers. -/
def isFloat : BinOp → Bool
  | fadd | fsub | fmul | fdiv | frem => true
  | _ => false

/-- The operation as it is printed. -/
def mnemonic : BinOp → String
  | add => "add" | sub => "sub" | mul => "mul" | sdiv => "sdiv" | srem => "srem"
  | fadd => "fadd" | fsub => "fsub" | fmul => "fmul" | fdiv => "fdiv" | frem => "frem"
  | and => "and" | or => "or" | xor => "xor" | shl => "shl" | ashr => "ashr"

/-- Every operation. -/
def all : List BinOp :=
  [add, sub, mul, sdiv, srem, fadd, fsub, fmul, fdiv, frem, and, or, xor, shl, ashr]

/-- The operation that is printed in a given way. -/
def ofMnemonic? (s : String) : Option BinOp := all.find? (·.mnemonic == s)

end BinOp

/-- Comparisons of signed integers. -/
inductive IntPredicate where
  | eq | ne | slt | sle | sgt | sge
  deriving DecidableEq, Repr, Inhabited

namespace IntPredicate

/-- The comparison as it is printed. -/
def mnemonic : IntPredicate → String
  | eq => "eq" | ne => "ne" | slt => "slt" | sle => "sle" | sgt => "sgt" | sge => "sge"

/-- Every comparison. -/
def all : List IntPredicate := [eq, ne, slt, sle, sgt, sge]

/-- The comparison that is printed in a given way. -/
def ofMnemonic? (s : String) : Option IntPredicate := all.find? (·.mnemonic == s)

/-- Whether the comparison holds. -/
def holds : IntPredicate → Int64 → Int64 → Bool
  | eq, a, b => a == b
  | ne, a, b => a != b
  | slt, a, b => a < b
  | sle, a, b => a ≤ b
  | sgt, a, b => b < a
  | sge, a, b => b ≤ a

end IntPredicate

/-- Ordered comparisons of floating point numbers. -/
inductive FloatPredicate where
  | oeq | one | olt | ole | ogt | oge
  deriving DecidableEq, Repr, Inhabited

namespace FloatPredicate

/-- The comparison as it is printed. -/
def mnemonic : FloatPredicate → String
  | oeq => "oeq" | one => "one" | olt => "olt" | ole => "ole" | ogt => "ogt" | oge => "oge"

/-- Every comparison. -/
def all : List FloatPredicate := [oeq, one, olt, ole, ogt, oge]

/-- The comparison that is printed in a given way. -/
def ofMnemonic? (s : String) : Option FloatPredicate := all.find? (·.mnemonic == s)

/-- Whether the comparison holds; none does when an operand is not a number. -/
def holds (p : FloatPredicate) (a b : Double) : Bool :=
  if a.isNaN || b.isNaN then false
  else match p with
    | oeq => a.eq b
    | one => !(a.eq b)
    | olt => a.lt b
    | ole => a.le b
    | ogt => b.lt a
    | oge => b.le a

end FloatPredicate

/-- Conversions between types. -/
inductive CastOp where
  | trunc | sext | zext | fptrunc | fpext | fptosi | sitofp | ptrtoint | inttoptr | bitcast
  deriving DecidableEq, Repr, Inhabited

namespace CastOp

/-- The conversion as it is printed. -/
def mnemonic : CastOp → String
  | trunc => "trunc" | sext => "sext" | zext => "zext" | fptrunc => "fptrunc"
  | fpext => "fpext" | fptosi => "fptosi" | sitofp => "sitofp" | ptrtoint => "ptrtoint"
  | inttoptr => "inttoptr" | bitcast => "bitcast"

/-- Every conversion. -/
def all : List CastOp :=
  [trunc, sext, zext, fptrunc, fpext, fptosi, sitofp, ptrtoint, inttoptr, bitcast]

/-- The conversion that is printed in a given way. -/
def ofMnemonic? (s : String) : Option CastOp := all.find? (·.mnemonic == s)

end CastOp

/-- A word brought to the normal form of a width: the low bits sign-extended, zero or
one at width one, and zero at width zero. -/
def normalizeInt (v : Int64) (bits : Nat) : Int64 :=
  if bits = 0 then 0
  else if bits = 1 then v &&& 1
  else if bits ≥ 64 then v
  else
    let shift : Int64 := Int64.ofNat (64 - bits)
    (v <<< shift) >>> shift

/-- The low bits of a word as an unsigned number. The mask is one less than a power of
two, which at width sixty-three is one less than the least word and overflows. -/
def zeroExtend (v : Int64) (bits : Nat) : Checked Int64 :=
  if bits ≥ 64 then .ok v
  else if bits = 63 then .error .overflow
  else .ok (v &&& ((1 <<< Int64.ofNat bits) - 1))

/-- The amount by which a shift at a width moves: the low half of the word, taken modulo
the width and then modulo the word size. -/
def shiftAmount (b : Int64) (bits : Nat) : Int64 :=
  Int64.ofNat (b.toUInt64.toUInt32.toNat % max bits 1 % 64)

/-- An integer operation on normal words of a width; none for a division by zero and for
operations on floating point numbers. -/
def evalInt (op : BinOp) (a b : Int64) (bits : Nat) : Option Int64 :=
  match op with
  | .add => some (normalizeInt (a + b) bits)
  | .sub => some (normalizeInt (a - b) bits)
  | .mul => some (normalizeInt (a * b) bits)
  | .sdiv => if b = 0 then none else some (normalizeInt (a / b) bits)
  | .srem => if b = 0 then none else some (normalizeInt (a % b) bits)
  | .and => some (normalizeInt (a &&& b) bits)
  | .or => some (normalizeInt (a ||| b) bits)
  | .xor => some (normalizeInt (a ^^^ b) bits)
  | .shl => some (normalizeInt (a <<< shiftAmount b bits) bits)
  | .ashr => some (normalizeInt (a >>> shiftAmount b bits) bits)
  | .fadd | .fsub | .fmul | .fdiv | .frem => none

/-- A floating point operation at a width; none for operations on integers. -/
def evalFloat (op : BinOp) (a b : Double) (bits : Nat) : Option Double :=
  match op with
  | .fadd => some ((a.add b).round bits)
  | .fsub => some ((a.sub b).round bits)
  | .fmul => some ((a.mul b).round bits)
  | .fdiv => some ((a.div b).round bits)
  | .frem => some ((a.rem b).round bits)
  | _ => none

end SsaCompiler
