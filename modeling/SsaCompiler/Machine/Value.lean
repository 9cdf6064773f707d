/-
# Run-time values

What the machine computes with: words, doubles, addresses and aggregates. Words and
addresses stand in for each other where an integer or a pointer is asked for.
-/

import SsaCompiler.Number.Double
import SsaCompiler.Text.Decimal
import SsaCompiler.Text.Radix

namespace SsaCompiler

/-- A value at run time. -/
inductive Val where
  /-- An integer in the normal form of its width. -/
  | int (value : Int64)
  | float (value : Double)
  | ptr (address : UInt64)
  /-- The contents of a structure or an array. -/
  | agg (items : List Val)
  | void
  deriving Repr, Inhabited

namespace Val

/-- The value as a word. -/
def asInt? : Val → Option Int64
  | int v => some v
  | ptr a => some a.toInt64
  | _ => none

/-- The value as an address. -/
def asPtr? : Val → Option UInt64
  | ptr a => some a
  | int v => some v.toUInt64
  | _ => none

/-- The value as a double. -/
def asFloat? : Val → Option Double
  | float x => some x
  | _ => none

/-- The value as a truth value: whether its word is not zero. -/
def asBool? (v : Val) : Option Bool := v.asInt?.map (· != 0)

mutual

/-- The value as a user sees it. -/
def text : Val → String
  | int v => toString v.toInt
  | float x => Text.shortPositional x 0
  | ptr a => Text.address a
  | agg items => "\x7b" ++ ", ".intercalate (texts items) ++ "\x7d"
  | void => "void"

/-- The values as a user sees them. -/
def texts : List Val → List String
  | [] => []
  | v :: rest => v.text :: texts rest

end

mutual

/-- The value with its kind, for messages. -/
def describe : Val → String
  | int v => s!"Int({v.toInt})"
  | float x => "Float(" ++ Text.shortGeneral x ++ ")"
  | ptr a => s!"Ptr({a.toNat})"
  | agg items => "Agg([" ++ ", ".intercalate (describeAll items) ++ "])"
  | void => "Void"

/-- The values with their kinds. -/
def describeAll : List Val → List String
  | [] => []
  | v :: rest => v.describe :: describeAll rest

end

end Val

end SsaCompiler
