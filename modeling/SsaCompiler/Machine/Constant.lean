/-
# Values of constants

The value that a constant has when the machine meets it. The address of a global comes
from the machine; the address of a function is its number under a mark that no address
of memory has.
-/

import SsaCompiler.Machine.Error
import SsaCompiler.Ir.Module

namespace SsaCompiler

/-- The mark of the addresses of functions. -/
def functionMark : UInt64 := 4611686018427387904

/-- The address of a function. -/
def FunctionId.address (f : FunctionId) : UInt64 := functionMark ||| UInt64.ofNat f.index

/-- The function at an address that bears the mark of functions. Only the low half of
the address counts. -/
def FunctionId.ofAddress? (a : UInt64) : Option FunctionId :=
  if a &&& functionMark = 0 then none
  else some ⟨(a &&& ~~~functionMark).toUInt32.toNat⟩

namespace TypeTable

/-- The zero of a type, following at most `n` levels of components. -/
def zeroWithin (t : TypeTable) : Nat → TypeId → Checked Val
  | 0, _ => .error .endless
  | n + 1, ty => do
    match ← t.get ty with
    | .int _ => return .int 0
    | .float _ => return .float .zero
    | .pointer _ | .function .. => return .ptr 0
    | .record fields | .named _ (some fields) => return .agg (← fields.mapM (t.zeroWithin n))
    | .named _ none => return .agg []
    | .array elem length =>
      if length = 0 then return .agg []
      else return .agg (List.replicate length (← t.zeroWithin n elem))
    | .void => return .void

/-- The zero of a type. -/
def zero (t : TypeTable) (ty : TypeId) : Checked Val := t.zeroWithin (t.size + 1) ty

end TypeTable

namespace Module

/-- The value of a constant, following at most `n` levels of constants inside constants;
`globals` has the addresses of the globals. -/
def constantWithin (m : Module) (globals : Array UInt64) : Nat → ValueId → Fallible Val
  | 0, _ => .error (.crashed .endless)
  | n + 1, id => do
    let data ← m.value id
    match data.origin with
    | .const (.int v) => return .int v
    | .const (.float x) => return .float x
    | .const .null => return .ptr 0
    | .const .zero => return (← m.types.zero data.ty)
    | .const (.struct fields) => return .agg (← fields.mapM (m.constantWithin globals n))
    | .const (.bytes contents) => return .agg (contents.map fun b => .int (Int64.ofNat b.toNat))
    | .global i => return .ptr (← Checked.at globals i)
    | .function f => return .ptr f.address
    | origin => Fallible.malformed (.notConstant id origin)

/-- The value of a constant. A constant only contains constants that are older, so it has
at most as many levels as the module has values. -/
def constantVal (m : Module) (globals : Array UInt64) (id : ValueId) : Fallible Val :=
  m.constantWithin globals (m.values.size + 1) id

end Module

end SsaCompiler
