/-
# Types between source and module

How built-in types are held in a module, how a type of a module is spelled in the source
language, and which values convert to a type without being asked to.
-/

import SsaCompiler.Ir.Builder
import SsaCompiler.Source.TypeExpr
import SsaCompiler.Symbols.Overload

namespace SsaCompiler

/-- The type of a module that holds a built-in type. -/
def PrimType.lower : PrimType → Build TypeId
  | bool => Build.intType 1
  | char => Build.intType 8
  | short => Build.intType 16
  | int => Build.intType 32
  | long => Build.intType 64
  | float => Build.floatType 32
  | double => Build.floatType 64
  | void => Build.voidType

namespace TypeTable

/-- The source spelling of a type, following at most `n` pointers. -/
def describeWithin (t : TypeTable) : Nat → TypeId → Checked String
  | 0, _ => .error .endless
  | n + 1, id => do
    if id.index = noHandle then return "<unknown>"
    match ← t.get id with
    | .void => return "void"
    | .int 1 => return "bool"
    | .int 8 => return "char"
    | .int 16 => return "short"
    | .int 32 => return "int"
    | .int 64 => return "long"
    | .float 32 => return "float"
    | .float 64 => return "double"
    | .pointer pointee => return (← t.describeWithin n pointee) ++ "*"
    | .named name _ => return name
    | _ => t.text id

/-- The source spelling of a type. -/
def describe (t : TypeTable) (id : TypeId) : Checked String := t.describeWithin (t.size + 1) id

/-- The source spelling of a list of types in parentheses. -/
def describeList (t : TypeTable) (ids : List TypeId) : Checked String := do
  return "(" ++ ", ".intercalate (← ids.mapM t.describe) ++ ")"

/-- The source spelling of a parameter; a reference is marked. -/
def describeParam (t : TypeTable) (p : ParamSig) : Checked String := do
  let text ← t.describe p.ty
  return if p.isReference then text ++ "&" else text

/-- The source spelling of a list of parameters in parentheses, without blanks. -/
def describeParams (t : TypeTable) (ps : List ParamSig) : Checked String := do
  return "(" ++ ",".intercalate (← ps.mapM t.describeParam) ++ ")"

/-- What a pointer type of the table points to. -/
def pointee? (t : TypeTable) (id : TypeId) : Option TypeId :=
  match t.get id with
  | .ok ty => ty.pointee?
  | .error _ => none

end TypeTable

/-- Whether values of one type become values of another without loss and without being
asked to: a narrower integer a wider one, a narrower floating point number a wider one,
and an integer a floating point number. Truth values never do. -/
def IrType.widens : IrType → IrType → Bool
  | .int a, .int b => a > 1 && a < b
  | .float a, .float b => a < b
  | .int bits, .float _ => bits > 1
  | _, _ => false

end SsaCompiler
