/-
# Conversions

A cast that is written out converts between any two numbers, between numbers and pointers,
and between pointers. Without a cast only conversions without loss take place, together
with those of constants between numbers of one kind and of the null pointer.
-/

import SsaCompiler.Lower.Place

namespace SsaCompiler

namespace Lower

/-- Whether a value is a pointer constant that is not the address of a global, such as the
null pointer. -/
def isNullConstant (value : ValueId) : Build Bool := do
  let isPointer := (← Build.typeAt (← Build.typeOf value)).isPointer
  let isConstant ← Build.ask fun m => m.isConstant value
  let isGlobal ← Build.ask fun m => m.isGlobal value
  return isPointer && isConstant && !isGlobal

/-- A value converted to a type as by a cast, none when there is no such conversion. -/
def convert (value : ValueId) (dest : TypeId) : Build (Option ValueId) := do
  let source ← Build.typeOf value
  if source = dest then return some value
  match ← Build.typeAt source, ← Build.typeAt dest with
  | .int _, .int 1 =>
    let zero ← Build.constInt source 0
    return some (← Build.icmp .ne value zero)
  | .int 1, .int _ => return some (← Build.cast .zext value dest)
  | .int a, .int b => return some (← Build.cast (if a < b then .sext else .trunc) value dest)
  | .int 1, .float _ =>
    let word ← Build.intType 32
    let wide ← Build.cast .zext value word
    return some (← Build.cast .sitofp wide dest)
  | .int _, .float _ => return some (← Build.cast .sitofp value dest)
  | .float _, .int 1 =>
    let zero ← Build.constFloat source .zero
    return some (← Build.fcmp .one value zero)
  | .float _, .int _ => return some (← Build.cast .fptosi value dest)
  | .float a, .float b =>
    return some (← Build.cast (if a < b then .fpext else .fptrunc) value dest)
  | .pointer _, .int 1 =>
    let long ← Build.intType 64
    let address ← Build.cast .ptrtoint value long
    let zero ← Build.constInt long 0
    return some (← Build.icmp .ne address zero)
  | .pointer _, .int _ => return some (← Build.cast .ptrtoint value dest)
  | .int _, .pointer _ => return some (← Build.cast .inttoptr value dest)
  | .pointer _, .pointer _ => return some (← Build.cast .bitcast value dest)
  | _, _ => return none

/-- Whether a value becomes a value of another type without being asked to. -/
def isImplicit (value : ValueId) (source target : IrType) : Build Bool := do
  if source.widens target then return true
  if target.isPointer && (← isNullConstant value) then return true
  if ← Build.ask fun m => m.isConstant value then
    return (source.isInt && target.isInt && target != .int 1)
      || (source.isFloat && target.isFloat)
  return false

/-- A value converted to a type without being asked to; reports a value that does not
convert. -/
def coerce (value : ValueId) (dest : TypeId) (span : Span) : Attempt ValueId := do
  let source ← Build.typeOf value
  if source = dest then return value
  if ← isImplicit value (← Build.typeAt source) (← Build.typeAt dest) then
    match ← convert value dest with
    | some converted => return converted
    | none => pure ()
  let expected ← describe dest
  let found ← describe source
  Attempt.reject .typeMismatch s!"expected '{expected}', found '{found}'" span

/-- The truth of a value: a number is true unless it is zero, a pointer unless it is
null. -/
def toBool (value : ValueId) (span : Span) : Attempt ValueId := do
  let ty ← Build.typeOf value
  let truth ← Build.intType 1
  match ← Build.typeAt ty with
  | .int _ | .float _ | .pointer _ =>
    match ← convert value truth with
    | some t => return t
    | none => failure
  | _ =>
    let found ← describe ty
    Attempt.reject .typeMismatch s!"expected a condition, found '{found}'" span

end Lower

end SsaCompiler
