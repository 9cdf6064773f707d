/-
# Variables

Inside a function a variable is a place on the stack. Outside it is a global, and what it
starts with has to be known without running anything. A reference is another name for a
place.
-/

import SsaCompiler.Lower.Annotation
import SsaCompiler.Lower.Conversion

namespace SsaCompiler

/-- Gives a name to the value at an address. -/
def Lower.bindVariable (name : Name) (storage : ValueId) (ty : TypeId) (isReference : Bool) :
    Lower Unit :=
  Lower.modifySymbols (·.setVariable name ⟨storage, ty, isReference⟩)

namespace Recur

variable (r : Recur)

/-- The value of a child, converted to a type; none for a missing child and for one that
does not convert. -/
def initialValue (init : Option Node) (ty : TypeId) : Lower (Option ValueId) :=
  match init with
  | none => pure none
  | some node => OptionT.run do
    let value ← r.value (some node)
    Lower.coerce value ty node.span

/-- Declares a variable of the current function. It is known from here on, but not in its
own initial value; without one it is zero. -/
def declareLocal (var : VarInit Node) (ty : TypeId) : Lower Unit := do
  let slot ← Lower.entryAlloca ty
  let init ← match ← r.initialValue var.init ty with
    | some v => pure v
    | none => Build.constZero ty
  Build.store init slot
  Lower.bindVariable var.name slot ty false

/-- What a global starts with, which has to be a constant. -/
def constantInitializer (init : Option Node) (ty : TypeId) : Attempt ValueId := do
  let span := childSpan init
  let op ← r.required init
  if op.isPlace then
    Attempt.reject .structural "global initializers must be constants" span
  else
    let value ← Lower.coerce op.value ty span
    if ← Build.ask fun m => m.isConstant value then return value
    else Attempt.reject .structural "global initializers must be constants" span

/-- Declares a global. -/
def declareGlobal (var : VarInit Node) (ty : TypeId) : Lower Unit := do
  let text ← Lower.nameText var.name
  let global ← Build.addGlobal text ty
  Lower.bindVariable var.name global ty false
  match var.init with
  | none => pure ()
  | some node =>
    match ← (r.constantInitializer (some node) ty).run with
    | some init => discard (Build.setGlobalInitializer global init : Build Bool)
    | none => pure ()

/-- Lets a name refer to a place. A pointer may be given in its stead, and a value is first
stored somewhere. -/
def bindReference (var : VarInit Node) (ty : TypeId) (span : Span) : Attempt Unit := do
  if var.init.isNone then
    let text ← Lower.nameText var.name
    Attempt.reject .structural s!"reference '{text}' must be initialized" span
  let op ← r.required var.init
  let found ← op.ty
  if found = ty then Lower.bindVariable var.name (← op.address) ty true
  else if (← Lower.pointee? found) = some ty then
    Lower.bindVariable var.name (← op.load) ty true
  else
    let wanted ← Lower.describe ty
    let found ← Lower.describe found
    Attempt.reject .typeMismatch s!"cannot bind '{wanted}&' to a value of type '{found}'" span

/-- Declares one variable of a declaration. -/
def declareVariable (isReference : Bool) (ty : TypeId) (span : Span) (var : VarInit Node) :
    Lower Unit := do
  if isReference then discard (r.bindReference var ty span).run
  else
    match ← Lower.func with
    | some _ => r.declareLocal var ty
    | none => r.declareGlobal var ty

/-- A declaration of variables, all of one type. -/
def declareVariables (ty : TypeExpr) (vars : List (VarInit Node)) (span : Span) : Attempt Unit := do
  let valueTy ← r.type span ty.stripReference
  if (← Build.typeAt valueTy) = .void then
    Attempt.reject .typeMismatch "variables cannot have type 'void'" span
  for var in vars do
    r.declareVariable ty.isReference valueTy span var

end Recur

end SsaCompiler
