/-
# Expressions

Operators, assignments, casts and calls, on children that are lowered first.
-/

import SsaCompiler.Lower.Arithmetic
import SsaCompiler.Lower.Atom
import SsaCompiler.Lower.Variable

namespace SsaCompiler

namespace Recur

variable (r : Recur)

/-- An operator between two children. -/
def binary (op : BinaryOp) (lhs rhs : Option Node) (span : Span) : Attempt Operand := do
  let l ← r.required lhs
  let rr ← r.required rhs
  Lower.applyBinary op l rr span

/-- An operator in front of a child. -/
def unary (op : UnaryOp) (operand : Option Node) (span : Span) : Attempt Operand := do
  let inner ← r.required operand
  Lower.applyUnary op inner span

/-- The value that an assignment stores, before it is converted: the new value, or the old
one combined with it. -/
def assignedValue (op : Option BinaryOp) (place : Operand) (value : Option Node)
    (span : Span) : Attempt ValueId := do
  match op with
  | none => r.value value
  | some op =>
    let rhs ← r.required value
    let combined ← Lower.applyBinary op place rhs span
    combined.load

/-- An assignment, whose result is its target. Outside a function it sets what a global
starts with. -/
def assign (op : Option BinaryOp) (target value : Option Node) (span : Span) :
    Attempt Operand := do
  let place ← r.required target
  if ¬ place.isPlace then
    Attempt.reject .typeMismatch "left side of assignment is not assignable" span
  else
    let ty ← place.ty
    match (← get).pass.func with
    | none =>
      if ← Build.ask fun m => m.isGlobal place.value then
        let init ← r.constantInitializer value ty
        let _ ← Build.setGlobalInitializer place.value init
        return place
      else Attempt.reject .structural "module-scope assignment must target a global" span
    | some _ =>
      let assigned ← r.assignedValue op place value span
      let converted ← Lower.coerce assigned ty span
      Build.store converted place.value
      return place

/-- A cast: the one that the program defines, otherwise the built-in conversion. -/
def cast (expr : Option Node) (ty : TypeExpr) (span : Span) : Attempt Operand := do
  let target ← r.type span ty
  let op ← r.required expr
  let source ← op.ty
  match ← Lower.findOperator (.binary source .cast target) span with
  | some index => Lower.callOperator index [op] span
  | none =>
    let value ← op.load
    match ← Lower.convert value target with
    | some converted => return .ofValue converted
    | none =>
      let found ← Lower.describe source
      let wanted ← Lower.describe target
      Attempt.reject .typeMismatch s!"cannot cast '{found}' to '{wanted}'" span

/-- A call of a function or, inside a method, of a method of the same object. Functions come
first. -/
def call (callee : Name) (args : List (Option Node)) (span : Span) : Attempt Operand := do
  let args ← OptionT.mk (r.arguments args)
  if ((← Lower.symbols).functions? callee).isSome then
    let result ← Lower.invokeResolved (.function callee) [] args span
    Attempt.ofOption result
  else
    match (← get).pass.func.bind (·.thisTy) with
    | some object =>
      if ← Lower.hasMethod object callee then
        let this ← OptionT.mk Lower.thisPointer
        return ← Lower.callMethod this object callee args span
    | none => pure ()
    let text ← Lower.nameText callee
    Attempt.reject .unresolvedName s!"unknown function '{text}'" span

/-- A call of a method of an object, or of the object that a pointer points to. -/
def methodCall (receiver : Option Node) (method : Name) (args : List (Option Node))
    (span : Span) : Attempt Operand := do
  let op ← r.required receiver
  let (this, object) ← Lower.objectAddress op span
  let args ← OptionT.mk (r.arguments args)
  Lower.callMethod this object method args span

end Recur

end SsaCompiler
