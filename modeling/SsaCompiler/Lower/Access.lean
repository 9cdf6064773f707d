/-
# Members, elements, construction and deletion

Expressions on objects. A new object is zeroed before its constructor runs; an object
without constructors may be given a value for every member instead.
-/

import SsaCompiler.Lower.Annotation
import SsaCompiler.Lower.Invocation

namespace SsaCompiler

namespace Lower

/-- Fresh memory for a value of a type, all zero. -/
def heapAlloc (ty : TypeId) : Lower ValueId := do
  let calloc ← support .calloc
  let count ← constLong 1
  let size ← constLong (← allocationSize ty)
  let raw ← emitCall calloc [count, size]
  let ptrTy ← Build.pointerType ty
  match raw with
  | some raw => Build.cast .bitcast raw ptrTy
  | none => Build.constNull ptrTy

/-- A place on the stack for a value of a type, all zero. -/
def stackAlloc (ty : TypeId) : Lower ValueId := do
  let slot ← entryAlloca ty
  let zero ← Build.constZero ty
  Build.store zero slot
  return slot

/-- Stores values in the members from a position on. -/
def storeMembers (storage : ValueId) (object : TypeId) (span : Span) :
    Nat → List Operand → Attempt Unit
  | _, [] => return ()
  | i, arg :: rest => do
    let slot ← Attempt.ofOption ((← symbols).memberAt? object i)
    let value ← arg.load
    let value ← coerce value slot.ty span
    let field ← Build.structGep storage slot.index
    Build.store value field
    storeMembers storage object span (i + 1) rest

/-- Gives every member of an object a value, in order. -/
def initMembers (storage : ValueId) (object : TypeId) (args : List Operand) (span : Span) :
    Attempt Unit := do
  let count := match (← symbols).objectByType? object with
    | some info => info.members.length
    | none => 0
  if args.length ≠ count then
    let owner ← describe object
    let given := args.length
    Attempt.reject .overloadMismatch
      s!"'{owner}' has {count} members but {given} initializers were given" span
  else storeMembers storage object span 0 args

/-- Sets up the value of a new place from the arguments of its construction. -/
def construct (storage : ValueId) (object : TypeId) (args : List Operand) (span : Span) :
    Attempt Unit := do
  if (← Build.typeAt object).isStruct then
    let constructors := (Callee.constructor object).overloads? (← symbols)
    if (constructors.getD .empty).size > 0 then callConstructor storage object args span
    else if args.isEmpty then return ()
    else initMembers storage object args span
  else
    match args with
    | [] => return ()
    | [arg] =>
      let value ← arg.load
      let value ← coerce value object span
      Build.store value storage
    | _ =>
      let found ← describe object
      Attempt.reject .overloadMismatch s!"'{found}' takes at most one initializer" span

end Lower

namespace Recur

variable (r : Recur)

/-- A member of an object, or of the object that a pointer points to. -/
def member (object : Option Node) (name : Name) (span : Span) : Attempt Operand := do
  let op ← r.required object
  let (base, ty) ← Lower.objectAddress op span
  match (← Lower.symbols).member? ty name with
  | some slot => return .ofPlace (← Build.structGep base slot.index)
  | none =>
    let owner ← Lower.describe ty
    let text ← Lower.nameText name
    Attempt.reject .unresolvedName s!"'{owner}' has no member '{text}'" span

/-- The operator for indexing with a type. One for `long` also takes narrower integers. -/
def indexOperator (base offset : TypeId) (span : Span) : Attempt (Option Nat) := do
  match ← Lower.findOperator (.binary base .index offset) span with
  | some index => return some index
  | none =>
    let long ← Build.intType 64
    if offset ≠ long ∧ (← Build.typeAt offset).widens (← Build.typeAt long) then
      Lower.findOperator (.binary base .index long) span
    else return none

/-- An element: by the operator that the program defines, otherwise behind a pointer. -/
def index (object offset : Option Node) (span : Span) : Attempt Operand := do
  let base ← r.required object
  let offset ← r.required offset
  let baseTy ← base.ty
  let offsetTy ← offset.ty
  match ← indexOperator baseTy offsetTy span with
  | some op => Lower.callOperator op [base, offset] span
  | none =>
    let long ← Build.intType 64
    if (← Build.typeAt baseTy).isPointer ∧ (← Build.typeAt offsetTy).isInt then
      let pointer ← base.load
      let distance ← offset.load
      let distance ← Attempt.ofOption (← Lower.convert distance long)
      return .ofPlace (← Build.gep pointer distance)
    else
      let owner ← Lower.describe baseTy
      let found ← Lower.describe offsetTy
      Attempt.reject .typeMismatch s!"cannot index '{owner}' with '{found}'" span

/-- The arguments of a construction, up to the first that fails. -/
def initializers : List (Option Node) → Attempt (List Operand)
  | [] => return []
  | c :: rest => do
    let op ← r.required c
    return op :: (← initializers rest)

/-- A new value. On the stack it is a place, on the heap a pointer. -/
def construct (ty : TypeExpr) (args : List (Option Node)) (heap : Bool) (span : Span) :
    Attempt Operand := do
  let object ← r.type span ty
  let args ← r.initializers args
  let storage ← if heap then Lower.heapAlloc object else Lower.stackAlloc object
  Lower.construct storage object args span
  return ⟨storage, !heap⟩

/-- Deletes an object: by the operator that the program defines, and by giving back the
memory when the operand is a pointer. -/
def delete (operand : Option Node) (span : Span) : Attempt Unit := do
  let op ← r.required operand
  let ty ← op.ty
  let user ← Lower.findOperator (.behind ty .delete) span
  let isPointer := (← Build.typeAt ty).isPointer
  if user.isNone ∧ ¬ isPointer then
    let found ← Lower.describe ty
    Attempt.reject .typeMismatch s!"cannot delete a value of type '{found}'" span
  match user with
  | some index => discard (OptionT.lift (Lower.callOperator index [op] span).run)
  | none => pure ()
  if isPointer then
    let pointer ← op.load
    let raw ← Build.cast .bitcast pointer (← Lower.bytePointer)
    let _ ← OptionT.lift (Lower.callSupport .free [raw])

end Recur

end SsaCompiler
