/-
# Invocations

Choosing the callable for given arguments, turning the arguments into what the callable
receives, and the call itself. Inside a `try` a call that may let out an exception names the
place where the exception arrives.
-/

import SsaCompiler.Lower.Conversion

namespace SsaCompiler

namespace Lower

/-! ### Calls -/

/-- Calls a function. Inside a `try` an exception out of the call goes to the innermost
landing pad, unless the function is a support function that lets none out. -/
def emitCall (f : FunctionId) (args : List ValueId) : Lower (Option ValueId) := do
  let mayUnwind := match (← get).context.support.identify? f with
    | some s => s.mayUnwind
    | none => true
  match (← get).pass.tries with
  | frame :: _ =>
    if mayUnwind then
      let normal ← appendBlock "invoke.cont"
      let result ← Build.invoke f args normal frame.landing
      Build.positionAtEnd normal
      return result
    else Build.call f args
  | [] => Build.call f args

/-- Calls a support function. -/
def callSupport (f : SupportFunction) (args : List ValueId) : Lower (Option ValueId) := do
  emitCall (← support f) args

/-- One argument as the callable receives it. A reference parameter takes the address; a
pointer parameter given a value of its target takes the address of the value; a value
parameter given a pointer takes what the pointer points to. -/
def adaptArg (arg : Operand) (param : ParamSig) (span : Span) : Attempt ValueId := do
  let ty ← arg.ty
  let target ← pointee? ty
  if param.isReference then
    if target = some param.ty then arg.load else arg.address
  else if ty = param.ty then arg.load
  else if target = some param.ty then
    let address ← arg.load
    Build.load address
  else if (← pointee? param.ty) = some ty then arg.address
  else
    let value ← arg.load
    coerce value param.ty span

/-- Arguments as the callable receives them, up to the first that does not fit; the two
lists have the same length. -/
def adaptEach : List Operand → List ParamSig → Span → Attempt (List ValueId)
  | arg :: args, param :: params, span => do
    let v ← adaptArg arg param span
    return v :: (← adaptEach args params span)
  | _, _, _ => return []

/-- Arguments as the callable receives them; fails for a wrong number of arguments. -/
def adaptArgs (args : List Operand) (params : List ParamSig) (span : Span) :
    Attempt (List ValueId) :=
  if args.length = params.length then adaptEach args params span else failure

/-- The result of a call as an operand: a reference is a place. -/
def callResult (result : Option ValueId) (retRef : Bool) : Option Operand :=
  result.map fun v => ⟨v, retRef⟩

/-! ### Named callables -/

/-- A callee in messages. -/
def calleeLabel : Callee → Lower String
  | .function name => do
    let text ← nameText name
    return s!"function '{text}'"
  | .method object name => do
    let owner ← describe object
    let text ← nameText name
    return s!"method '{owner}.{text}'"
  | .constructor object => do
    let owner ← describe object
    return s!"constructor of '{owner}'"

/-- The types of operands. -/
def operandTypes : List Operand → Build (List TypeId)
  | [] => return []
  | op :: rest => do
    let ty ← op.ty
    return ty :: (← operandTypes rest)

/-- The callable for given arguments; reports when there is none or more than one. -/
def resolve (callee : Callee) (args : List Operand) (span : Span) : Attempt Overload := do
  let types ← operandTypes args
  let candidates := (callee.overloads? (← symbols)).getD .empty
  match candidates.resolve (← typeRelation) types with
  | .found index =>
    match candidates.get? index with
    | some overload => return overload
    | none =>
      abandon (.vanishedOverload (← calleeLabel callee))
      failure
  | .notFound =>
    let label ← calleeLabel callee
    let list ← describeList types
    Attempt.reject .overloadMismatch s!"no overload of {label} matches {list}" span
  | .ambiguous count =>
    let label ← calleeLabel callee
    let list ← describeList types
    Attempt.reject .overloadMismatch
      s!"call to {label} with {list} is ambiguous between {count} overloads" span

/-- Calls the callable for given arguments; `receiver` comes before the arguments. -/
def invokeResolved (callee : Callee) (receiver : List ValueId) (args : List Operand)
    (span : Span) : Attempt (Option Operand) := do
  let overload ← resolve callee args span
  let values ← adaptArgs args overload.params span
  let result ← OptionT.lift (emitCall overload.function (receiver ++ values))
  noteThrows overload.throws
  return callResult result overload.retRef

/-- Whether an object has a method of a given name. -/
def hasMethod (object : TypeId) (name : Name) : Lower Bool := do
  return match (← symbols).objectByType? object with
    | some info => info.methods.contains name
    | none => false

/-- Calls a method of the object at an address. -/
def callMethod (this : ValueId) (object : TypeId) (name : Name) (args : List Operand)
    (span : Span) : Attempt Operand := do
  if ← hasMethod object name then
    let result ← invokeResolved (.method object name) [this] args span
    Attempt.ofOption result
  else
    let owner ← describe object
    let text ← nameText name
    Attempt.reject .unresolvedName s!"'{owner}' has no method '{text}'" span

/-- Runs the constructor for given arguments on the object at an address. -/
def callConstructor (this : ValueId) (object : TypeId) (args : List Operand) (span : Span) :
    Attempt Unit := do
  let _ ← invokeResolved (.constructor object) [this] args span
  return ()

/-- The address and the type of the object that an operand is, or that it points to. -/
def objectAddress (op : Operand) (span : Span) : Attempt (ValueId × TypeId) := do
  let ty ← op.ty
  let kind ← Build.typeAt ty
  if kind.isStruct then return (← op.address, ty)
  match kind.pointee? with
  | some pointee =>
    if (← Build.typeAt pointee).isStruct then return (← op.load, pointee)
  | none => pure ()
  let found ← describe ty
  Attempt.reject .typeMismatch s!"'{found}' is not an object" span

/-! ### Operators of the program -/

/-- The operator that the program defines for a key, none when it defines none; reports when
there are several. -/
def findOperator (key : OperatorKey) (span : Span) : Attempt (Option Nat) := do
  let operators := (← get).context.operators
  if operators.size = 0 then return none
  match operators.lookup (← typeRelation) key with
  | .found index => return some index
  | .notFound => return none
  | .ambiguous count =>
    let symbol := key.symbol.text
    let list ← describeList key.sides
    Attempt.reject .overloadMismatch
      s!"operator '{symbol}' on {list} is ambiguous between {count} overloads" span

/-- Calls an operator that the program defines. -/
def callOperator (index : Nat) (args : List Operand) (span : Span) : Attempt Operand := do
  match (← get).context.operators.get? index with
  | none =>
    abandon (.vanishedOverload s!"operator #{index}")
    failure
  | some entry =>
    let values ← adaptArgs args entry.params span
    let result ← OptionT.lift (emitCall entry.function values)
    noteThrows entry.throws
    Attempt.ofOption (callResult result entry.retRef)

end Lower

/-- Lowers all arguments of a call, also behind one that fails. -/
def Recur.arguments (r : Recur) : List (Option Node) → Lower (Option (List Operand))
  | [] => return some []
  | c :: rest => do
    let first ← (r.required c).run
    let others ← r.arguments rest
    return do return (← first) :: (← others)

end SsaCompiler
