/-
# Callables

Functions, methods, constructors and operators. Declaring one makes its signature known and
leaves the body for later; defining it lowers the body and writes down which exceptions may
come out of it. A callable may thus call itself, and methods of one object may call each
other in any order.

The name of a callable in the module tells its parameters:

* a function is `name(int,Point&)`, but the entry point without parameters is only its name,
* a method is `Point.norm(double)` and a constructor `Point.new(int,int)`,
* an operator is `operator+(Point,Point)`.
-/

import SsaCompiler.Lower.Statement
import SsaCompiler.Lower.Variable

namespace SsaCompiler

namespace Lower

/-! ### Signatures -/

/-- The type in the module of a parameter. -/
def paramType (p : ParamSig) : Build TypeId :=
  if p.isReference then Build.pointerType p.ty else return p.ty

/-- The types in the module of parameters. -/
def paramTypes : List ParamSig → Build (List TypeId)
  | [] => return []
  | p :: rest => do
    let ty ← paramType p
    return ty :: (← paramTypes rest)

/-- The function type of a callable. A method takes the address of its object first, and
references are pointers. -/
def callableType (thisTy : Option TypeId) (sig : CallableSig) : Build TypeId := do
  let receiver ← match thisTy with
    | some object => do pure [← Build.pointerType object]
    | none => pure []
  let params ← paramTypes sig.params
  let ret ← paramType ⟨sig.ret, sig.retRef⟩
  Build.functionType (receiver ++ params) ret false

/-- The name in the module of a callable. -/
def mangle (base : String) (params : List ParamSig) : Lower String := do
  return base ++ (← (← get).module.types.describeParams params)

/-! ### Tables -/

/-- Notes that the declaration of a node is entered, and says whether that is new. -/
def markDeclared (node : Nat) : Lower Bool := do
  if (← get).pass.declared.contains node then return false
  modifyPass fun p => { p with declared := node :: p.declared }
  return true

/-- Leaves a body for later. -/
def postpone (node : Nat) (pending : PendingCallable) : Lower Unit :=
  modifyPass fun p => { p with pending := p.pending.insert node pending }

/-- Declares a function, a method or a constructor in the module and in its table. -/
def declareCallee (node : Nat) (callee : Callee) (symbol : String) (sig : CallableSig)
    (thisTy : Option TypeId) (body : Option Node) (span : Span) : Lower Unit := do
  let fnTy ← callableType thisTy sig
  let function ← Build.declareFunction symbol fnTy
  let overload : Overload := ⟨symbol, sig.params, sig.ret, sig.retRef, function, []⟩
  let (entered, table) := callee.declare (← symbols) overload
  modifySymbols fun _ => table
  match entered, thisTy with
  | some (some _), _ => postpone node ⟨function, symbol, sig, thisTy, .overload callee, body⟩
  | some none, _ =>
    let word := callee.word
    report .structural s!"{word} '{symbol}' is already declared" span
  | none, some object => abandon (.missingObject (← describe object))
  | none, none => return ()

/-- Declares an operator in the module and in its table. -/
def enterOperator (key : OperatorKey) (symbol : String) (sig : CallableSig) (span : Span) :
    Attempt (FunctionId × Nat) := do
  let fnTy ← callableType none sig
  let function ← Build.declareFunction symbol fnTy
  match (← get).context.operators.insert key ⟨function, sig.params, sig.ret, sig.retRef, []⟩ with
  | some (index, table) =>
    modifyContext fun c => { c with operators := table }
    return (function, index)
  | none => Attempt.reject .structural s!"operator '{symbol}' is already declared" span

/-- The key of an operator by its symbol and its operands: both sides for an operator between
two operands and for indexing, the right side for one in front of its operand, the left side
and the result for a cast, the left side for a deletion. -/
def operatorKey? (symbol : OpSymbol) (lhs rhs : Option TypeId) (ret : TypeId) :
    Option OperatorKey :=
  match symbol, lhs, rhs with
  | .binary op, some l, some r => some (.binary l (.binary op) r)
  | .index, some l, some r => some (.binary l .index r)
  | .unary op, none, some r => some (.before (.unary op) r)
  | .cast, some l, none => some (.binary l .cast ret)
  | .delete, some l, none => some (.behind l .delete)
  | _, _, _ => none

/-- Writes down which exceptions may come out of a callable. -/
def recordThrows (pending : PendingCallable) (throws : ThrowSet) : Lower Unit := do
  let f := pending.function
  match pending.owner with
  | .overload callee =>
    match ((callee.overloads? (← symbols)).bind (·.byFunction? f)) with
    | some _ =>
      modifySymbols (callee.modify · (·.modifyByFunction f fun o => { o with throws := throws }))
    | none => abandon (.vanishedOverload pending.symbol)
  | .operator index =>
    match (← get).context.operators.get? index with
    | some _ =>
      modifyContext fun c => { c with
        operators := c.operators.modify index fun e => { e with throws := throws } }
    | none => abandon (.vanishedOverload pending.symbol)

/-! ### Bodies -/

/-- Binds the object that a method runs on. -/
def bindThis (function : FunctionId) (object : TypeId) : Lower Unit := do
  let this ← Build.param function 0
  let ty ← Build.pointerType object
  let slot ← Build.alloca ty
  Build.store this slot
  bindVariable (← get).pass.thisName slot ty false

/-- Binds parameters from a position on. A value gets a place of its own; a reference is
bound to the address that comes in. -/
def bindParams (function : FunctionId) : Nat → List (Name × ParamSig) → Lower Unit
  | _, [] => return ()
  | index, (name, p) :: rest => do
    let value ← Build.param function index
    if p.isReference then bindVariable name value p.ty true
    else
      let slot ← Build.alloca p.ty
      Build.store value slot
      bindVariable name slot p.ty false
    bindParams function (index + 1) rest

/-- Binds everything that a callable receives. -/
def bindReceived (pending : PendingCallable) : Lower Unit := do
  let params := pending.sig.names.zip pending.sig.params
  match pending.thisTy with
  | some object =>
    bindThis pending.function object
    bindParams pending.function 1 params
  | none => bindParams pending.function 0 params

/-- Whether a variable is a global of the module. -/
def isGlobalBinding (m : Module) (b : VarBinding) : Bool :=
  match m.isGlobal b.storage with
  | .ok isGlobal => isGlobal
  | .error _ => false

/-- Runs something as the body of a function: only globals are visible, and there is no loop
and no `try` around. Afterwards everything is as it was before. -/
def inFunction (f : FunctionState) (body : Lower ThrowSet) : Lower ThrowSet := do
  let outer := (← get).pass
  let here ← position
  let m := (← get).module
  let (saved, inner) := (← symbols).enterFunction (isGlobalBinding m)
  modifySymbols fun _ => inner
  modifyPass fun p => { p with func := some f, loops := [], tries := [] }
  let throws ← body
  let unclosed := (← get).pass.loops.length
  if unclosed > 0 then abandon (.unbalancedTargets f.symbol 0 unclosed)
  modifySymbols (·.exitFunction saved)
  modifyPass fun p => { p with func := outer.func, loops := outer.loops, tries := outer.tries }
  Build.restorePosition here
  return throws

end Lower

namespace Recur

variable (r : Recur)

/-- A parameter as callers see it. -/
def paramSig (ty : TypeExpr) (span : Span) : Attempt ParamSig := do
  let valueTy ← r.type span ty.stripReference
  if (← Build.typeAt valueTy) = .void then
    Attempt.reject .typeMismatch "parameters cannot have type 'void'" span
  return ⟨valueTy, ty.isReference⟩

/-- Parameters as callers see them; none when one of them fails, but the others are looked
at all the same. -/
def paramSigs (span : Span) : List Field → Lower (Option (List ParamSig))
  | [] => return some []
  | field :: rest => do
    let first ← (r.paramSig field.ty span).run
    let others ← paramSigs span rest
    return do return (← first) :: (← others)

/-- The signature of a callable. -/
def signature (params : List Field) (ret : TypeExpr) (span : Span) : Attempt CallableSig := do
  let sigs ← OptionT.lift (r.paramSigs span params)
  let retTy ← r.type span ret.stripReference
  let sigs ← Attempt.ofOption sigs
  return ⟨params.map (·.name), sigs, retTy, ret.isReference⟩

/-! ### Declarations -/

/-- Declares a function. -/
def declareFunction (node : Nat) (decl : FunctionDecl Node) (span : Span) : Attempt Unit := do
  if ← Lower.markDeclared node then
    let sig ← r.signature decl.params decl.ret span
    let name ← Lower.nameText decl.name
    let isEntry := name == (← get).context.options.entryPoint && sig.params.isEmpty
    let symbol ← if isEntry then pure name else Lower.mangle name sig.params
    Lower.declareCallee node (.function decl.name) symbol sig none decl.body span

/-- Declares a method of an object. -/
def declareMethod (node : Nat) (object : TypeId) (decl : FunctionDecl Node) (span : Span) :
    Attempt Unit := do
  if ← Lower.markDeclared node then
    let sig ← r.signature decl.params decl.ret span
    let owner ← Lower.describe object
    let name ← Lower.nameText decl.name
    let symbol ← Lower.mangle s!"{owner}.{name}" sig.params
    Lower.declareCallee node (.method object decl.name) symbol sig (some object) decl.body span

/-- Declares a constructor of an object. -/
def declareConstructor (node : Nat) (object : TypeId) (decl : ConstructorDecl Node)
    (span : Span) : Attempt Unit := do
  if ← Lower.markDeclared node then
    let sig ← r.signature decl.params (.prim .void) span
    let owner ← Lower.describe object
    let symbol ← Lower.mangle s!"{owner}.new" sig.params
    Lower.declareCallee node (.constructor object) symbol sig (some object) decl.body span

/-- A side of an operator as callers see it: none when the operator does not take it. -/
def operandSig (field : Option Field) (span : Span) : Attempt (Option ParamSig) := do
  match field with
  | some f => return some (← r.paramSig f.ty span)
  | none => return none

/-- Declares an operator. -/
def declareOperator (node : Nat) (decl : OperatorDecl Node) (span : Span) : Attempt Unit := do
  if ← Lower.markDeclared node then
    let lhs ← OptionT.lift (r.operandSig decl.lhs span).run
    let rhs ← OptionT.lift (r.operandSig decl.rhs span).run
    let lhs ← Attempt.ofOption lhs
    let rhs ← Attempt.ofOption rhs
    let ret ← r.type span decl.ret.stripReference
    let text := decl.symbol.text
    match Lower.operatorKey? decl.symbol (lhs.map (·.ty)) (rhs.map (·.ty)) ret with
    | none => Attempt.reject .structural s!"operator '{text}' has the wrong operands" span
    | some key =>
      let names := (decl.lhs.toList ++ decl.rhs.toList).map (·.name)
      let sig : CallableSig := ⟨names, lhs.toList ++ rhs.toList, ret, decl.ret.isReference⟩
      let symbol ← Lower.mangle s!"operator{text}" sig.params
      let (function, index) ← Lower.enterOperator key symbol sig span
      Lower.postpone node ⟨function, symbol, sig, none, .operator index, decl.body⟩

/-! ### Definitions -/

/-- Lowers the body of a callable and answers with the exceptions that may come out of it. The
first block makes room for the variables, the second starts the body. -/
def body (pending : PendingCallable) (stmt : Node) : Lower ThrowSet := do
  let allocaBlock ← Build.appendBlock pending.function "entry"
  let bodyBlock ← Build.appendBlock pending.function "body"
  let sig := pending.sig
  let f : FunctionState :=
    ⟨pending.function, pending.symbol, sig.ret, sig.retRef, pending.thisTy, allocaBlock⟩
  Lower.inFunction f do
    Build.positionAtEnd allocaBlock
    Lower.bindReceived pending
    Build.positionAtEnd bodyBlock
    Lower.pushThrowFrame
    r.statement (some stmt)
    let throws ← Lower.popThrowFrame
    unless ← Build.ask Module.currentBlockTerminated do Lower.defaultReturn f
    Build.positionAtEnd allocaBlock
    Build.br bodyBlock
    return throws

/-- Lowers the body of the callable that a node declares, if it has been declared, has a
body, and that has not happened yet. -/
def define (node : Nat) : Lower Unit := do
  match (← get).pass.pending.get? node with
  | none => return ()
  | some pending =>
    Lower.modifyPass fun p => { p with pending := p.pending.erase node }
    match pending.body with
    | none => return ()
    | some stmt =>
      let throws ← r.body pending stmt
      Lower.recordThrows pending throws

/-- A function of the module. -/
def function (node : Nat) (decl : FunctionDecl Node) (span : Span) : Lower Unit := do
  match ← Lower.func with
  | some _ => Lower.report .structural "functions must be declared at module scope" span
  | none =>
    let _ ← (r.declareFunction node decl span).run
    r.define node

/-- An operator of the module. -/
def operator (node : Nat) (decl : OperatorDecl Node) (span : Span) : Lower Unit := do
  match ← Lower.func with
  | some _ => Lower.report .structural "operators must be declared at module scope" span
  | none =>
    let _ ← (r.declareOperator node decl span).run
    r.define node

end Recur

end SsaCompiler
