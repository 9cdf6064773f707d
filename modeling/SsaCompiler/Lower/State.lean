/-
# The state of a lowering pass

Lowering walks through a program tree once and builds the module on the way. The state of
the walk has four parts: the context, the list of names, the module, and what belongs to
this one pass, such as the function whose body is being lowered, the loops and tries around
the current node, and the exceptions that the current nodes may let out.

A node that cannot be lowered has been reported by the time it is left, so an attempt fails
without a reason.
-/

import SsaCompiler.Lower.Context
import SsaCompiler.Lower.InternalError
import SsaCompiler.Lower.Types
import SsaCompiler.Symbols.Callee

namespace SsaCompiler

/-- A lowered node: a value, or the address of the place where the value is kept. -/
structure Operand where
  /-- The value or the address. -/
  value : ValueId
  /-- Whether it is an address. -/
  isPlace : Bool
  deriving DecidableEq, Repr, Inhabited

namespace Operand

/-- A value that is kept nowhere. -/
def ofValue (v : ValueId) : Operand := ⟨v, false⟩

/-- The value at an address. -/
def ofPlace (address : ValueId) : Operand := ⟨address, true⟩

end Operand

/-- The function whose body is being lowered. -/
structure FunctionState where
  /-- The function in the module. -/
  id : FunctionId
  /-- Its name, for messages. -/
  symbol : String
  /-- The result type. -/
  ret : TypeId
  /-- Whether the result is a reference. -/
  retRef : Bool
  /-- The object type of a method or a constructor. -/
  thisTy : Option TypeId
  /-- The block that makes room for all variables; it continues in the body once the body
  is done. -/
  allocaBlock : BlockId
  deriving DecidableEq, Repr, Inhabited

/-- Where jumps out of a loop or a switch lead. -/
structure JumpTargets where
  /-- The block behind the loop or the switch. -/
  breakTo : BlockId
  /-- The block of the next round; a switch has none. -/
  continueTo : Option BlockId
  deriving DecidableEq, Repr, Inhabited

/-- A `try` around the current node, in the current function. -/
structure TryFrame where
  /-- Where exceptions out of the body arrive. -/
  landing : BlockId
  /-- Where the payload and the selector of the exception are kept. -/
  padSlot : ValueId
  /-- Where the search for a handler starts. -/
  dispatch : BlockId
  /-- The types with a handler, in order. -/
  catchTypes : List TypeId
  deriving DecidableEq, Repr, Inhabited

/-- The parameters and the result of a callable, as they are declared. -/
structure CallableSig where
  /-- The names of the parameters. -/
  names : List Name
  /-- The parameters as callers see them. -/
  params : List ParamSig
  /-- The result type. -/
  ret : TypeId
  /-- Whether the result is a reference. -/
  retRef : Bool
  deriving DecidableEq, Repr, Inhabited

/-- The table entry that a callable belongs to. -/
inductive CallableOwner where
  | overload (callee : Callee)
  | operator (index : Nat)
  deriving DecidableEq, Repr, Inhabited

/-- A callable that is declared and whose body is still to be lowered. -/
structure PendingCallable where
  /-- The function in the module. -/
  function : FunctionId
  /-- Its name. -/
  symbol : String
  /-- Its parameters and result. -/
  sig : CallableSig
  /-- The object type of a method or a constructor. -/
  thisTy : Option TypeId
  /-- The table entry. -/
  owner : CallableOwner
  /-- The body. -/
  body : Option Node
  deriving Inhabited

/-- What belongs to one walk through one tree. Stacks have their innermost entry first. -/
structure Pass where
  /-- The current function, none outside all of them. -/
  func : Option FunctionState
  /-- The loops and switches around the current node. -/
  loops : List JumpTargets
  /-- The tries around the current node. -/
  tries : List TryFrame
  /-- The exceptions that the nodes around the current one may let out, as far as they are
  known. -/
  throwStack : List ThrowSet
  /-- The exceptions that each finished node may let out. -/
  nodeThrows : Table Nat ThrowSet
  /-- Callables whose bodies are still to be lowered, by their nodes. -/
  pending : Table Nat PendingCallable
  /-- The nodes whose declarations have been entered. -/
  declared : List Nat
  /-- Why the walk ended early. -/
  fatal : Option InternalError
  /-- The name of the object inside a method. -/
  thisName : Name
  /-- The span of the node that was entered last. -/
  span : Span
  deriving Inhabited

/-- The state of a walk that has not started. -/
def Pass.new (thisName : Name) : Pass where
  func := none
  loops := []
  tries := []
  throwStack := []
  nodeThrows := .empty
  pending := .empty
  declared := []
  fatal := none
  thisName := thisName
  span := .unknown

/-- The state of lowering. -/
structure Lowering where
  /-- The tables. -/
  context : Context
  /-- The names met so far. -/
  names : Names
  /-- The module under construction. -/
  module : Module
  /-- The current walk. -/
  pass : Pass
  deriving Inhabited

/-- A computation that lowers part of a tree. -/
abbrev Lower (α : Type) : Type := StateT Lowering (Except Crash) α

/-- A computation that may fail, after it has reported why. -/
abbrev Attempt (α : Type) : Type := OptionT Lower α

/-- Requests to the module leave the rest of the state as it is. -/
def Lower.ofBuild {α : Type} (b : Build α) : Lower α := fun ⟨context, names, module, pass⟩ =>
  match b module with
  | .ok (a, module) => .ok (a, ⟨context, names, module, pass⟩)
  | .error crash => .error crash

instance : MonadLift Build Lower := ⟨Lower.ofBuild⟩

namespace Lower

/-! ### Parts of the state -/

/-- Changes the tables. -/
def modifyContext (f : Context → Context) : Lower Unit :=
  modify fun ⟨context, names, module, pass⟩ => ⟨f context, names, module, pass⟩

/-- Changes the symbols. -/
def modifySymbols (f : SymbolTable → SymbolTable) : Lower Unit :=
  modifyContext fun c => { c with symbols := f c.symbols }

/-- Changes what belongs to the walk. -/
def modifyPass (f : Pass → Pass) : Lower Unit :=
  modify fun ⟨context, names, module, pass⟩ => ⟨context, names, module, f pass⟩

/-- The symbols. -/
def symbols : Lower SymbolTable := do return (← get).context.symbols

/-- The current function. -/
def func : Lower (Option FunctionState) := do return (← get).pass.func

/-- The object type of the current method. -/
def thisTy : Lower (Option TypeId) := do return (← func).bind (·.thisTy)

/-! ### Names -/

/-- The name of a text. -/
def intern (text : String) : Lower Name := modifyGet fun ⟨context, names, module, pass⟩ =>
  let (n, names) := names.intern text
  (n, ⟨context, names, module, pass⟩)

/-- The text of a name. -/
def nameText (n : Name) : Lower String := do (← get).names.text n

/-! ### Reports -/

/-- Reports a mistake in the program. -/
def report (kind : DiagnosticKind) (message : String) (span : Span) : Lower Unit :=
  modifyContext (·.report ⟨kind, message, span⟩)

/-- The number of reports so far. -/
def errorCount : Lower Nat := do return (← get).context.errorCount

/-- Ends the walk; of several reasons the first counts. -/
def abandon (e : InternalError) : Lower Unit :=
  modifyPass fun p => { p with fatal := p.fatal.or (some e) }

/-- Whether the walk has ended early. -/
def isAbandoned : Lower Bool := do return (← get).pass.fatal.isSome

/-! ### Types -/

/-- What a pointer type points to. -/
def pointee? (ty : TypeId) : Build (Option TypeId) := do return (← Build.typeAt ty).pointee?

/-- The source spelling of a type. -/
def describe (ty : TypeId) : Lower String := do (← get).module.types.describe ty

/-- The source spelling of a list of types. -/
def describeList (tys : List TypeId) : Lower String := do (← get).module.types.describeList tys

/-- What pointer types of the module point to. -/
def typeRelation : Lower TypeRelation := do
  let types := (← get).module.types
  return types.pointee?

/-- The type of addresses of bytes. -/
def bytePointer : Build TypeId := do Build.pointerType (← Build.intType 8)

/-- A constant of type `long`. -/
def constLong (value : Int64) : Build ValueId := do Build.constInt (← Build.intType 64) value

/-- A constant of type `int`. -/
def constWord (value : Int64) : Build ValueId := do Build.constInt (← Build.intType 32) value

/-- A size as a signed number, the greatest one when it does not fit. -/
def sizeWord (size : Nat) : Int64 :=
  if size < 9223372036854775808 then Int64.ofNat size else Int64.maxValue

/-- The size of a type, at least one byte, as a constant. -/
def allocationSize (ty : TypeId) : Build Int64 := do
  return sizeWord (max (← Build.ask fun m => m.types.sizeOf ty) 1)

/-- A support function, declared in the module on first use. -/
def support (f : SupportFunction) : Lower FunctionId := do
  let (id, table) ← (← get).context.support.get f
  modifyContext fun c => { c with support := table }
  return id

/-! ### Exceptions of nodes -/

/-- Starts to collect the exceptions of a part of the tree. -/
def pushThrowFrame : Lower Unit :=
  modifyPass fun p => { p with throwStack := [] :: p.throwStack }

/-- The exceptions collected since the last start. -/
def popThrowFrame : Lower ThrowSet := do
  match (← get).pass.throwStack with
  | [] => return []
  | top :: rest =>
    modifyPass fun p => { p with throwStack := rest }
    return top

/-- Notes that the current node may let out exceptions of some types. -/
def noteThrows (types : List TypeId) : Lower Unit :=
  modifyPass fun p => { p with
    throwStack := match p.throwStack with
      | [] => []
      | top :: rest => ThrowSet.merge top types :: rest }

/-! ### Blocks -/

/-- A new block in the current function. -/
def appendBlock (name : String) : Lower BlockId := do
  let f ← match ← func with
    | some f => pure f.id
    | none => do pure ((← Build.ask Module.currentFunction).getD ⟨noHandle⟩)
  Build.appendBlock f name

/-- Continues in a block unless the current one has ended. -/
def brIfOpen (target : BlockId) : Lower Unit := do
  unless ← Build.ask Module.currentBlockTerminated do Build.br target

/-- Goes on in a new block that control does not reach, so that what follows a jump has
somewhere to go. -/
def startDeadBlock : Lower Unit := do
  Build.positionAtEnd (← appendBlock "dead")

/-- The current block. -/
def position : Lower (Option BlockId) := do return (← get).module.position

end Lower

namespace Attempt

/-- Turns an answer that may be missing into an attempt. -/
def ofOption {α : Type} (a : Option α) : Attempt α := OptionT.mk (pure a)

/-- Reports a mistake and fails. -/
def reject {α : Type} (kind : DiagnosticKind) (message : String) (span : Span) : Attempt α := do
  Lower.report kind message span
  failure

end Attempt

/-- Lowering of parts of a tree, and of templates, from within the lowering of a node. -/
structure Recur where
  /-- Lowers a node; the answer is none for a node without value and for one that has been
  reported. -/
  operand : Node → Lower (Option Operand)
  /-- Lowers a node as a choice between two blocks. -/
  condition : Option Node → BlockId → BlockId → Lower Unit
  /-- The object type of a template with arguments. -/
  instantiate : Name → List TypeId → Span → Lower (Option TypeId)

namespace Recur

variable (r : Recur)

/-- Lowers a child; a missing child has no value. -/
def child (c : Option Node) : Lower (Option Operand) :=
  match c with
  | some node => r.operand node
  | none => pure none

/-- Lowers a child for what it does. -/
def statement (c : Option Node) : Lower Unit := discard (r.child c)

/-- Lowers a child that has to have a value. A child without one is reported, unless
something was reported while it was lowered. -/
def required (c : Option Node) : Attempt Operand := do
  let before ← Lower.errorCount
  match ← OptionT.lift (r.child c) with
  | some op => return op
  | none =>
    if (← Lower.errorCount) = before ∧ (← Lower.isAbandoned) = false then
      Lower.report .typeMismatch "expression has no value" (childSpan c)
    failure

end Recur

end SsaCompiler
